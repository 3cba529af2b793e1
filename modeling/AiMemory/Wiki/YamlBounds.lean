/-
How large frontmatter becomes.

A walker counts nodes before it builds them, and caps the depth of containers. An alias costs
what its node cost, and a key that is no scalar is refused. The one-entry map of a local tag is
counted by neither, so a value in JSON can be twice as large and twice as deep.
-/
import AiMemory.Wiki.FrontmatterYaml

open List

namespace Frontmatter

/-! ### Values with wrappers -/

namespace Value

def isTagged : Value → Bool
  | .tagged .. => true
  | _ => false

mutual
def single : Value → Bool
  | .array items => singleItems items
  | .object entries => singleEntries entries
  | .tagged _ value => !value.isTagged && value.single
  | _ => true
def singleItems : List Value → Bool
  | [] => true
  | item :: items => item.single && singleItems items
def singleEntries : List (Text × Value) → Bool
  | [] => true
  | (_, value) :: entries => value.single && singleEntries entries
end

mutual
lemma size_json (v : Value) (h : v.single) :
    v.json.nodes + (if v.isTagged then 0 else 1) ≤ 2 * v.nodes ∧
      v.json.height ≤ 2 * v.height + (if v.isTagged then 1 else 0) := by
  match v with
  | .null | .bool _ | .number _ | .string _ =>
    simp [json, Json.Value.nodes, nodes, isTagged, Json.Value.height]
  | .array items =>
    have hitems := size_jsonItems items h
    simp only [json, Json.Value.nodes, nodes, Json.Value.height, height, isTagged,
      Bool.false_eq_true, if_false]
    omega
  | .object entries =>
    have hentries := size_jsonEntries entries h
    simp only [json, Json.Value.nodes, nodes, Json.Value.height, height, isTagged,
      Bool.false_eq_true, if_false]
    omega
  | .tagged name value =>
    rw [single, Bool.and_eq_true, Bool.not_eq_true'] at h
    have hvalue := size_json value h.2
    rw [h.1, if_neg Bool.false_ne_true, if_neg Bool.false_ne_true] at hvalue
    simp only [json, Json.Value.nodes, Json.Value.nodesFields, nodes, Json.Value.height,
      Json.Value.heightFields, height, isTagged, if_true]
    omega
lemma size_jsonItems (items : List Value) (h : singleItems items) :
    Json.Value.nodesItems (jsonItems items) ≤ 2 * nodesItems items ∧
      Json.Value.heightItems (jsonItems items) ≤ 2 * heightItems items + 1 := by
  match items with
  | [] => simp [jsonItems, Json.Value.nodesItems, Json.Value.heightItems]
  | item :: items =>
    rw [singleItems, Bool.and_eq_true] at h
    obtain ⟨hnodes, hheight⟩ := size_json item h.1
    have hitems := size_jsonItems items h.2
    simp only [jsonItems, Json.Value.nodesItems, nodesItems, Json.Value.heightItems, heightItems]
    split at hheight <;> omega
lemma size_jsonEntries (entries : List (Text × Value)) (h : singleEntries entries) :
    Json.Value.nodesFields (jsonEntries entries) ≤ 2 * nodesEntries entries ∧
      Json.Value.heightFields (jsonEntries entries) ≤ 2 * heightEntries entries + 1 := by
  match entries with
  | [] => simp [jsonEntries, Json.Value.nodesFields, Json.Value.heightFields]
  | (key, value) :: entries =>
    rw [singleEntries, Bool.and_eq_true] at h
    obtain ⟨hnodes, hheight⟩ := size_json value h.1
    have hentries := size_jsonEntries entries h.2
    simp only [jsonEntries, Json.Value.nodesFields, nodesEntries, Json.Value.heightFields,
      heightEntries]
    split at hheight <;> omega
end

lemma nodes_json (v : Value) (h : v.single) :
    v.json.nodes + (if v.isTagged then 0 else 1) ≤ 2 * v.nodes :=
  (size_json v h).1

lemma height_json (v : Value) (h : v.single) :
    v.json.height ≤ 2 * v.height + (if v.isTagged then 1 else 0) :=
  (size_json v h).2

lemma leaf_facts {v : Value} (h : v.isLeaf) :
    v.nodes = 1 ∧ v.height = 0 ∧ v.single ∧ v.isTagged = false := by
  cases v with
  | array items | object entries | tagged name value => cases h
  | _ => simp [nodes, height, single, isTagged]

lemma nodesItems_append (items more : List Value) :
    nodesItems (items ++ more) = nodesItems items + nodesItems more := by
  induction items with
  | nil => simp [nodesItems]
  | cons item items ih =>
    rw [cons_append, nodesItems, nodesItems, ih]
    omega

lemma heightItems_append (items more : List Value) :
    heightItems (items ++ more) = max (heightItems items) (heightItems more) := by
  induction items with
  | nil => simp [heightItems]
  | cons item items ih =>
    rw [cons_append, heightItems, heightItems, ih]
    omega

lemma singleItems_append (items more : List Value) :
    singleItems (items ++ more) = (singleItems items && singleItems more) := by
  induction items with
  | nil => simp [singleItems]
  | cons item items ih => rw [cons_append, singleItems, singleItems, ih, Bool.and_assoc]

lemma insertEntry_facts (key : Text) (value : Value) (entries : List (Text × Value)) :
    nodesEntries (insertEntry key value entries) ≤ nodesEntries entries + value.nodes ∧
      heightEntries (insertEntry key value entries) ≤ max (heightEntries entries) value.height ∧
      (singleEntries entries → value.single →
        singleEntries (insertEntry key value entries)) := by
  induction entries with
  | nil => simp [insertEntry, nodesEntries, heightEntries, singleEntries]
  | cons entry entries ih =>
    obtain ⟨k, v⟩ := entry
    rw [insertEntry]
    split
    · simp only [nodesEntries, heightEntries, singleEntries, Bool.and_eq_true]
      refine ⟨by omega, by omega, fun h hvalue => ⟨hvalue, h.2⟩⟩
    · simp only [nodesEntries, heightEntries, singleEntries, Bool.and_eq_true]
      refine ⟨by omega, by omega, fun h hvalue => ⟨h.1, ih.2.2 h.2 hvalue⟩⟩

end Value

/-! ### Bounds -/

variable {parseFinite : Text → Option Text} {input : Text} {w w' : Walker}
  {event : Event} {span : Span} {depth fuel height height' : ℕ} {value : Value}

def Kept (w : Walker) : Prop := ∀ id anchored, w.anchors id = some anchored →
  anchored.value.nodes ≤ anchored.nodes ∧ anchored.value.height ≤ anchored.height ∧
    anchored.value.single = true

structure Counted (w w' : Walker) (nodes : ℕ) : Prop where
  kept : Kept w'
  counted : w.nodes + nodes ≤ w'.nodes
  within : w'.nodes ≤ maxNodes

structure Fits (depth : ℕ) (value : Value) (height : ℕ) : Prop where
  covers : value.height ≤ height
  within : depth + height ≤ maxDepth
  single : value.single = true

variable {inner out : Value} {tag : Option Text} {events : List Item} {item : Item}

lemma counted_finish {walked : Walker} {before anchor : ℕ}
    (hcounted : Counted w walked inner.nodes) (hfits : Fits depth inner height)
    (hbefore : before = w.nodes) (hbare : inner.isTagged = false)
    (h : finish walked before anchor tag inner height = (value, height', w')) :
    Counted w w' value.nodes ∧ Fits depth value height' := by
  rw [finish, Prod.mk.injEq, Prod.mk.injEq] at h
  obtain ⟨hvalue, rfl, rfl⟩ := h
  have hnodes : value.nodes = inner.nodes ∧ value.height = inner.height ∧ value.single := by
    rw [← hvalue]
    split
    · exact ⟨rfl, rfl, by rw [Value.single, hbare, hfits.single]; rfl⟩
    · exact ⟨rfl, rfl, hfits.single⟩
  rw [hvalue, hnodes.1]
  refine ⟨?_, ⟨by rw [hnodes.2.1]; exact hfits.covers, hfits.within, hnodes.2.2⟩⟩
  split
  · exact hcounted
  · refine ⟨fun id anchored hanchored => ?_, hcounted.counted, hcounted.within⟩
    by_cases hid : id = anchor
    · simp only [hid, Function.update_self, Option.some.injEq] at hanchored
      rw [← hanchored]
      have hcost := hcounted.counted
      refine ⟨?_, ?_, hnodes.2.2⟩
      · show value.nodes ≤ walked.nodes - before
        omega
      · show value.height ≤ height
        rw [hnodes.2.1]
        exact hfits.covers
    · simp only [Function.update_of_ne hid] at hanchored
      exact hcounted.kept id anchored hanchored

variable (parseFinite input) in
structure Sized (fuel : ℕ) : Prop where
  node : ∀ {w w' event span depth value height},
    node parseFinite input fuel w event span depth = .ok (value, height, w') →
    Kept w → w.nodes ≤ maxNodes → depth ≤ maxDepth →
      Counted w w' value.nodes ∧ Fits depth value height
  items : ∀ {w w' depth values height out height'},
    items parseFinite input fuel w depth values height = .ok (out, height', w') →
    Kept w → w.nodes ≤ maxNodes → Fits depth (.array values) (height + 1) →
      Kept w' ∧ w'.nodes ≤ maxNodes ∧
        w.nodes + Value.nodesItems out ≤ w'.nodes + Value.nodesItems values ∧
        Fits depth (.array out) (height' + 1)
  entries : ∀ {w w' depth seen map height out height'},
    entries parseFinite input fuel w depth seen map height = .ok (out, height', w') →
    Kept w → w.nodes ≤ maxNodes → Fits depth (.object map) (height + 1) →
      Kept w' ∧ w'.nodes ≤ maxNodes ∧
        w.nodes + Value.nodesEntries out ≤ w'.nodes + Value.nodesEntries map ∧
        Fits depth (.object out) (height' + 1)

lemma Fits.push {values : List Value} {h : ℕ} (hfits : Fits depth (.array values) (height + 1))
    (hvalue : Fits (depth + 1) value h) :
    Fits depth (.array (values ++ [value])) (max height h + 1) := by
  obtain ⟨hcovers, hwithin, hsingle⟩ := hfits
  obtain ⟨hvcovers, hvwithin, hvsingle⟩ := hvalue
  rw [Value.height] at hcovers
  refine ⟨?_, by omega, ?_⟩
  · rw [Value.height, Value.heightItems_append, Value.heightItems, Value.heightItems]
    omega
  · rw [Value.single] at hsingle ⊢
    rw [Value.singleItems_append, hsingle, Value.singleItems, hvsingle]
    rfl

lemma Fits.insert {map : List (Text × Value)} {h : ℕ} (name : Text)
    (hfits : Fits depth (.object map) (height + 1)) (hvalue : Fits (depth + 1) value h) :
    Fits depth (.object (insertEntry name value map)) (max height h + 1) := by
  obtain ⟨hcovers, hwithin, hsingle⟩ := hfits
  obtain ⟨hvcovers, hvwithin, hvsingle⟩ := hvalue
  obtain ⟨_, hheight, hsingles⟩ := Value.insertEntry_facts name value map
  rw [Value.height] at hcovers
  refine ⟨?_, by omega, hsingles hsingle hvsingle⟩
  rw [Value.height]
  omega

lemma Fits.below (h : Fits depth inner (height + 1)) : depth + 1 ≤ maxDepth := by
  have hwithin := h.within
  omega

lemma sized (fuel : ℕ) : Sized parseFinite input fuel := by
  induction fuel with
  | zero =>
    constructor
    · intro w w' event span depth value height h
      simp [node] at h
    · intro w w' depth values height out height' h
      simp [items] at h
    · intro w w' depth seen map height out height' h
      simp [entries] at h
  | succ fuel ih =>
    constructor
    · intro w w' event span depth value height h hkept hnodes hdepth
      rcases node_inv h with ⟨id, anchored, _, hanchor, hlimit, hcount, rfl, rfl⟩ |
        ⟨_, _, anchor, tag, counted, leaf, _, hcount, hleaf, hfinish⟩ |
        ⟨anchor, tag, counted, values, h', walked, _, henter, hitems, hfinish⟩ |
        ⟨anchor, tag, counted, map, h', walked, _, henter, hentries, hfinish⟩
      · -- an alias costs what its node was counted for
        obtain ⟨rfl, hle⟩ := count_ok hcount
        obtain ⟨hsize, hheight, hsingle⟩ := hkept id anchored hanchor
        exact ⟨⟨hkept, Nat.add_le_add_left hsize _, hle⟩, ⟨hheight, hlimit, hsingle⟩⟩
      · obtain ⟨rfl, hle⟩ := count_ok hcount
        obtain ⟨hone, hzero, hsingle, hbare⟩ := Value.leaf_facts hleaf
        have hcounted : Counted w { w with nodes := w.nodes + 1 } leaf.nodes :=
          ⟨hkept, by rw [hone], hle⟩
        have hfits : Fits depth leaf 0 := ⟨by rw [hzero], hdepth, hsingle⟩
        exact counted_finish hcounted hfits rfl hbare hfinish
      · obtain ⟨rfl, hle, hlt⟩ := enter_ok henter
        have hempty : Fits depth (.array []) (0 + 1) :=
          ⟨by rw [Value.height, Value.heightItems], hlt, rfl⟩
        obtain ⟨hkept', hnodes', hcost, hfits⟩ := ih.items hitems hkept hle hempty
        refine counted_finish ⟨hkept', ?_, hnodes'⟩ hfits rfl rfl hfinish
        have hall : w.nodes + 1 + Value.nodesItems values ≤ walked.nodes + 0 := hcost
        rw [Value.nodes]
        omega
      · obtain ⟨rfl, hle, hlt⟩ := enter_ok henter
        have hempty : Fits depth (.object []) (0 + 1) :=
          ⟨by rw [Value.height, Value.heightEntries], hlt, rfl⟩
        obtain ⟨hkept', hnodes', hcost, hfits⟩ := ih.entries hentries hkept hle hempty
        refine counted_finish ⟨hkept', ?_, hnodes'⟩ hfits rfl rfl hfinish
        have hall : w.nodes + 1 + Value.nodesEntries map ≤ walked.nodes + 0 := hcost
        rw [Value.nodes]
        omega
    · intro w w' depth values height out height' h hkept hnodes hfits
      obtain ⟨event, span, events, _, hstep⟩ := items_inv h
      rcases hstep with ⟨_, rfl, rfl, rfl⟩ | ⟨value, h', walked, hnode, hrest⟩
      · exact ⟨hkept, hnodes, Nat.le_refl _, hfits⟩
      · obtain ⟨hcounted, hvalue⟩ := ih.node hnode hkept hnodes hfits.below
        obtain ⟨hkept', hnodes', hcost, hfits'⟩ :=
          ih.items hrest hcounted.kept hcounted.within (hfits.push hvalue)
        refine ⟨hkept', hnodes', ?_, hfits'⟩
        have hvalueCost : w.nodes + value.nodes ≤ walked.nodes := hcounted.counted
        rw [Value.nodesItems_append, Value.nodesItems, Value.nodesItems] at hcost
        omega
    · intro w w' depth seen map height out height' h hkept hnodes hfits
      obtain ⟨event, span, events, _, hstep⟩ := entries_inv h
      rcases hstep with ⟨_, rfl, rfl, rfl⟩ |
        ⟨key, hk, keyed, name, event', span', events', value, h', walked, hkey, _, _, hnode, hrest⟩
      · exact ⟨hkept, hnodes, Nat.le_refl _, hfits⟩
      · -- the key is counted, and builds nothing
        obtain ⟨hkeyed, _⟩ := ih.node hkey hkept hnodes hfits.below
        obtain ⟨hcounted, hvalue⟩ := ih.node hnode hkeyed.kept hkeyed.within hfits.below
        obtain ⟨hkept', hnodes', hcost, hfits'⟩ :=
          ih.entries hrest hcounted.kept hcounted.within (hfits.insert name hvalue)
        refine ⟨hkept', hnodes', ?_, hfits'⟩
        have hkeyCost : w.nodes + key.nodes ≤ keyed.nodes := hkeyed.counted
        have hvalueCost : keyed.nodes + value.nodes ≤ walked.nodes := hcounted.counted
        have hinsert := (Value.insertEntry_facts name value map).1
        omega

structure Bounded (value : Value) : Prop where
  nodes : value.nodes ≤ maxNodes
  height : value.height ≤ maxDepth
  single : value.single = true

lemma documentLoop_bounded {documents : ℕ}
    (h : documentLoop parseFinite input fuel w value documents = .ok out) (hkept : Kept w)
    (hnodes : w.nodes ≤ maxNodes) (hvalue : Bounded value) : Bounded out := by
  induction fuel generalizing w value documents with
  | zero => cases h
  | succ fuel ih =>
    rw [documentLoop] at h
    obtain ⟨⟨⟨event, span⟩, events⟩, _, h⟩ := Fallible.bind_eq_ok.mp h
    have hnode : (node parseFinite input fuel { w with events } event span 0 >>= fun result =>
        documentLoop parseFinite input fuel result.2.2 result.1 documents) = .ok out →
        Bounded out := by
      intro h
      obtain ⟨⟨value', h', walked⟩, hwalk, h⟩ := Fallible.bind_eq_ok.mp h
      obtain ⟨hcounted, hfits⟩ := (sized fuel).node hwalk hkept hnodes (Nat.zero_le _)
      refine ih h hcounted.kept hcounted.within ⟨?_, ?_, hfits.single⟩
      · have hcost := hcounted.counted
        have hwithin := hcounted.within
        simp only
        omega
      · have hcovers := hfits.covers
        have hwithin := hfits.within
        simp only
        omega
    cases event with
    | streamStart | documentEnd => exact ih h hkept hnodes hvalue
    | streamEnd =>
      cases h
      exact hvalue
    | documentStart =>
      simp only at h
      split at h
      · cases h
      · exact ih h hkept hnodes hvalue
    | _ => exact hnode h

lemma bounded_document (h : document parseFinite input events = .ok out) : Bounded out:= by
  refine documentLoop_bounded h (fun id anchored hanchor => ?_) (Nat.zero_le _) ?_
  · cases hanchor
  · exact ⟨by decide, by decide, rfl⟩

/-! ### Aliases -/

def openStep (stack : List ℕ) : Item → List ℕ
  | .ok (.sequenceStart anchor _, _) | .ok (.mappingStart anchor _, _) => anchor :: stack
  | .ok (.sequenceEnd, _) | .ok (.mappingEnd, _) => stack.tail
  | _ => stack

def opened (stack : List ℕ) (events : List Item) : List ℕ := events.foldl openStep stack

def anchorOf : Item → Option ℕ
  | .ok (.scalar _ _ anchor _, _) | .ok (.sequenceStart anchor _, _)
  | .ok (.mappingStart anchor _, _) => if anchor = 0 then none else some anchor
  | _ => none

lemma anchorOf_ne_zero : anchorOf item ≠ some 0 := by
  intro h
  cases item with
  | error error => cases h
  | ok pair =>
    obtain ⟨event, span⟩ := pair
    cases event with
    | scalar text style anchor tag | sequenceStart anchor tag | mappingStart anchor tag =>
      rw [anchorOf, Option.ite_none_left_eq_some] at h
      exact h.1 (Option.some.inj h.2)
    | _ => cases h

def anchorIds (events : List Item) : List ℕ := events.filterMap anchorOf

def Quiet : List ℕ → List Item → Prop
  | _, [] => True
  | stack, item :: events =>
    (∀ id span, item = .ok (.aliasOf id, span) → id ∉ stack) ∧ Quiet (openStep stack item) events

/-- An alias stands inside the container that carries its anchor. -/
def SelfAlias (events : List Item) : Prop :=
  ∃ before id span after, events = before ++ .ok (.aliasOf id, span) :: after ∧
    id ∈ opened [] before ∧ ∀ span, .ok (.streamEnd, span) ∉ before

lemma quiet_append {stack : List ℕ} {events more : List Item} :
    Quiet stack (events ++ more) ↔ Quiet stack events ∧ Quiet (opened stack events) more := by
  induction events generalizing stack with
  | nil => exact ⟨fun h => ⟨trivial, h⟩, fun h => h.2⟩
  | cons item events ih =>
    rw [cons_append, Quiet, Quiet, ih, and_assoc]
    rfl

/-- What is known before some events: the anchors of open containers and of the events to come
are not defined. -/
structure Fresh (anchors : ℕ → Option Anchored) (stack : List ℕ) (events : List Item) : Prop where
  zero : anchors 0 = none
  undefined : ∀ a ∈ stack, anchors a = none
  ids : (anchorIds events).Nodup
  coming : ∀ a ∈ anchorIds events, a ∉ stack ∧ anchors a = none

/-- What events that were walked have left: the containers that are open, and their anchors. -/
structure Passed (anchors anchors' : ℕ → Option Anchored) (stack stack' : List ℕ)
    (used : List Item) : Prop where
  quiet : Quiet stack used
  opened : opened stack used = stack'
  zero : anchors' 0 = none
  defined : ∀ a, anchors' a ≠ none → anchors a ≠ none ∨ a ∈ anchorIds used

variable {anchors anchors' anchors'' : ℕ → Option Anchored} {stack stack' stack'' : List ℕ}
  {used used' rest : List Item}

lemma Passed.trans (h : Passed anchors anchors' stack stack' used)
    (h' : Passed anchors' anchors'' stack' stack'' used') :
    Passed anchors anchors'' stack stack'' (used ++ used') := by
  refine ⟨quiet_append.mpr ⟨h.quiet, ?_⟩, ?_, h'.zero, fun a ha => ?_⟩
  · rw [h.opened]
    exact h'.quiet
  · rw [Frontmatter.opened, foldl_append]
    show Frontmatter.opened (Frontmatter.opened stack used) used' = stack''
    rw [h.opened, h'.opened]
  · rw [anchorIds, filterMap_append, mem_append]
    rcases h'.defined a ha with ha | ha
    · rcases h.defined a ha with ha | ha
      · exact .inl ha
      · exact .inr (.inl ha)
    · exact .inr (.inr ha)

lemma Fresh.passed (h : Fresh anchors stack (used ++ rest))
    (hpassed : Passed anchors anchors' stack stack' used) (hsub : stack' ⊆ stack) :
    Fresh anchors' stack' rest := by
  obtain ⟨_, hundefined, hids, hcoming⟩ := h
  rw [anchorIds, filterMap_append] at hids hcoming
  have hapart := (nodup_append.mp hids).2.2
  refine ⟨hpassed.zero, fun a ha => ?_, (nodup_append.mp hids).2.1, fun a ha => ⟨?_, ?_⟩⟩
  · by_contra hne
    rcases hpassed.defined a hne with hold | hnew
    · exact hold (hundefined a (hsub ha))
    · exact (hcoming a (mem_append_left _ hnew)).1 (hsub ha)
  · exact fun hmem => (hcoming a (mem_append_right _ ha)).1 (hsub hmem)
  · by_contra hne
    rcases hpassed.defined a hne with hold | hnew
    · exact hold (hcoming a (mem_append_right _ ha)).2
    · exact hapart a hnew a ha rfl

lemma passed_single (hzero : anchors 0 = none)
    (halias : ∀ id span, item = .ok (.aliasOf id, span) → id ∉ stack)
    (hstep : openStep stack item = stack') : Passed anchors anchors stack stack' [item] :=
  ⟨⟨halias, trivial⟩, hstep, hzero, fun _ ha => .inl ha⟩

lemma passed_comments {comments : List Item} (hzero : anchors 0 = none)
    (h : ∀ c ∈ comments, isComment c) : Passed anchors anchors stack stack comments := by
  induction comments with
  | nil => exact ⟨trivial, rfl, hzero, fun _ ha => .inl ha⟩
  | cons c comments ih =>
    rw [forall_mem_cons] at h
    obtain ⟨⟨span, rfl⟩, hrest⟩ := h
    have hone : Passed anchors anchors stack stack [.ok (.comment, span)] :=
      passed_single hzero (fun id span' heq => by cases heq) rfl
    exact hone.trans (ih hrest)

lemma Fresh.enter {anchor : ℕ} (h : Fresh anchors stack (item :: rest))
    (hanchor : anchorOf item = if anchor = 0 then none else some anchor) :
    Fresh anchors (anchor :: stack) rest := by
  obtain ⟨hzero, hundefined, hids, hcoming⟩ := h
  rw [anchorIds, filterMap_cons, hanchor] at hids hcoming
  by_cases hnone : anchor = 0
  · rw [if_pos hnone] at hids hcoming
    refine ⟨hzero, ?_, hids, fun a ha => ⟨?_, (hcoming a ha).2⟩⟩
    · rw [hnone]
      exact forall_mem_cons.mpr ⟨hzero, hundefined⟩
    · rw [mem_cons, not_or]
      refine ⟨?_, (hcoming a ha).1⟩
      rintro rfl
      obtain ⟨other, _, hother⟩ := mem_filterMap.mp ha
      exact anchorOf_ne_zero (hnone ▸ hother)
  · rw [if_neg hnone] at hids hcoming
    obtain ⟨hnot, hids⟩ := nodup_cons.mp hids
    obtain ⟨hfirst, hcoming⟩ := forall_mem_cons.mp hcoming
    refine ⟨hzero, forall_mem_cons.mpr ⟨hfirst.2, hundefined⟩, hids, fun a ha => ⟨?_, ?_⟩⟩
    · rw [mem_cons, not_or]
      refine ⟨?_, (hcoming a ha).1⟩
      rintro rfl
      exact hnot ha
    · exact (hcoming a ha).2

lemma Passed.close {walked : Walker} {before anchor : ℕ}
    (halias : ∀ id span, item = .ok (.aliasOf id, span) → id ∉ stack)
    (hanchor : anchorOf item = if anchor = 0 then none else some anchor)
    (hparts : Passed anchors walked.anchors (openStep stack item) stack used)
    (h : finish walked before anchor tag inner height = (value, height', w')) :
    Passed anchors w'.anchors stack stack (.cons item used) := by
  rw [finish, Prod.mk.injEq, Prod.mk.injEq] at h
  obtain ⟨_, _, rfl⟩ := h
  have hids : anchorIds used ⊆ anchorIds (item :: used) := by
    intro a ha
    rw [anchorIds, mem_filterMap] at ha ⊢
    obtain ⟨other, hother, heq⟩ := ha
    exact ⟨other, mem_cons_of_mem _ hother, heq⟩
  by_cases hnone : anchor = 0
  · rw [if_pos hnone]
    refine ⟨⟨halias, hparts.quiet⟩, hparts.opened, hparts.zero, fun a ha => ?_⟩
    exact (hparts.defined a ha).imp_right fun hmem => hids hmem
  · rw [if_neg hnone]
    refine ⟨⟨halias, hparts.quiet⟩, hparts.opened, ?_, fun a ha => ?_⟩
    · exact (Function.update_of_ne (fun heq => hnone heq.symm) _ _).trans hparts.zero
    · by_cases haanchor : a = anchor
      · right
        rw [if_neg hnone] at hanchor
        rw [haanchor, anchorIds, mem_filterMap]
        exact ⟨item, mem_cons_self, hanchor⟩
      · simp only [Function.update_of_ne haanchor] at ha
        exact (hparts.defined a ha).imp_right fun hmem => hids hmem

variable (parseFinite input) in
/-- A walk that succeeds is quiet, and leaves the containers open that were open before. -/
structure Quiets (fuel : ℕ) : Prop where
  node : ∀ {w w' event span depth value height stack},
    node parseFinite input fuel w event span depth = .ok (value, height, w') →
    Fresh w.anchors stack (.ok (event, span) :: w.events) →
      ∃ used, w.events = used ++ w'.events ∧
        Passed w.anchors w'.anchors stack stack (.ok (event, span) :: used)
  items : ∀ {w w' depth values height out height' stack},
    items parseFinite input fuel w depth values height = .ok (out, height', w') →
    Fresh w.anchors stack w.events →
      ∃ used, w.events = used ++ w'.events ∧ Passed w.anchors w'.anchors stack stack.tail used
  entries : ∀ {w w' depth seen map height out height' stack},
    entries parseFinite input fuel w depth seen map height = .ok (out, height', w') →
    Fresh w.anchors stack w.events →
      ∃ used, w.events = used ++ w'.events ∧ Passed w.anchors w'.anchors stack stack.tail used

lemma quiets_next (h : Quiets parseFinite input fuel) {w' : Walker}
    (hnext : next w.events = .ok ((event, span), events))
    (hnode : node parseFinite input fuel { w with events } event span depth =
      .ok (value, height, w')) (hfresh : Fresh w.anchors stack w.events) :
    ∃ used, w.events = used ++ w'.events ∧ Passed w.anchors w'.anchors stack stack used ∧
      Fresh w'.anchors stack w'.events := by
  obtain ⟨comments, hevents, hall⟩ := next_ok hnext
  rw [hevents] at hfresh
  have hcomments : Passed w.anchors w.anchors stack stack comments :=
    passed_comments hfresh.zero hall
  obtain ⟨used, hused, hpassed⟩ := h.node hnode (hfresh.passed hcomments (List.Subset.refl _))
  have hwhole : w.events = comments ++ .ok (event, span) :: used ++ w'.events := by
    rw [hevents, append_assoc, cons_append]
    exact congrArg (comments ++ .ok (event, span) :: ·) hused
  have htrans := hcomments.trans hpassed
  refine ⟨_, hwhole, htrans, ?_⟩
  rw [← hevents, hwhole] at hfresh
  exact hfresh.passed htrans (List.Subset.refl _)

lemma passed_end (hnext : next w.events = .ok ((event, span), events))
    (hend : event = .sequenceEnd ∨ event = .mappingEnd) (hzero : w.anchors 0 = none) :
    ∃ used, w.events = used ++ events ∧ Passed w.anchors w.anchors stack stack.tail used := by
  obtain ⟨comments, hevents, hall⟩ := next_ok hnext
  refine ⟨comments ++ [.ok (event, span)], ?_, ?_⟩
  · rw [hevents, append_assoc, singleton_append]
  · refine (passed_comments hzero hall).trans (passed_single hzero ?_ ?_)
    · rintro id span' heq
      rcases hend with rfl | rfl
      · cases heq
      · cases heq
    · rcases hend with rfl | rfl
      · rfl
      · rfl

lemma quiets (fuel : ℕ) : Quiets parseFinite input fuel := by
  induction fuel with
  | zero =>
    constructor
    · intro w w' event span depth value height stack h
      simp [node] at h
    · intro w w' depth values height out height' stack h
      simp [items] at h
    · intro w w' depth seen map height out height' stack h
      simp [entries] at h
  | succ fuel ih =>
    constructor
    · intro w w' event span depth value height stack h hfresh
      rcases node_inv h with ⟨id, anchored, rfl, hanchor, _, hcount, _⟩ |
        ⟨_, _, anchor, tag, counted, leaf, rfl, hcount, _, hfinish⟩ |
        ⟨anchor, tag, counted, values, h', walked, rfl, henter, hitems, hfinish⟩ |
        ⟨anchor, tag, counted, map, h', walked, rfl, henter, hentries, hfinish⟩
      · obtain ⟨rfl, _⟩ := count_ok hcount
        refine ⟨[], rfl, passed_single hfresh.zero ?_ rfl⟩
        intro id' span' heq hmem
        cases heq
        -- a node that is open has no anchor yet
        rw [hfresh.undefined id hmem] at hanchor
        cases hanchor
      · obtain ⟨rfl, _⟩ := count_ok hcount
        refine ⟨[], (finish_walker hfinish).1.symm, ?_⟩
        have hnone : Passed w.anchors ({ w with nodes := w.nodes + 1 } : Walker).anchors stack stack
            [] := passed_comments hfresh.zero (forall_mem_nil _)
        exact hnone.close (fun id span' heq => by cases heq) rfl hfinish
      · obtain ⟨rfl, _⟩ := enter_ok henter
        obtain ⟨used, hused, hparts⟩ := ih.items hitems (hfresh.enter rfl)
        refine ⟨used, hused.trans (by rw [(finish_walker hfinish).1]), ?_⟩
        exact hparts.close (fun id span' heq => by cases heq) rfl hfinish
      · obtain ⟨rfl, _⟩ := enter_ok henter
        obtain ⟨used, hused, hparts⟩ := ih.entries hentries (hfresh.enter rfl)
        refine ⟨used, hused.trans (by rw [(finish_walker hfinish).1]), ?_⟩
        exact hparts.close (fun id span' heq => by cases heq) rfl hfinish
    · intro w w' depth values height out height' stack h hfresh
      obtain ⟨event, span, events, hnext, hstep⟩ := items_inv h
      rcases hstep with ⟨hend, _, _, rfl⟩ | ⟨value, h', walked, hnode, hrest⟩
      · exact passed_end hnext (.inl hend) hfresh.zero
      · obtain ⟨used, hused, hpassed, hfresh'⟩ := quiets_next ih hnext hnode hfresh
        obtain ⟨used', hused', hpassed'⟩ := ih.items hrest hfresh'
        exact ⟨used ++ used', by rw [hused, hused', append_assoc], hpassed.trans hpassed'⟩
    · intro w w' depth seen map height out height' stack h hfresh
      obtain ⟨event, span, events, hnext, hstep⟩ := entries_inv h
      rcases hstep with ⟨hend, _, _, rfl⟩ |
        ⟨key, hk, keyed, name, event', span', events', value, h', walked, hkey, _, hnext', hnode,
          hrest⟩
      · exact passed_end hnext (.inr hend) hfresh.zero
      · obtain ⟨used, hused, hpassed, hfresh'⟩ := quiets_next ih hnext hkey hfresh
        obtain ⟨used', hused', hpassed', hfresh''⟩ := quiets_next ih hnext' hnode hfresh'
        obtain ⟨used'', hused'', hpassed''⟩ := ih.entries hrest hfresh''
        refine ⟨used ++ (used' ++ used''), ?_, hpassed.trans (hpassed'.trans hpassed'')⟩
        rw [hused, hused', hused'', append_assoc, append_assoc]

lemma documentLoop_quiet {documents : ℕ}
    (h : documentLoop parseFinite input fuel w value documents = .ok out)
    (hfresh : Fresh w.anchors [] w.events) :
    ∃ used span rest, w.events = used ++ .ok (.streamEnd, span) :: rest ∧ Quiet [] used := by
  induction fuel generalizing w value documents with
  | zero => cases h
  | succ fuel ih =>
    rw [documentLoop] at h
    obtain ⟨⟨⟨event, span⟩, events⟩, hnext, h⟩ := Fallible.bind_eq_ok.mp h
    obtain ⟨comments, hevents, hall⟩ := next_ok hnext
    have hcomments : Passed w.anchors w.anchors [] [] comments :=
      passed_comments hfresh.zero hall
    -- an event that is no part of a node
    have hskip : ∀ value documents, openStep [] (.ok (event, span)) = [] →
        (∀ id, event ≠ .aliasOf id) →
        documentLoop parseFinite input fuel { w with events } value documents = .ok out →
        ∃ used span rest, w.events = used ++ .ok (.streamEnd, span) :: rest ∧ Quiet [] used := by
      intro value documents hstep halias h
      have hone : Passed w.anchors w.anchors [] [] (comments ++ [.ok (event, span)]) := by
        refine hcomments.trans (passed_single hfresh.zero (fun id span' heq => ?_) hstep)
        cases heq
        exact absurd rfl (halias id)
      have hsplit : w.events = comments ++ [.ok (event, span)] ++ events := by
        rw [hevents, append_assoc, singleton_append]
      rw [hsplit] at hfresh
      obtain ⟨used, span', rest, hused, hquiet⟩ :=
        ih h (hfresh.passed hone (List.Subset.refl _))
      refine ⟨comments ++ [.ok (event, span)] ++ used, span', rest, ?_, ?_⟩
      · rw [hsplit, append_assoc _ used]
        exact congrArg _ hused
      · rw [quiet_append, hone.opened]
        exact ⟨hone.quiet, hquiet⟩
    have hnode : (node parseFinite input fuel { w with events } event span 0 >>= fun result =>
        documentLoop parseFinite input fuel result.2.2 result.1 documents) = .ok out →
        ∃ used span rest, w.events = used ++ .ok (.streamEnd, span) :: rest ∧ Quiet [] used := by
      intro h
      obtain ⟨⟨value', h', walked⟩, hwalk, h⟩ := Fallible.bind_eq_ok.mp h
      obtain ⟨used, hused, hpassed, hfresh'⟩ := quiets_next (quiets fuel) hnext hwalk hfresh
      obtain ⟨used', span', rest, hused', hquiet⟩ := ih h hfresh'
      refine ⟨used ++ used', span', rest, ?_, ?_⟩
      · rw [hused, append_assoc]
        exact congrArg _ hused'
      · rw [quiet_append, hpassed.opened]
        exact ⟨hpassed.quiet, hquiet⟩
    cases event with
    | streamStart | documentEnd => exact hskip value documents rfl (fun id heq => by cases heq) h
    | streamEnd => exact ⟨comments, span, events, hevents, hcomments.quiet⟩
    | documentStart =>
      simp only at h
      split at h
      · cases h
      · exact hskip value (documents + 1) rfl (fun id heq => by cases heq) h
    | _ => exact hnode h

lemma selfAlias_refused (hids : (anchorIds events).Nodup)
    (hself : SelfAlias events) : document parseFinite input events ≠ .ok out := by
  intro h
  have hfresh : Fresh (fun _ => none) [] events :=
    ⟨rfl, forall_mem_nil _, hids, fun a _ => ⟨not_mem_nil, rfl⟩⟩
  obtain ⟨used, span, rest, hused, hquiet⟩ := documentLoop_quiet h hfresh
  obtain ⟨before, id, span', after, hsplit, hopen, hend⟩ := hself
  have heq : before ++ .ok (.aliasOf id, span') :: after = used ++ .ok (.streamEnd, span) :: rest :=
    hsplit.symm.trans hused
  -- the alias is before the end of the stream
  rcases append_eq_append_iff.mp heq with ⟨more, rfl, hmore⟩ | ⟨more, rfl, hmore⟩
  · cases more with
    | nil => cases hmore
    | cons item more =>
      obtain ⟨rfl, _⟩ := List.cons.inj hmore
      rw [quiet_append] at hquiet
      exact hquiet.2.1 id span' rfl hopen
  · cases more with
    | nil => cases hmore
    | cons item more =>
      obtain ⟨rfl, _⟩ := List.cons.inj hmore
      exact hend span (mem_append_right _ mem_cons_self)

/-- The walk of any row of events ends. A value that it returns has as many nodes, and as many
containers around each other, as the limits say, aliases expanded; in JSON, with the map of each
local tag, it has at most twice as many. An alias inside its own node is refused. -/
theorem document_bounded (parseFinite : Text → Option Text) (input : Text) (events : List Item) :
    document parseFinite input events ≠ .error .outOfFuel ∧
    (∀ value, document parseFinite input events = .ok value →
      value.nodes ≤ maxNodes ∧ value.height ≤ maxDepth ∧
        value.json.nodes ≤ 2 * maxNodes ∧ value.json.height ≤ 2 * maxDepth + 1) ∧
    ((anchorIds events).Nodup → SelfAlias events →
      ∀ value, document parseFinite input events ≠ .ok value) := by
  refine ⟨document_terminates parseFinite input events, ?_, ?_⟩
  · intro value h
    obtain ⟨hnodes, hheight, hsingle⟩ := bounded_document h
    have hjson := value.nodes_json hsingle
    have hdeep := value.height_json hsingle
    refine ⟨hnodes, hheight, by omega, ?_⟩
    split at hdeep
    · omega
    · omega
  · intro hids hself value
    exact selfAlias_refused hids hself

def streamOf (events : List Event) : List Item :=
  (Event.streamStart :: .documentStart :: events ++ [Event.documentEnd, .streamEnd]).map
    fun event => .ok (event, ⟨1, 0, none⟩)

/-- A tagged sequence that is named by an alias behind it. -/
def aliasStream : List Item := streamOf [.sequenceStart 0 none,
  .sequenceStart 1 (some ⟨['!'], ['a']⟩), .scalar ['b'] .plain 0 none, .sequenceEnd, .aliasOf 1,
  .sequenceEnd]

def selfStream : List Item := streamOf [.sequenceStart 1 none, .aliasOf 1, .sequenceEnd]

theorem document_bounded_small :
    (∃ value, document (fun _ => none) [] aliasStream = .ok value ∧ value.nodes ≤ maxNodes ∧
        value.json.nodes ≤ 2 * maxNodes) ∧
      ∀ value, document (fun _ => none) [] selfStream ≠ .ok value := by
  constructor
  · have hok : (document (fun _ => none) [] aliasStream).isOk = true := by decide +kernel
    cases hvalue : document (fun _ => none) [] aliasStream with
    | error stop =>
      rw [hvalue] at hok
      cases hok
    | ok value =>
      obtain ⟨hnodes, -, hjson, -⟩ :=
        (document_bounded (fun _ => none) [] aliasStream).2.1 value hvalue
      exact ⟨value, rfl, hnodes, hjson⟩
  · refine (document_bounded (fun _ => none) [] selfStream).2.2 (by decide) ?_
    refine ⟨[.ok (.streamStart, ⟨1, 0, none⟩), .ok (.documentStart, ⟨1, 0, none⟩),
      .ok (.sequenceStart 1 none, ⟨1, 0, none⟩)], 1, _, _, rfl, by decide, ?_⟩
    intro span hspan
    simp at hspan

def taggedSequences : List Event :=
  List.replicate 65 (.sequenceStart 0 (some ⟨['!'], ['a']⟩)) ++ List.replicate 65 .sequenceEnd

/-- The maps of local tags nest deeper than the limit. -/
theorem tagged_sequences_too_deep : ¬ ∀ events value,
    document (fun _ => none) [] events = .ok value →
      value.json.nodes ≤ maxNodes ∧ value.json.height ≤ maxDepth := by
  intro h
  have hdeep : (document (fun _ => none) [] (streamOf taggedSequences)).toOption.any
      (fun value => decide (maxDepth < value.json.height)) = true := by decide +kernel
  cases hvalue : document (fun _ => none) [] (streamOf taggedSequences) with
  | error stop =>
    rw [hvalue] at hdeep
    cases hdeep
  | ok value =>
    rw [hvalue] at hdeep
    have hlt : maxDepth < value.json.height := of_decide_eq_true hdeep
    exact absurd (h _ value hvalue).2 (Nat.not_le.mpr hlt)

end Frontmatter
