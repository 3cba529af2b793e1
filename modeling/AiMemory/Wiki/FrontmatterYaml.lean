/-
Frontmatter YAML to JSON (`ai-memory-wiki`, `frontmatter_yaml.rs`).

The walker goes over the events of a YAML parser. Frontmatter is untrusted: nested containers are
capped, and so are the nodes that aliases expand to. An anchored node is kept with the cost of
replaying it.
-/
import AiMemory.Wiki.YamlScalars

open Strings Utf8

namespace Frontmatter

open Fallible (bind_eq_ok bind_ne_error)

/-- `serde_yaml` 0.9's recursion limit, in nested sequences and mappings. -/
def maxDepth : ℕ := 128

def maxNodes : ℕ := 250000

def usizeMax : ℕ := 2 ^ 64 - 1

inductive Event
  | nothing | comment | streamStart | streamEnd | documentStart | documentEnd
  | aliasOf (id : ℕ)
  | scalar (text : Text) (style : ScalarStyle) (anchor : ℕ) (tag : Option Tag)
  | sequenceStart (anchor : ℕ) (tag : Option Tag)
  | sequenceEnd
  | mappingStart (anchor : ℕ) (tag : Option Tag)
  | mappingEnd
  deriving DecidableEq

structure Span where
  startLine : ℕ
  startCol : ℕ
  endByte : Option ℕ

abbrev Item := Except String (Event × Span)

inductive Fault
  | parser (error : String)
  | unexpectedEnd
  | moreDocuments (span : Span)
  | unknownAnchor (span : Span)
  | recursionLimit (span : Span)
  | tooManyNodes (span : Span)
  | duplicateKey (key : Text) (span : Span)
  | unexpectedEvent (span : Span)
  | scalar (fault : ScalarFault) (span : Span)

/-- Why the walk stops: with an error, or because it was given too little fuel. -/
inductive Stop
  | outOfFuel
  | fault (fault : Fault)

structure Anchored where
  value : Value
  nodes : ℕ
  height : ℕ

structure Walker where
  events : List Item
  anchors : ℕ → Option Anchored
  nodes : ℕ

/-! ### Steps -/

def next : List Item → Except Stop ((Event × Span) × List Item)
  | [] => .error (.fault .unexpectedEnd)
  | .error error :: _ => .error (.fault (.parser error))
  | .ok (event, span) :: events =>
    if event = .comment then next events else .ok ((event, span), events)

def count (w : Walker) (nodes : ℕ) (span : Span) : Except Stop Walker :=
  let total := min (w.nodes + nodes) usizeMax
  if maxNodes < total then .error (.fault (.tooManyNodes span)) else .ok { w with nodes := total }

def enter (w : Walker) (depth : ℕ) (span : Span) : Except Stop Walker := do
  let w ← count w 1 span
  if maxDepth ≤ depth then .error (.fault (.recursionLimit span)) else .ok w

def lastLineInBlock (input : Text) (span : Span) : Bool :=
  if '\n' ∈ input then
    let last := afterLast '\n' input
    last ≠ [] && (last.any (· ≠ ' ') || decide (span.startCol ≤ byteLen last))
  else false

def trimBlock (input : Text) (style : ScalarStyle) (span : Span) (value : Value) : Value :=
  match value with
  | .string text =>
    if (style = .literal ∨ style = .folded) ∧ span.endByte = some (byteLen input) ∧
        lastLineInBlock input span ∧ text.getLast? = some '\n' then .string text.dropLast
    else value
  | _ => value

/-- A local tag wraps the value, and an anchor keeps it: `before` are the nodes counted before
this one. -/
def finish (w : Walker) (before anchor : ℕ) (tag : Option Text) (value : Value)
    (height : ℕ) : Value × ℕ × Walker :=
  let value := match enumTag tag with
    | some name => .tagged name value
    | none => value
  (value, height,
    if anchor = 0 then w
    else { w with
      anchors := Function.update w.anchors anchor (some ⟨value, w.nodes - before, height⟩) })

/-- `Map::insert`. -/
def insertEntry (key : Text) (value : Value) :
    List (Text × Value) → List (Text × Value)
  | [] => [(key, value)]
  | (k, v) :: entries =>
    if k = key then (k, value) :: entries else (k, v) :: insertEntry key value entries

def liftScalar {α : Type} (span : Span) : Except ScalarFault α → Except Stop α
  | .ok a => .ok a
  | .error fault => .error (.fault (.scalar fault span))

section

variable (parseFinite : Text → Option Text) (input : Text)

mutual
def node : ℕ → Walker → Event → Span → ℕ → Except Stop (Value × ℕ × Walker)
  | 0, _, _, _, _ => .error .outOfFuel
  | fuel + 1, w, event, span, depth =>
    match event with
    | .aliasOf id =>
      match w.anchors id with
      | none => .error (.fault (.unknownAnchor span))
      | some anchored =>
        if maxDepth < depth + anchored.height then .error (.fault (.recursionLimit span))
        else do
          let w ← count w anchored.nodes span
          return (anchored.value, anchored.height, w)
    | .scalar text style anchor tag => do
      let counted ← count w 1 span
      let tag := tagString tag
      let ownTag := if (enumTag tag).isSome then none else tag
      let value ← liftScalar span (scalar parseFinite text style ownTag)
      return finish counted w.nodes anchor tag (trimBlock input style span value) 0
    | .sequenceStart anchor tag => do
      let counted ← enter w depth span
      let (values, height, walked) ← items fuel counted depth [] 0
      return finish walked w.nodes anchor (tagString tag) (.array values) (height + 1)
    | .mappingStart anchor tag => do
      let counted ← enter w depth span
      let (map, height, walked) ← entries fuel counted depth [] [] 0
      return finish walked w.nodes anchor (tagString tag) (.object map) (height + 1)
    | _ => .error (.fault (.unexpectedEvent span))
def items : ℕ → Walker → ℕ → List Value → ℕ → Except Stop (List Value × ℕ × Walker)
  | 0, _, _, _, _ => .error .outOfFuel
  | fuel + 1, w, depth, values, height => do
    let ((event, span), events) ← next w.events
    if event = .sequenceEnd then return (values, height, { w with events })
    let (value, h, w) ← node fuel { w with events } event span (depth + 1)
    items fuel w depth (values ++ [value]) (max height h)
/-- The entries of a mapping up to its end. Keys are compared as YAML values: `1` and `"1"` are
different keys, though both land on `"1"`. -/
def entries : ℕ → Walker → ℕ → List Text → List (Text × Value) → ℕ →
    Except Stop (List (Text × Value) × ℕ × Walker)
  | 0, _, _, _, _, _ => .error .outOfFuel
  | fuel + 1, w, depth, seen, map, height => do
    let ((event, keySpan), events) ← next w.events
    if event = .mappingEnd then return (map, height, { w with events })
    let (key, _, w) ← node fuel { w with events } event keySpan (depth + 1)
    if key.text ∈ seen then throw (.fault (.duplicateKey key.text keySpan))
    let name ← liftScalar keySpan (jsonKey key)
    let ((event, span), events) ← next w.events
    let (value, h, w) ← node fuel { w with events } event span (depth + 1)
    entries fuel w depth (key.text :: seen) (insertEntry name value map) (max height h)
end

def documentLoop : ℕ → Walker → Value → ℕ → Except Stop Value
  | 0, _, _, _ => .error .outOfFuel
  | fuel + 1, w, value, documents => do
    let ((event, span), events) ← next w.events
    match event with
    | .streamStart | .documentEnd => documentLoop fuel { w with events } value documents
    | .streamEnd => return value
    | .documentStart =>
      if 1 < documents + 1 then throw (.fault (.moreDocuments span))
      documentLoop fuel { w with events } value (documents + 1)
    | event =>
      let (value, _, w) ← node parseFinite input fuel { w with events } event span 0
      documentLoop fuel w value documents

/-- Empty input is `null`. The fuel is more than the events can use up. -/
def document (events : List Item) : Except Stop Value :=
  documentLoop parseFinite input (2 * events.length + 2) ⟨events, fun _ => none, 0⟩ .null 0

end

/-! ### What a step has done -/

variable {parseFinite : Text → Option Text} {input : Text} {w w' : Walker}
  {event : Event} {span : Span} {depth fuel height height' : ℕ} {value : Value}

def isComment (item : Item) : Prop := ∃ span, item = .ok (.comment, span)

lemma next_ok {events rest : List Item} (h : next events = .ok ((event, span), rest)) :
    ∃ comments, events = comments ++ .ok (event, span) :: rest ∧ ∀ c ∈ comments, isComment c := by
  induction events with
  | nil => cases h
  | cons item events ih =>
    cases item with
    | error error => cases h
    | ok pair =>
      obtain ⟨first, at'⟩ := pair
      rw [next] at h
      by_cases hcomment : first = .comment
      · rw [if_pos hcomment] at h
        obtain ⟨comments, rfl, hall⟩ := ih h
        refine ⟨.ok (first, at') :: comments, rfl, ?_⟩
        exact List.forall_mem_cons.mpr ⟨⟨at', by rw [hcomment]⟩, hall⟩
      · rw [if_neg hcomment] at h
        cases h
        exact ⟨[], rfl, List.forall_mem_nil _⟩

lemma length_of_next {events rest : List Item} (h : next events = .ok ((event, span), rest)) :
    rest.length < events.length := by
  obtain ⟨comments, rfl, _⟩ := next_ok h
  rw [List.length_append, List.length_cons]
  omega

lemma next_ne_outOfFuel (events : List Item) : next events ≠ .error .outOfFuel := by
  induction events with
  | nil => exact fun h => nomatch h
  | cons item events ih =>
    cases item with
    | error error => exact fun h => nomatch h
    | ok pair =>
      rw [next]
      split
      · exact ih
      · exact fun h => nomatch h

lemma count_ok {n : ℕ} (h : count w n span = .ok w') :
    w' = { w with nodes := w.nodes + n } ∧ w.nodes + n ≤ maxNodes := by
  rw [count] at h
  split at h
  · cases h
  · rename_i hle
    cases h
    have hmax : maxNodes < usizeMax := by decide
    have htotal : min (w.nodes + n) usizeMax = w.nodes + n := by omega
    rw [htotal] at hle ⊢
    exact ⟨rfl, by omega⟩

lemma enter_ok (h : enter w depth span = .ok w') :
    w' = { w with nodes := w.nodes + 1 } ∧ w.nodes + 1 ≤ maxNodes ∧ depth < maxDepth := by
  obtain ⟨counted, hcount, h⟩ := bind_eq_ok.mp h
  split at h
  · cases h
  · rename_i hdepth
    cases h
    obtain ⟨rfl, hle⟩ := count_ok hcount
    exact ⟨rfl, hle, Nat.not_le.mp hdepth⟩

lemma trimBlock_leaf {style : ScalarStyle} (h : value.isLeaf) :
    (trimBlock input style span value).isLeaf := by
  cases value with
  | string text =>
    rw [trimBlock]
    split
    · rfl
    · rfl
  | _ => exact h

lemma liftScalar_ok {α : Type} {x : Except ScalarFault α} {a : α}
    (h : liftScalar span x = .ok a) : x = .ok a := by
  cases x with
  | error fault => cases h
  | ok b => exact congrArg _ (Except.ok.inj h)

lemma node_inv (h : node parseFinite input (fuel + 1) w event span depth =
    .ok (value, height, w')) :
    (∃ id anchored, event = .aliasOf id ∧ w.anchors id = some anchored ∧
      depth + anchored.height ≤ maxDepth ∧ count w anchored.nodes span = .ok w' ∧
      value = anchored.value ∧ height = anchored.height) ∨
    (∃ text style anchor tag counted leaf, event = .scalar text style anchor tag ∧
      count w 1 span = .ok counted ∧ leaf.isLeaf ∧
      finish counted w.nodes anchor (tagString tag) leaf 0 = (value, height, w')) ∨
    (∃ anchor tag counted values h' walked, event = .sequenceStart anchor tag ∧
      enter w depth span = .ok counted ∧
      items parseFinite input fuel counted depth [] 0 = .ok (values, h', walked) ∧
      finish walked w.nodes anchor (tagString tag) (.array values) (h' + 1) = (value, height, w')) ∨
    (∃ anchor tag counted map h' walked, event = .mappingStart anchor tag ∧
      enter w depth span = .ok counted ∧
      entries parseFinite input fuel counted depth [] [] 0 = .ok (map, h', walked) ∧
      finish walked w.nodes anchor (tagString tag) (.object map) (h' + 1) =
        (value, height, w')) := by
  cases event with
  | aliasOf id =>
    rw [node] at h
    cases hanchor : w.anchors id with
    | none =>
      rw [hanchor] at h
      cases h
    | some anchored =>
      simp only [hanchor] at h
      split at h
      · cases h
      · rename_i hdepth
        obtain ⟨counted, hcount, h⟩ := bind_eq_ok.mp h
        cases h
        exact .inl ⟨id, anchored, rfl, hanchor, Nat.not_lt.mp hdepth, hcount, rfl, rfl⟩
  | scalar text style anchor tag =>
    rw [node] at h
    obtain ⟨counted, hcount, h⟩ := bind_eq_ok.mp h
    obtain ⟨leaf, hleaf, h⟩ := bind_eq_ok.mp h
    refine .inr (.inl ⟨text, style, anchor, tag, counted, _, rfl, hcount, ?_, Except.ok.inj h⟩)
    exact trimBlock_leaf (scalar_leaf (liftScalar_ok hleaf))
  | sequenceStart anchor tag =>
    rw [node] at h
    obtain ⟨counted, hcount, h⟩ := bind_eq_ok.mp h
    obtain ⟨⟨values, h', walked⟩, hitems, h⟩ := bind_eq_ok.mp h
    exact .inr (.inr (.inl ⟨anchor, tag, counted, values, h', walked, rfl, hcount, hitems,
      Except.ok.inj h⟩))
  | mappingStart anchor tag =>
    rw [node] at h
    obtain ⟨counted, hcount, h⟩ := bind_eq_ok.mp h
    obtain ⟨⟨map, h', walked⟩, hentries, h⟩ := bind_eq_ok.mp h
    exact .inr (.inr (.inr ⟨anchor, tag, counted, map, h', walked, rfl, hcount, hentries,
      Except.ok.inj h⟩))
  | _ => simp [node] at h

lemma items_inv {values out : List Value} (h : items parseFinite input (fuel + 1) w depth values
    height = .ok (out, height', w')) :
    ∃ event span events, next w.events = .ok ((event, span), events) ∧
      ((event = .sequenceEnd ∧ out = values ∧ height' = height ∧ w' = { w with events }) ∨
        ∃ value h walked, node parseFinite input fuel { w with events } event span (depth + 1) =
            .ok (value, h, walked) ∧
          items parseFinite input fuel walked depth (values ++ [value]) (max height h) =
            .ok (out, height', w')) := by
  rw [items] at h
  obtain ⟨⟨⟨event, span⟩, events⟩, hnext, h⟩ := bind_eq_ok.mp h
  refine ⟨event, span, events, hnext, ?_⟩
  by_cases hend : event = .sequenceEnd
  · simp only [hend, if_true] at h
    cases h
    exact .inl ⟨hend, rfl, rfl, rfl⟩
  · simp only [hend, if_false] at h
    obtain ⟨⟨value, h', walked⟩, hnode, h⟩ := bind_eq_ok.mp h
    exact .inr ⟨value, h', walked, hnode, h⟩

lemma entries_inv {seen : List Text} {map out : List (Text × Value)}
    (h : entries parseFinite input (fuel + 1) w depth seen map height = .ok (out, height', w')) :
    ∃ event span events, next w.events = .ok ((event, span), events) ∧
      ((event = .mappingEnd ∧ out = map ∧ height' = height ∧ w' = { w with events }) ∨
        ∃ key hk keyed name event' span' events' value h walked,
          node parseFinite input fuel { w with events } event span (depth + 1) =
            .ok (key, hk, keyed) ∧
          jsonKey key = .ok name ∧ next keyed.events = .ok ((event', span'), events') ∧
          node parseFinite input fuel { keyed with events := events' } event' span' (depth + 1) =
            .ok (value, h, walked) ∧
          entries parseFinite input fuel walked depth (key.text :: seen)
            (insertEntry name value map) (max height h) = .ok (out, height', w')) := by
  rw [entries] at h
  obtain ⟨⟨⟨event, span⟩, events⟩, hnext, h⟩ := bind_eq_ok.mp h
  refine ⟨event, span, events, hnext, ?_⟩
  by_cases hend : event = .mappingEnd
  · simp only [hend, if_true] at h
    cases h
    exact .inl ⟨hend, rfl, rfl, rfl⟩
  · simp only [hend, if_false] at h
    obtain ⟨⟨key, hk, keyed⟩, hkey, h⟩ := bind_eq_ok.mp h
    split at h
    · cases h
    obtain ⟨name, hname, h⟩ := bind_eq_ok.mp h
    obtain ⟨⟨⟨event', span'⟩, events'⟩, hnext', h⟩ := bind_eq_ok.mp h
    obtain ⟨⟨value, h', walked⟩, hnode, h⟩ := bind_eq_ok.mp h
    exact .inr ⟨key, hk, keyed, name, event', span', events', value, h', walked, hkey,
      liftScalar_ok hname, hnext', hnode, h⟩

/-! ### The end of the walk -/

theorem finish_walker {walked : Walker} {before anchor : ℕ} {tag : Option Text}
    {inner : Value} (h : finish walked before anchor tag inner height = (value, height', w')) :
    w'.events = walked.events ∧ w'.nodes = walked.nodes ∧ height' = height := by
  rw [finish, Prod.mk.injEq, Prod.mk.injEq] at h
  obtain ⟨_, rfl, rfl⟩ := h
  split
  · exact ⟨rfl, rfl, rfl⟩
  · exact ⟨rfl, rfl, rfl⟩

variable (parseFinite input) in
structure Shrinks (fuel : ℕ) : Prop where
  node : ∀ {w w' event span depth value height},
    node parseFinite input fuel w event span depth = .ok (value, height, w') →
      w'.events.length ≤ w.events.length
  items : ∀ {w w' depth values height out height'},
    items parseFinite input fuel w depth values height = .ok (out, height', w') →
      w'.events.length ≤ w.events.length
  entries : ∀ {w w' depth seen map height out height'},
    entries parseFinite input fuel w depth seen map height = .ok (out, height', w') →
      w'.events.length ≤ w.events.length

lemma shrinks (fuel : ℕ) : Shrinks parseFinite input fuel := by
  induction fuel with
  | zero =>
    constructor
    · intro w w' event span depth value height h
      simp [node] at h
    · intro w w' depth values height out height' h
      simp [items] at h
    · intro w w' depth seen map height out height' h
      simp [entries] at h
  | succ fuel ih =>
    constructor
    · intro w w' event span depth value height h
      rcases node_inv h with ⟨id, anchored, _, _, _, hcount, _⟩ |
        ⟨_, _, anchor, tag, counted, leaf, _, hcount, _, hfinish⟩ |
        ⟨anchor, tag, counted, values, h', walked, _, henter, hitems, hfinish⟩ |
        ⟨anchor, tag, counted, map, h', walked, _, henter, hentries, hfinish⟩
      · rw [(count_ok hcount).1]
      · rw [(finish_walker hfinish).1, (count_ok hcount).1]
      · have hwalk := ih.items hitems
        rw [(enter_ok henter).1] at hwalk
        rwa [(finish_walker hfinish).1]
      · have hwalk := ih.entries hentries
        rw [(enter_ok henter).1] at hwalk
        rwa [(finish_walker hfinish).1]
    · intro w w' depth values height out height' h
      obtain ⟨event, span, events, hnext, hstep⟩ := items_inv h
      have hlen := length_of_next hnext
      rcases hstep with ⟨_, _, _, rfl⟩ | ⟨value, h', walked, hnode, hrest⟩
      · exact Nat.le_of_lt hlen
      · have hfirst := ih.node hnode
        have hlast := ih.items hrest
        exact Nat.le_trans hlast (Nat.le_trans hfirst (Nat.le_of_lt hlen))
    · intro w w' depth seen map height out height' h
      obtain ⟨event, span, events, hnext, hstep⟩ := entries_inv h
      have hlen := length_of_next hnext
      rcases hstep with ⟨_, _, _, rfl⟩ |
        ⟨key, hk, keyed, name, event', span', events', value, h', walked, hkey, _, hnext', hnode,
          hrest⟩
      · exact Nat.le_of_lt hlen
      · have hfirst := ih.node hkey
        have hgap := length_of_next hnext'
        have hsecond := ih.node hnode
        have hlast := ih.entries hrest
        simp only at hfirst hsecond
        omega

lemma count_ne_outOfFuel (w : Walker) (n : ℕ) (span : Span) :
    count w n span ≠ .error .outOfFuel := by
  rw [count]
  split
  · intro h
    cases h
  · intro h
    cases h

lemma enter_ne_outOfFuel (w : Walker) (depth : ℕ) (span : Span) :
    enter w depth span ≠ .error .outOfFuel := by
  refine bind_ne_error (count_ne_outOfFuel w 1 span) fun counted _ => ?_
  split
  · intro h
    cases h
  · intro h
    cases h

lemma liftScalar_ne_outOfFuel {α : Type} (span : Span) (x : Except ScalarFault α) :
    liftScalar span x ≠ .error .outOfFuel := by
  cases x with
  | error fault | ok a =>
    intro h
    cases h

variable (parseFinite input) in
structure Ends (fuel : ℕ) : Prop where
  node : ∀ {w event span depth}, 2 * w.events.length + 2 ≤ fuel →
    node parseFinite input fuel w event span depth ≠ .error .outOfFuel
  items : ∀ {w depth values height}, 2 * w.events.length + 1 ≤ fuel →
    items parseFinite input fuel w depth values height ≠ .error .outOfFuel
  entries : ∀ {w depth seen map height}, 2 * w.events.length + 1 ≤ fuel →
    entries parseFinite input fuel w depth seen map height ≠ .error .outOfFuel

lemma ends (fuel : ℕ) : Ends parseFinite input fuel := by
  induction fuel with
  | zero => exact ⟨fun h => by omega, fun h => by omega, fun h => by omega⟩
  | succ fuel ih =>
    constructor
    · intro w event span depth hfuel
      have hcounted : ∀ {counted : Walker}, enter w depth span = .ok counted →
          2 * counted.events.length + 1 ≤ fuel := by
        intro counted henter
        rw [(enter_ok henter).1]
        exact Nat.le_of_succ_le_succ hfuel
      cases event with
      | aliasOf id =>
        rw [node]
        split
        · intro h
          cases h
        split
        · intro h
          cases h
        · refine bind_ne_error (count_ne_outOfFuel _ _ _) fun _ _ h => ?_
          cases h
      | scalar text style anchor tag =>
        rw [node]
        refine bind_ne_error (count_ne_outOfFuel _ _ _) fun _ _ => ?_
        refine bind_ne_error (liftScalar_ne_outOfFuel _ _) fun _ _ h => ?_
        cases h
      | sequenceStart anchor tag =>
        rw [node]
        refine bind_ne_error (enter_ne_outOfFuel _ _ _) fun counted henter => ?_
        refine bind_ne_error (ih.items (hcounted henter)) fun _ _ h => ?_
        cases h
      | mappingStart anchor tag =>
        rw [node]
        refine bind_ne_error (enter_ne_outOfFuel _ _ _) fun counted henter => ?_
        refine bind_ne_error (ih.entries (hcounted henter)) fun _ _ h => ?_
        cases h
      | _ => simp [node]
    · intro w depth values height hfuel
      rw [items]
      refine bind_ne_error (next_ne_outOfFuel _) fun first hnext => ?_
      obtain ⟨⟨event, span⟩, events⟩ := first
      have hlen := length_of_next hnext
      simp only
      split
      · intro h
        cases h
      · refine bind_ne_error (ih.node (by simp only; omega)) fun result hnode => ?_
        obtain ⟨value, h', walked⟩ := result
        have hwalk := (shrinks fuel).node hnode
        simp only at hwalk ⊢
        exact ih.items (by omega)
    · intro w depth seen map height hfuel
      rw [entries]
      refine bind_ne_error (next_ne_outOfFuel _) fun first hnext => ?_
      obtain ⟨⟨event, span⟩, events⟩ := first
      have hlen := length_of_next hnext
      simp only
      split
      · intro h
        cases h
      · refine bind_ne_error (ih.node (by simp only; omega)) fun result hnode => ?_
        obtain ⟨key, hk, keyed⟩ := result
        have hwalk := (shrinks fuel).node hnode
        simp only at hwalk ⊢
        split
        · intro h
          cases h
        refine bind_ne_error (liftScalar_ne_outOfFuel _ _) fun name _ => ?_
        refine bind_ne_error (next_ne_outOfFuel _) fun second hnext' => ?_
        obtain ⟨⟨event', span'⟩, events'⟩ := second
        have hlen' := length_of_next hnext'
        refine bind_ne_error (ih.node (by simp only; omega)) fun result hvalue => ?_
        obtain ⟨value, h', walked⟩ := result
        have hwalk' := (shrinks fuel).node hvalue
        simp only at hwalk' ⊢
        exact ih.entries (by omega)

lemma documentLoop_ends (documents : ℕ) (h : 2 * w.events.length + 2 ≤ fuel) :
    documentLoop parseFinite input fuel w value documents ≠ .error .outOfFuel := by
  induction fuel generalizing w value documents with
  | zero => omega
  | succ fuel ih =>
    rw [documentLoop]
    refine bind_ne_error (next_ne_outOfFuel _) fun first hnext => ?_
    obtain ⟨⟨event, span⟩, events⟩ := first
    have hlen := length_of_next hnext
    have hrest : ∀ value documents, documentLoop parseFinite input fuel { w with events } value
        documents ≠ .error .outOfFuel := fun value documents => ih documents (by simp only; omega)
    have hnode : node parseFinite input fuel { w with events } event span 0 >>= (fun result =>
        documentLoop parseFinite input fuel result.2.2 result.1 documents) ≠ .error .outOfFuel := by
      refine bind_ne_error ((ends fuel).node (by simp only; omega)) fun result hresult => ?_
      obtain ⟨value', h', walked⟩ := result
      have hwalk := (shrinks fuel).node hresult
      simp only at hwalk
      exact ih documents (by simp only; omega)
    cases event with
    | streamStart | documentEnd => exact hrest value documents
    | streamEnd =>
      intro h
      cases h
    | documentStart =>
      simp only
      split
      · intro h
        cases h
      · exact hrest value (documents + 1)
    | _ => exact hnode

/-- The walk ends, on any row of events. -/
theorem document_terminates (parseFinite : Text → Option Text) (input : Text)
    (events : List Item) : document parseFinite input events ≠ .error .outOfFuel :=
  documentLoop_ends 0 (Nat.le_refl _)

end Frontmatter
