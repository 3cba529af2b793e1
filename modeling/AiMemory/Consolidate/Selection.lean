/-
Which observations of a session go into a prompt (`ai-memory-consolidate`, `projection.rs`).

A long session is sampled: the first and the last observation, and the best of the rest by a
score, a bonus for an even spread, and position.

* `mem_selectObservationIndices`, `ranked_best` — the anchors, and the best of the rest.

Machine integers do not overflow here, save where the source saturates.
-/
import AiMemory.Consolidate.UserWritten
import AiMemory.Lib.BestOf
import Mathlib.Data.Finset.Sort
import Mathlib.Data.Prod.Lex
import Mathlib.Order.Interval.Finset.Nat

open BestOf List

namespace Consolidate

open Store (ObservationId ObservationKind)

structure Observation where
  id : ObservationId
  kind : ObservationKind
  «extension» : Option Text
  sourceEvent : Option Text
  title : Text
  body : Text
  importance : UInt8
  createdAt : ℤ

structure ObservationProjectionConfig where
  maxTotalChars : ℕ
  maxSelectedObservations : ℕ
  perBodyExcerptChars : ℕ
  contextLabel : Option Text
  verbatimResidue : Bool

def usizeMax : ℕ := 2 ^ 64 - 1

def saturatingMul (a b : ℕ) : ℕ := min (a * b) usizeMax

/-- `slice::sort_by`, a stable sort. -/
def sortBy {α : Type*} (cmp : α → α → Ordering) (l : List α) : List α :=
  l.insertionSort fun a b => (cmp a b).isLE

/-- `Iterator::min_by`: the first of the least. -/
def minBy {α : Type*} (cmp : α → α → Ordering) : List α → Option α
  | [] => none
  | a :: l => some (l.foldl (fun best x => if cmp x best = .lt then x else best) a)

def contains (text : Text) (needle : String) : Bool := needle.toList <:+: text

def isHardAnchor (total idx : ℕ) : Bool := idx = 0 || idx + 1 = total

def recencyScore (idx total : ℕ) : ℤ :=
  if total ≤ 1 then 0 else (saturatingMul idx 80 / (total - 1) : ℕ)

variable (obs : Observation)

def leadingText : Text :=
  (obs.title ++ ['\n'] ++ obs.body.take 4000).map Char.toLower

def carriesRoutingText : Bool :=
  let text := leadingText obs
  contains text "long-term memory (ai-memory)" || contains text "install ai-memory routing"
    || contains text "memory_query searches only one project"

def highSignalTerms : List String :=
  ["root cause", "fix", "fixed", "failed", "failure", "error", "bug", "regression", "decision",
    "decided", "gotcha", "rule", "always", "never", "migration", "scope", "workspace", "project",
    "auth", "test", "clippy", "release"]

def hasHighSignalTerms : Bool :=
  highSignalTerms.any (contains (leadingText obs))

def kindScore : ℤ :=
  match obs.kind with
  | .userPrompt => 100
  | .sessionEnd => 95
  | .preCompact => 90
  | .postCompaction => 85
  | .stop => if !blank obs.body then 88 else 55
  | .postToolUse => 30
  | .notification => 25
  | .sessionStart => 20
  | .other => 15
  | .preToolUse => 5

def observationScore (idx total : ℕ) : ℤ :=
  obs.importance.toNat + recencyScore idx total + kindScore obs
    + (if isHardAnchor total idx then 100 else 0)
    + (if hasHighSignalTerms obs then 45 else 0)
    + (if 9 ≤ obs.importance then 45 else 0)
    + (if contains obs.body "```" then 8 else 0)
    - (if carriesRoutingText obs then 80 else 0)

/-! ### Selection -/

def evenSampleIndices (total : ℕ) : Finset ℕ :=
  if total = 0 then ∅
  else if total = 1 then {0}
  else
    let buckets := min 16 total
    (Finset.range buckets).image fun bucket =>
      saturatingMul bucket (total - 1) / max (buckets - 1) 1

def selectionKey (score : ℤ) (idx : ℕ) (even : Finset ℕ) : ℤ :=
  score + if idx ∈ even then 20 else 0

def rankSelection (a b : ℤ × ℕ) : Ordering := (compare b.1 a.1).then (compare b.2 a.2)

def fillSelection (limit : ℕ) : List ℕ → Finset ℕ → Finset ℕ
  | [], selected => selected
  | idx :: rest, selected =>
    if limit ≤ selected.card then selected else fillSelection limit rest (insert idx selected)

/-- The positions selected, in order; `scores` has one score for each of `total` rows. -/
def selectObservationIndices (total limit : ℕ) (scores : List ℤ) : List ℕ :=
  if total ≤ limit then List.range total
  else if limit = 1 then [total - 1]
  else
    let anchors : Finset ℕ := {0, total - 1}
    let even := evenSampleIndices total
    let scored := sortBy rankSelection (((List.range total).filter (· ∉ anchors)).map fun idx =>
      (selectionKey (scores.getD idx 0) idx even, idx))
    (fillSelection limit (scored.map Prod.snd) anchors).sort

lemma nodup_selectObservationIndices (total limit : ℕ) (scores : List ℤ) :
    (selectObservationIndices total limit scores).Nodup := by
  unfold selectObservationIndices
  split
  · exact nodup_range
  split
  · exact nodup_singleton _
  · exact Finset.sort_nodup _ _

def rankPrunable (a b : ℕ × ℤ) : Ordering := (compare a.2 b.2).then (compare a.1 b.1)

def lowestPrunablePair (total : ℕ) (selected : List (ℕ × ℤ)) : Option ℕ :=
  (minBy rankPrunable (selected.filter fun pair => !isHardAnchor total pair.1)).map Prod.fst

lemma minBy_mem {α : Type*} {cmp : α → α → Ordering} {l : List α} {a : α}
    (h : minBy cmp l = some a) : a ∈ l := by
  cases l with
  | nil => exact absurd h (by simp [minBy])
  | cons b l =>
    cases h
    have hfold : ∀ (l : List α) (best : α),
        l.foldl (fun best x => if cmp x best = .lt then x else best) best ∈ best :: l := by
      intro l
      induction l with
      | nil => exact fun best => mem_cons_self
      | cons x l ih =>
        intro best
        rw [foldl_cons]
        rcases mem_cons.mp (ih (if cmp x best = .lt then x else best)) with h | h
        · rw [h]
          split <;> simp
        · exact mem_cons_of_mem _ (mem_cons_of_mem _ h)
    exact hfold l b

lemma lowestPrunablePair_mem {total idx : ℕ} {selected : List (ℕ × ℤ)}
    (h : lowestPrunablePair total selected = some idx) :
    ∃ pair ∈ selected, pair.1 = idx ∧ isHardAnchor total idx = false := by
  obtain ⟨pair, hpair, rfl⟩ := Option.map_eq_some_iff.mp h
  obtain ⟨hmem, hanchor⟩ := mem_filter.mp (minBy_mem hpair)
  exact ⟨pair, hmem, rfl, by simpa using hanchor⟩

def rankedKey (total : ℕ) (score : ℕ → ℤ) (idx : ℕ) : ℤ ×ₗ ℕ :=
  toLex (selectionKey (score idx) idx (evenSampleIndices total), idx)

/-- The first `n` rows of a session save its anchors, each with its selection key. -/
def middleKeys (total : ℕ) (score : ℕ → ℤ) (n : ℕ) : Finset (ℤ ×ₗ ℕ) :=
  ((Finset.range n).filter fun idx => !isHardAnchor total idx).image (rankedKey total score)

section MiddleKeys

variable {total n : ℕ} {score : ℕ → ℤ}

lemma middleKeys_succ : middleKeys total score (n + 1) =
    if isHardAnchor total n then middleKeys total score n
    else insert (rankedKey total score n) (middleKeys total score n) := by
  rw [middleKeys, Finset.range_add_one, Finset.filter_insert]
  by_cases hanchor : isHardAnchor total n
  · simp [hanchor, middleKeys]
  · simp [hanchor, middleKeys, Finset.image_insert]

lemma rankedKey_notMem : rankedKey total score n ∉ middleKeys total score n := by
  intro hmem
  obtain ⟨idx, hidx, hkey⟩ := Finset.mem_image.mp hmem
  have heq : idx = n := (Prod.mk.inj (toLex.injective hkey)).2
  have hlt : idx < n := Finset.mem_range.mp (Finset.mem_filter.mp hidx).1
  omega

end MiddleKeys

lemma rankSelection_isLE {a b : ℤ × ℕ} : (rankSelection a b).isLE ↔ toLex b ≤ toLex a := by
  rw [rankSelection, Ordering.isLE_then_iff_or, Prod.Lex.le_iff, compare_lt_iff_lt,
    compare_eq_iff_eq]
  show b.1 < a.1 ∨ b.1 = a.1 ∧ (compare b.2 a.2).isLE ↔ b.1 < a.1 ∨ b.1 = a.1 ∧ b.2 ≤ a.2
  rw [← Ordering.ne_gt_iff_isLE, compare_gt_iff_gt, not_lt]

lemma pairwise_sortBy_rankSelection {l : List (ℤ × ℕ)} (hl : l.Nodup) :
    ((sortBy rankSelection l).map toLex).Pairwise fun a b => b < a := by
  have htotal : Std.Total fun a b : ℤ × ℕ => (rankSelection a b).isLE = true :=
    ⟨fun a b => by rw [rankSelection_isLE, rankSelection_isLE]; exact le_total _ _⟩
  have htrans : IsTrans (ℤ × ℕ) fun a b => (rankSelection a b).isLE = true := ⟨fun a b c hab hbc => by
    rw [rankSelection_isLE] at hab hbc ⊢
    exact hbc.trans hab⟩
  have hsorted : (sortBy rankSelection l).Pairwise fun a b => (rankSelection a b).isLE = true :=
    pairwise_insertionSort _ l
  have hnodup : (sortBy rankSelection l).Nodup := (perm_insertionSort _ l).nodup_iff.mpr hl
  refine pairwise_map.mpr ((hsorted.and hnodup).imp fun {a b} h => ?_)
  exact lt_of_le_of_ne (rankSelection_isLE.mp h.1) fun heq => h.2 (toLex.injective heq).symm

lemma fillSelection_eq (limit : ℕ) {l : List ℕ} {selected : Finset ℕ} (hl : l.Nodup)
    (hnew : ∀ idx ∈ l, idx ∉ selected) :
    fillSelection limit l selected = selected ∪ (l.take (limit - selected.card)).toFinset := by
  induction l generalizing selected with
  | nil => simp [fillSelection]
  | cons idx l ih =>
    obtain ⟨hidx, hl⟩ := nodup_cons.mp hl
    rw [fillSelection]
    split
    · rename_i hfull
      rw [Nat.sub_eq_zero_of_le hfull]
      simp
    · rename_i hroom
      have hnotin : idx ∉ selected := hnew idx mem_cons_self
      have hrest : ∀ i ∈ l, i ∉ insert idx selected := fun i hi hmem => by
        rcases Finset.mem_insert.mp hmem with rfl | hmem
        · exact hidx hi
        · exact hnew i (mem_cons_of_mem _ hi) hmem
      rw [ih hl hrest, Finset.card_insert_of_notMem hnotin]
      obtain ⟨n, hn⟩ : ∃ n, limit - selected.card = n + 1 := ⟨limit - selected.card - 1, by omega⟩
      have hn' : limit - (selected.card + 1) = n := by omega
      rw [hn, hn', take_succ_cons, toFinset_cons, Finset.insert_union, Finset.union_insert]

lemma selectObservationIndices_eq {total limit : ℕ} {scores : List ℤ} {A : Finset (ℤ ×ₗ ℕ)}
    (hlimit : 2 ≤ limit) (htotal : limit < total)
    (hA : Best (limit - 2) (middleKeys total (fun idx => scores.getD idx 0) total) A) :
    selectObservationIndices total limit scores
      = (({0, total - 1} : Finset ℕ) ∪ A.image fun key => (ofLex key).2).sort := by
  set anchors : Finset ℕ := {0, total - 1} with hanchors
  set middle := (List.range total).filter (· ∉ anchors) with hmiddle
  set pair : ℕ → ℤ × ℕ := fun idx =>
    (selectionKey (scores.getD idx 0) idx (evenSampleIndices total), idx) with hpair
  set scored := sortBy rankSelection (middle.map pair) with hscored
  have hcard : anchors.card = 2 := Finset.card_pair (by omega)
  have hinj : Function.Injective pair := fun i j h => (Prod.mk.inj h).2
  have hnodup : middle.Nodup := nodup_range.filter _
  have hperm : scored.Perm (middle.map pair) := perm_insertionSort _ _
  have hsnd : (scored.map Prod.snd).Perm middle := by
    refine (hperm.map _).trans (List.Perm.of_eq ?_)
    rw [map_map]
    exact map_id _
  -- The middle rows, as the list that is sorted and as the set that the best are of.
  have hkeys : middleKeys total (fun idx => scores.getD idx 0) total
      = (scored.map toLex).toFinset := by
    ext key
    simp only [middleKeys, Finset.mem_image, Finset.mem_filter, Finset.mem_range, mem_toFinset,
      mem_map, hperm.mem_iff, hmiddle, mem_filter, mem_range, decide_eq_true_eq,
      hanchors, Finset.mem_insert, Finset.mem_singleton, isHardAnchor, Bool.not_eq_true',
      Bool.or_eq_false_iff, decide_eq_false_iff_not, not_or]
    constructor
    · rintro ⟨idx, ⟨hlt, h0, hlast⟩, rfl⟩
      exact ⟨pair idx, ⟨idx, ⟨hlt, h0, by omega⟩, rfl⟩, rfl⟩
    · rintro ⟨-, ⟨idx, ⟨hlt, h0, hlast⟩, rfl⟩, rfl⟩
      exact ⟨idx, ⟨hlt, h0, by omega⟩, rfl⟩
  have hbest : A = ((scored.map toLex).take (limit - 2)).toFinset := by
    rw [hkeys] at hA
    exact hA.unique (best_take (pairwise_sortBy_rankSelection (hnodup.map hinj)))
  have himage : (A.image fun key => (ofLex key).2)
      = ((scored.map Prod.snd).take (limit - 2)).toFinset := by
    rw [hbest, ← map_take, ← map_take]
    ext idx
    rw [Finset.mem_image, mem_toFinset, mem_map]
    constructor
    · rintro ⟨key, hkey, rfl⟩
      obtain ⟨p, hp, rfl⟩ := mem_map.mp (mem_toFinset.mp hkey)
      exact ⟨p, hp, rfl⟩
    · rintro ⟨p, hp, rfl⟩
      exact ⟨toLex p, mem_toFinset.mpr (mem_map.mpr ⟨p, hp, rfl⟩), rfl⟩
  have hfill := fillSelection_eq limit (hsnd.nodup_iff.mpr hnodup) fun idx hidx =>
    of_decide_eq_true (mem_filter.mp (hsnd.mem_iff.mp hidx)).2
  rw [selectObservationIndices, if_neg (by omega), if_neg (by omega), himage, ← hcard]
  exact congrArg (fun selected : Finset ℕ => selected.sort) hfill

end Consolidate
