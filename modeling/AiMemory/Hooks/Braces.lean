/-
Brace expansion, as the walk of a lookup location reads it (`ai-memory-hooks`,
`capture_policy.rs`).

A `{…}` with a comma of its own, or a sequence such as `{1..3}` or `{a..e}`, stands for one
word per alternative.  The first such brace is replaced by each of its pieces, and the words
so made are expanded in turn.
-/
import Mathlib
import AiMemory.Lib.Text

open List

namespace Capture

/-- The pieces of a brace body at its own commas, and the text behind its `}`; `depth` counts
the braces opened inside. -/
def splitBody : ℕ → Text → Option (List Text × Text)
  | _, [] => none
  | depth, c :: rest =>
    if c = '}' ∧ depth = 0 then some ([[]], rest)
    else if c = ',' ∧ depth = 0 then
      (splitBody 0 rest).map fun parts => ([] :: parts.1, parts.2)
    else
      let depth := if c = '{' then depth + 1 else if c = '}' then depth - 1 else depth
      (splitBody depth rest).map fun parts => (parts.1.modifyHead (c :: ·), parts.2)

/-! ### Sequences -/

/-- `str::split("..")`. -/
def splitDots : Text → List Text
  | [] => [[]]
  | '.' :: '.' :: rest => [] :: splitDots rest
  | c :: rest => (splitDots rest).modifyHead (c :: ·)

variable (text : Text)

/-- `str::parse::<i64>`. -/
def parseI64 : Option ℤ :=
  let negative : Bool := text.head? = some '-'
  let digits := if negative || text.head? = some '+' then text.drop 1 else text
  if digits = [] || digits.any (!·.isDigit) then none
  else
    let magnitude := digits.foldl (fun n c => 10 * n + (c.toNat - '0'.toNat)) 0
    let value : ℤ := if negative then -magnitude else magnitude
    if -(2 ^ 63) ≤ value ∧ value < 2 ^ 63 then some value else none

/-- The first and last value of a sequence, whether they are integers (else code points), and
the step. -/
structure SequenceBounds where
  first : ℤ
  last : ℤ
  numeric : Bool
  step : ℕ

def boundsBetween (first last : Text) (step : ℕ) : Option SequenceBounds :=
  match parseI64 first, parseI64 last with
  | some a, some b => some ⟨a, b, true, step⟩
  | _, _ =>
    match first, last with
    | [a], [b] => some ⟨a.toNat, b.toNat, false, step⟩
    | _, _ => none

def sequenceBounds (body : Text) : Option SequenceBounds :=
  match splitDots body with
  | [first, last] => boundsBetween first last 1
  | [first, last, step] =>
    (parseI64 step).bind fun step => boundsBetween first last (max step.natAbs 1)
  | _ => none

namespace SequenceBounds

variable (bounds : SequenceBounds)

def count : ℕ := (bounds.first - bounds.last).natAbs / bounds.step + 1

/-- The step as an `i64`. -/
def delta : ℤ := if bounds.step < 2 ^ 63 then bounds.step else 1

def value (index : ℕ) : ℤ :=
  if bounds.first ≤ bounds.last then bounds.first + bounds.delta * index
  else bounds.first - bounds.delta * index

/-- `char::from_u32`, and no character for a surrogate. -/
def charWord (value : ℤ) : Text :=
  if value < 0 then []
  else if value.toNat.isValidChar then [Char.ofNat value.toNat] else []

def decimal (value : ℤ) : Text :=
  if value < 0 then '-' :: Nat.toDigits 10 value.natAbs else Nat.toDigits 10 value.natAbs

def word (index : ℕ) : Text :=
  if bounds.numeric then decimal (bounds.value index) else charWord (bounds.value index)

def words (count : ℕ) : List Text :=
  (List.range count).map bounds.word

end SequenceBounds

def maxBraceAlternatives : ℕ := 64

/-- The words of a sequence body: `some none` when it is none, `none` past the limit.  The
count is a `u64` and wraps. -/
def braceSequence (body : Text) : Option (Option (List Text)) :=
  match sequenceBounds body with
  | none => some none
  | some bounds =>
    if maxBraceAlternatives < bounds.count % 2 ^ 64 then none
    else some (some (bounds.words (bounds.count % 2 ^ 64)))

structure BraceGroup where
  before : Text
  pieces : List Text
  after : Text

/-- The first brace that expands, by the reader of sequences; `none` when that one gives up. -/
def firstBrace (sequence : Text → Option (Option (List Text))) :
    Text → Option (Option BraceGroup)
  | [] => some none
  | c :: rest =>
    let later := (firstBrace sequence rest).map fun found =>
      found.map fun group => { group with before := c :: group.before }
    if c = '{' then
      match splitBody 0 rest with
      | none => later
      | some ([body], after) =>
        match sequence body with
        | none => none
        | some none => later
        | some (some pieces) => some (some ⟨[], pieces, after⟩)
      | some (pieces, after) => some (some ⟨[], pieces, after⟩)
    else later

def expandBracesFor : ℕ → Text → List Text → Option (List Text)
  | 0, _, _ => none
  | fuel + 1, text, words =>
    match firstBrace braceSequence text with
    | none => none
    | some none => if words.length = maxBraceAlternatives then none else some (words ++ [text])
    | some (some group) =>
      group.pieces.foldlM
        (fun words piece => expandBracesFor fuel (group.before ++ piece ++ group.after) words) words

def expandBraces (words : List Text) : Option (List Text) :=
  expandBracesFor (text.length + 1) text words

/-- Every word a shell's brace expansion makes of a text, `none` past the limit. -/
def braceAlternatives : Option (List Text) :=
  if maxBraceAlternatives < text.count '{' then none else expandBraces text []

lemma splitBody_spec {text after : Text} {pieces : List Text} {depth : ℕ}
    (h : splitBody depth text = some (pieces, after)) :
    pieces ≠ [] ∧ text = [','].intercalate pieces ++ '}' :: after := by
  induction text generalizing depth pieces with
  | nil => cases h
  | cons c rest ih =>
    unfold splitBody at h
    by_cases hclose : c = '}' ∧ depth = 0
    · rw [if_pos hclose] at h
      cases h
      exact ⟨cons_ne_nil _ _, by rw [hclose.1]; rfl⟩
    rw [if_neg hclose] at h
    by_cases hcomma : c = ',' ∧ depth = 0
    · rw [if_pos hcomma] at h
      obtain ⟨⟨found, after'⟩, hfound, hparts⟩ := Option.map_eq_some_iff.mp h
      cases hparts
      obtain ⟨hne, hrest⟩ := ih hfound
      refine ⟨cons_ne_nil _ _, ?_⟩
      rw [hcomma.1, hrest, intercalate_cons_of_ne_nil hne]
      rfl
    rw [if_neg hcomma] at h
    obtain ⟨⟨found, after'⟩, hfound, hparts⟩ := Option.map_eq_some_iff.mp h
    cases hparts
    obtain ⟨hne, hrest⟩ := ih hfound
    obtain ⟨first, others, rfl⟩ := exists_cons_of_ne_nil hne
    refine ⟨cons_ne_nil _ _, ?_⟩
    rw [hrest]
    cases others with
    | nil => rfl
    | cons second others =>
      rw [modifyHead_cons, intercalate_cons_cons, intercalate_cons_cons]
      rfl

lemma firstBrace_inv {sequence : Text → Option (Option (List Text))}
    {text : Text} {group : BraceGroup} (h : firstBrace sequence text = some (some group)) :
    ∃ body pieces, text = group.before ++ '{' :: body ∧
      splitBody 0 body = some (pieces, group.after) ∧
      ((group.pieces = pieces ∧ 2 ≤ pieces.length) ∨
        ∃ only, pieces = [only] ∧ sequence only = some (some group.pieces)) := by
  induction text generalizing group with
  | nil => cases h
  | cons c rest ih =>
    have hlater : ∀ {group}, (firstBrace sequence rest).map (fun found =>
        found.map fun group : BraceGroup => { group with before := c :: group.before }) =
          some (some group) → ∃ body pieces, c :: rest = group.before ++ '{' :: body ∧
      splitBody 0 body = some (pieces, group.after) ∧
      ((group.pieces = pieces ∧ 2 ≤ pieces.length) ∨
        ∃ only, pieces = [only] ∧ sequence only = some (some group.pieces)) := by
      intro group h
      obtain ⟨found, hfound, h⟩ := Option.map_eq_some_iff.mp h
      obtain ⟨inner, rfl, rfl⟩ := Option.map_eq_some_iff.mp h
      obtain ⟨body, pieces, hrest, hsplit, hpieces⟩ := ih hfound
      exact ⟨body, pieces, by rw [hrest]; rfl, hsplit, hpieces⟩
    unfold firstBrace at h
    by_cases hopen : c = '{'
    · rw [if_pos hopen] at h
      split at h
      · exact hlater h
      · rename_i only after hsplit
        split at h
        · cases h
        · exact hlater h
        · rename_i pieces hseq
          cases h
          exact ⟨rest, [only], by rw [hopen]; rfl, hsplit, .inr ⟨only, rfl, hseq⟩⟩
      · rename_i pieces after hmany hsplit
        cases h
        refine ⟨rest, pieces, by rw [hopen]; rfl, hsplit, .inl ⟨rfl, ?_⟩⟩
        obtain ⟨hne, -⟩ := splitBody_spec hsplit
        match pieces, hne with
        | [only], _ => exact (hmany only rfl).elim
        | _ :: _ :: _, _ => simp
    · rw [if_neg hopen] at h
      exact hlater h

/-! ### Enough fuel -/

def weight : ℕ := text.countP fun c => c = '{' || c = '}' || c = '.'

@[simp] lemma weight_append (a b : Text) : weight (a ++ b) = weight a + weight b :=
  countP_append ..

lemma weight_cons (c : Char) (text : Text) :
    weight (c :: text) = weight text + if c = '{' ∨ c = '}' ∨ c = '.' then 1 else 0 := by
  unfold weight
  rw [countP_cons]
  simp [or_assoc]

lemma weight_le_length : weight text ≤ text.length := countP_le_length ..

lemma weight_piece {piece : Text} {pieces : List Text} (h : piece ∈ pieces) :
    weight piece ≤ weight ([','].intercalate pieces) := by
  induction pieces with
  | nil => cases h
  | cons first rest ih =>
    cases rest with
    | nil =>
      simp only [mem_singleton.mp h, intercalate_singleton, Nat.le_refl]
    | cons second rest =>
      rw [intercalate_cons_cons, weight_append, weight_append]
      rcases mem_cons.mp h with rfl | h
      · omega
      · have := ih h
        omega

lemma two_le_weight_of_splitDots {body : Text} (h : 2 ≤ (splitDots body).length) :
    2 ≤ weight body := by
  induction body using splitDots.induct with
  | case1 =>
    rw [splitDots] at h
    simp at h
  | case2 rest _ =>
    rw [weight_cons, weight_cons]
    simp
  | case3 c rest hne ih =>
    rw [splitDots, length_modifyHead] at h
    · have := ih h
      rw [weight_cons]
      omega
    · exact hne

lemma two_le_weight_of_sequenceBounds {body : Text} {bounds : SequenceBounds}
    (h : sequenceBounds body = some bounds) : 2 ≤ weight body := by
  refine two_le_weight_of_splitDots ?_
  unfold sequenceBounds at h
  split at h
  · rename_i hsplit
    rw [hsplit]
    simp
  · rename_i hsplit
    rw [hsplit]
    simp
  · cases h

namespace SequenceBounds

lemma mem_decimal {value : ℤ} {c : Char} (h : c ∈ decimal value) : c = '-' ∨ c.isDigit := by
  unfold decimal at h
  split at h
  · rcases mem_cons.mp h with rfl | h
    · exact .inl rfl
    · exact .inr (Nat.isDigit_of_mem_toDigits (by omega) (by omega) h)
  · exact .inr (Nat.isDigit_of_mem_toDigits (by omega) (by omega) h)

lemma length_charWord_le (value : ℤ) : (charWord value).length ≤ 1 := by
  unfold charWord
  split
  · simp
  · split <;> simp

lemma weight_word (bounds : SequenceBounds) (index : ℕ) : weight (bounds.word index) ≤ 1 := by
  unfold word
  split
  · have hnone : weight (decimal (bounds.value index)) = 0 := by
      refine countP_eq_zero.mpr fun c hc => ?_
      rcases mem_decimal hc with rfl | hdigit
      · decide
      · intro hbrace
        simp only [Bool.or_eq_true, decide_eq_true_eq] at hbrace
        rcases hbrace with (rfl | rfl) | rfl <;> cases hdigit
    omega
  · have := weight_le_length (charWord (bounds.value index))
    have := length_charWord_le (bounds.value index)
    omega

end SequenceBounds

lemma weight_braceSequence {body piece : Text} {pieces : List Text}
    (h : braceSequence body = some (some pieces)) (hpiece : piece ∈ pieces) :
    weight piece ≤ weight body := by
  unfold braceSequence at h
  split at h
  · cases h
  · rename_i bounds hbounds
    split at h
    · cases h
    · cases h
      obtain ⟨index, -, rfl⟩ := mem_map.mp hpiece
      have := two_le_weight_of_sequenceBounds hbounds
      have := bounds.weight_word index
      omega

lemma weight_pick {text piece : Text} {group : BraceGroup}
    (h : firstBrace braceSequence text = some (some group)) (hpiece : piece ∈ group.pieces) :
    weight (group.before ++ piece ++ group.after) < weight text := by
  obtain ⟨body, pieces, rfl, hsplit, hpieces⟩ := firstBrace_inv h
  obtain ⟨-, rfl⟩ := splitBody_spec hsplit
  have hle : weight piece ≤ weight ([','].intercalate pieces) := by
    rcases hpieces with ⟨rfl, -⟩ | ⟨only, rfl, hseq⟩
    · exact weight_piece hpiece
    · rw [intercalate_singleton]
      exact weight_braceSequence hseq hpiece
  simp only [weight_append, weight_cons]
  simp only [true_or, or_true, if_true]
  omega

lemma foldlM_congr {α β : Type} {f g : β → α → Option β} {l : List α}
    (h : ∀ a ∈ l, ∀ b, f b a = g b a) (b : β) : l.foldlM f b = l.foldlM g b := by
  induction l generalizing b with
  | nil => rfl
  | cons a l ih =>
    rw [foldlM_cons, foldlM_cons, h a mem_cons_self]
    congr 1
    funext b
    exact ih (fun a ha => h a (mem_cons_of_mem _ ha)) b

lemma expandBracesFor_fuel {fuel fuel' : ℕ} {text : Text} (h : weight text < fuel)
    (h' : weight text < fuel') (words : List Text) :
    expandBracesFor fuel text words = expandBracesFor fuel' text words := by
  induction fuel generalizing fuel' text words with
  | zero => omega
  | succ fuel ih =>
    obtain ⟨fuel', rfl⟩ := Nat.exists_eq_add_of_lt (Nat.zero_lt_of_lt h')
    rw [Nat.zero_add] at h' ⊢
    unfold expandBracesFor
    split
    · rfl
    · rfl
    · rename_i group hgroup
      refine foldlM_congr (fun piece hpiece words => ?_) words
      have := weight_pick hgroup hpiece
      exact ih (by omega) (by omega) words

/-- The fuel of the expansion always suffices. -/
theorem expandBraces_eq (words : List Text) :
    expandBraces text words = match firstBrace braceSequence text with
      | none => none
      | some none => if words.length = maxBraceAlternatives then none else some (words ++ [text])
      | some (some group) =>
        group.pieces.foldlM
          (fun words piece => expandBraces (group.before ++ piece ++ group.after) words) words := by
  have hlen := weight_le_length text
  unfold expandBraces
  rw [expandBracesFor]
  split
  · rfl
  · rfl
  · rename_i group hgroup
    refine foldlM_congr (fun piece hpiece words => ?_) words
    have := weight_pick hgroup hpiece
    have := weight_le_length (group.before ++ piece ++ group.after)
    exact expandBracesFor_fuel (by omega) (by omega) words

end Capture
