/-
Sequences of a brace expansion at the edge of 64-bit integers (`ai-memory-hooks`,
`capture_policy.rs`).

The bounds of a sequence are any `i64`, its step any positive `i64` or `2^63`.  The number of its
words is computed as a `u64`, and the loop computes one value more than it lists.  Both overflow
at the edge of their type, and a step of `2^63` is no `i64` and counts as one.
-/
import AiMemory.Hooks.Braces

open List

namespace Capture

def checkedU64 (value : ℕ) : Option ℕ := if value < 2 ^ 64 then some value else none

def checkedI64 (value : ℤ) : Option ℤ :=
  if -(2 ^ 63) ≤ value ∧ value < 2 ^ 63 then some value else none

lemma checkedI64_isSome {value : ℤ} :
    (checkedI64 value).isSome ↔ -(2 ^ 63) ≤ value ∧ value < 2 ^ 63 := by
  rw [checkedI64]
  split
  · exact iff_of_true rfl ‹_›
  · exact iff_of_false Bool.false_ne_true ‹_›

namespace SequenceBounds

def render (bounds : SequenceBounds) (value : ℤ) : Text :=
  if bounds.numeric then decimal value else charWord value

/-- The loop over the values; `none` when one of them overflows. -/
def collect (bounds : SequenceBounds) : ℕ → ℤ → List Text → Option (List Text)
  | 0, _, words => some words
  | left + 1, value, words =>
    let next := if bounds.first ≤ bounds.last then value + bounds.delta else value - bounds.delta
    (checkedI64 next).bind fun next => bounds.collect left next (words ++ [bounds.render value])

end SequenceBounds

/-- The words of a sequence body, with every sum checked; `none` when one overflows. -/
def checkedSequence (body : Text) : Option (Option (Option (List Text))) :=
  match sequenceBounds body with
  | none => some (some none)
  | some bounds =>
    (checkedU64 ((bounds.first - bounds.last).natAbs / bounds.step + 1)).bind fun count =>
      if maxBraceAlternatives < count then some none
      else (bounds.collect count bounds.first []).map fun words => some (some words)

/-! ### Values -/

/-- What `str::parse` makes of a text, and a step of it. -/
structure SequenceBounds.Valid (bounds : SequenceBounds) : Prop where
  first : -(2 ^ 63) ≤ bounds.first ∧ bounds.first < 2 ^ 63
  last : -(2 ^ 63) ≤ bounds.last ∧ bounds.last < 2 ^ 63
  step : 0 < bounds.step ∧ bounds.step ≤ 2 ^ 63
  character : bounds.numeric = false → 0 ≤ bounds.first ∧ bounds.first < 2 ^ 32 ∧
    0 ≤ bounds.last ∧ bounds.last < 2 ^ 32

variable {text body : Text}

lemma parseI64_range {value : ℤ} (h : parseI64 text = some value) :
    -(2 ^ 63) ≤ value ∧ value < 2 ^ 63 := by
  simp only [parseI64, Option.ite_none_left_eq_some, Option.ite_none_right_eq_some] at h
  obtain ⟨-, hrange, heq⟩ := h
  exact Option.some.inj heq ▸ hrange

lemma boundsBetween_valid {first last : Text} {step : ℕ} {bounds : SequenceBounds}
    (hstep : 0 < step ∧ step ≤ 2 ^ 63) (h : boundsBetween first last step = some bounds) :
    bounds.Valid := by
  have hchar : ∀ c : Char, c.toNat < 2 ^ 32 := fun c => c.val.toNat_lt
  rw [boundsBetween.eq_def] at h
  split at h
  · rename_i a b ha hb
    cases h
    exact ⟨parseI64_range ha, parseI64_range hb, hstep, fun hnumeric => nomatch hnumeric⟩
  · split at h
    · rename_i a b _
      cases h
      have ha := hchar a
      have hb := hchar b
      refine ⟨?_, ?_, hstep, fun _ => ?_⟩
      · show -(2 ^ 63) ≤ (a.toNat : ℤ) ∧ (a.toNat : ℤ) < 2 ^ 63
        omega
      · show -(2 ^ 63) ≤ (b.toNat : ℤ) ∧ (b.toNat : ℤ) < 2 ^ 63
        omega
      · show 0 ≤ (a.toNat : ℤ) ∧ (a.toNat : ℤ) < 2 ^ 32 ∧ 0 ≤ (b.toNat : ℤ) ∧ (b.toNat : ℤ) < 2 ^ 32
        omega
    · cases h

lemma sequenceBounds_valid {bounds : SequenceBounds}
    (h : sequenceBounds body = some bounds) : bounds.Valid := by
  rw [sequenceBounds.eq_def] at h
  split at h
  · exact boundsBetween_valid (by norm_num) h
  · obtain ⟨step, hstep, h⟩ := Option.bind_eq_some_iff.mp h
    have hrange := parseI64_range hstep
    refine boundsBetween_valid ⟨?_, ?_⟩ h
    · omega
    · omega
  · cases h

namespace SequenceBounds

variable {bounds : SequenceBounds}

def stepped (bounds : SequenceBounds) (index : ℕ) : ℤ :=
  if bounds.first ≤ bounds.last then bounds.first + bounds.step * index
  else bounds.first - bounds.step * index

def Within (bounds : SequenceBounds) (value : ℤ) : Prop :=
  if bounds.first ≤ bounds.last then value ≤ bounds.last else bounds.last ≤ value

lemma within_stepped (hstep : 0 < bounds.step) (index : ℕ) :
    bounds.Within (bounds.stepped index) ↔ index < bounds.count := by
  have hmul : bounds.step * index ≤ (bounds.first - bounds.last).natAbs ↔ index < bounds.count := by
    rw [count, Nat.lt_add_one_iff, Nat.le_div_iff_mul_le hstep, Nat.mul_comm]
  rw [← hmul, Within, stepped]
  have hcast : ((bounds.step * index : ℕ) : ℤ) = bounds.step * index := by push_cast; ring
  split
  · omega
  · omega

def listed (bounds : SequenceBounds) : List Text :=
  (List.range bounds.count).map fun index => bounds.render (bounds.stepped index)

/-- The number of values is a `u64`.  Where they are listed, the value behind the last of them is
an `i64`, and so is the step unless it is not used. -/
def InRange (bounds : SequenceBounds) : Prop :=
  bounds.count < 2 ^ 64 ∧ (bounds.count ≤ maxBraceAlternatives →
    (bounds.step < 2 ^ 63 ∨ bounds.count = 1) ∧
      -(2 ^ 63) ≤ bounds.value bounds.count ∧ bounds.value bounds.count < 2 ^ 63)

lemma count_pos (bounds : SequenceBounds) : 0 < bounds.count := Nat.succ_pos _

lemma value_zero (bounds : SequenceBounds) : bounds.value 0 = bounds.first := by
  rw [value]
  split
  · simp
  · simp

lemma value_succ (bounds : SequenceBounds) (index : ℕ) :
    bounds.value (index + 1) = if bounds.first ≤ bounds.last then bounds.value index + bounds.delta
      else bounds.value index - bounds.delta := by
  rw [value, value]
  push_cast
  split
  · ring
  · ring

lemma stepped_eq_value (hstep : bounds.step < 2 ^ 63) (index : ℕ) :
    bounds.stepped index = bounds.value index := by
  have hdelta : bounds.delta = bounds.step := if_pos hstep
  rw [stepped, value, hdelta]

lemma stepped_zero (bounds : SequenceBounds) : bounds.stepped 0 = bounds.first := by
  rw [stepped]
  split
  · simp
  · simp

lemma listed_eq_words (h : bounds.step < 2 ^ 63 ∨ bounds.count = 1) :
    bounds.listed = bounds.words bounds.count := by
  rw [listed, words]
  refine map_congr_left fun index hindex => ?_
  have hvalue : bounds.stepped index = bounds.value index := by
    rcases h with hstep | hone
    · exact stepped_eq_value hstep index
    · rw [hone, mem_range, Nat.lt_one_iff] at hindex
      rw [hindex, stepped_zero, value_zero]
  rw [hvalue]
  rfl

lemma collect_eq_some {left start : ℕ} {words out : List Text} :
    bounds.collect left (bounds.value start) words = some out ↔
      (∀ index < left, (checkedI64 (bounds.value (start + index + 1))).isSome = true) ∧
        out = words ++ (List.range left).map fun index => bounds.word (start + index) := by
  induction left generalizing start words with
  | zero =>
    constructor
    · intro h
      exact ⟨fun _ hindex => absurd hindex (Nat.not_lt_zero _), by simpa using (Option.some.inj h).symm⟩
    · rintro ⟨-, rfl⟩
      simp [collect]
  | succ left ih =>
    rw [collect, ← value_succ, Option.bind_eq_some_iff]
    have hword : bounds.render (bounds.value start) = bounds.word start := rfl
    have hshift : ∀ index, start + 1 + index = start + (index + 1) := fun index => by omega
    have hrange : (List.range (left + 1)).map (fun index => bounds.word (start + index)) =
        bounds.word start :: (List.range left).map fun index => bounds.word (start + 1 + index) := by
      rw [range_succ_eq_map, map_cons, map_map]
      simp only [Nat.add_zero, hshift]
      rfl
    constructor
    · rintro ⟨next, hnext, h⟩
      have hchecked : checkedI64 (bounds.value (start + 1)) = some next := hnext
      obtain rfl : bounds.value (start + 1) = next := by
        rw [checkedI64] at hnext
        split at hnext
        · exact Option.some.inj hnext
        · cases hnext
      obtain ⟨hall, rfl⟩ := ih.mp h
      refine ⟨fun index hindex => ?_, ?_⟩
      · cases index with
        | zero => exact Option.isSome_iff_exists.mpr ⟨_, hchecked⟩
        | succ index =>
          have := hall index (Nat.lt_of_succ_lt_succ hindex)
          rwa [hshift] at this
      · rw [hword, hrange, append_assoc]
        rfl
    · rintro ⟨hall, rfl⟩
      have hfirst := hall 0 (Nat.succ_pos _)
      refine ⟨bounds.value (start + 1), ?_, ih.mpr ⟨fun index hindex => ?_, ?_⟩⟩
      · exact if_pos (checkedI64_isSome.mp hfirst)
      · have := hall (index + 1) (Nat.succ_lt_succ hindex)
        rwa [← hshift] at this
      · rw [hword, hrange, append_assoc]
        rfl

lemma checked_values (hvalid : bounds.Valid) :
    (∀ index < bounds.count, (checkedI64 (bounds.value (0 + index + 1))).isSome = true) ↔
      -(2 ^ 63) ≤ bounds.value bounds.count ∧ bounds.value bounds.count < 2 ^ 63 := by
  have hpos := bounds.count_pos
  constructor
  · intro h
    have hlast := checkedI64_isSome.mp (h (bounds.count - 1) (by omega))
    have hindex : 0 + (bounds.count - 1) + 1 = bounds.count := by omega
    rwa [hindex] at hlast
  · intro hlast index hindex
    rw [checkedI64_isSome]
    have hfirst := hvalid.first
    have hdelta : 0 ≤ bounds.delta := by
      rw [delta]
      split
      · omega
      · omega
    have hle : ((0 + index + 1 : ℕ) : ℤ) ≤ bounds.count := by omega
    have hmul : bounds.delta * ((0 + index + 1 : ℕ) : ℤ) ≤ bounds.delta * bounds.count :=
      mul_le_mul_of_nonneg_left hle hdelta
    have hnonneg : 0 ≤ bounds.delta * ((0 + index + 1 : ℕ) : ℤ) :=
      mul_nonneg hdelta (Int.natCast_nonneg _)
    rw [value] at hlast ⊢
    split at hlast
    · rename_i hup
      rw [if_pos hup]
      omega
    · rename_i hdown
      rw [if_neg hdown]
      omega

lemma decimal_injective {a b : ℤ} (h : decimal a = decimal b) : a = b := by
  have hdigits : ∀ m n : ℕ, Nat.toDigits 10 m = Nat.toDigits 10 n → m = n := by
    intro m n heq
    rw [← Nat.ofDigitChars_toDigits (n := m) (b := 10) (by decide) (by decide), heq,
      Nat.ofDigitChars_toDigits (by decide) (by decide)]
  have hsign : ∀ (rest : Text) (n : ℕ), '-' :: rest ≠ Nat.toDigits 10 n := by
    intro rest n heq
    have hdigit := Nat.isDigit_of_mem_toDigits (by decide) (by decide)
      (heq ▸ mem_cons_self : '-' ∈ Nat.toDigits 10 n)
    cases hdigit
  rw [decimal, decimal] at h
  split at h
  · split at h
    · have := hdigits _ _ (List.cons.inj h).2
      omega
    · exact absurd h (hsign _ _)
  · split at h
    · exact absurd h.symm (hsign _ _)
    · have := hdigits _ _ h
      omega

lemma numeric_of_far (hvalid : bounds.Valid) (hstep : ¬bounds.step < 2 ^ 63)
    (hcount : bounds.count ≠ 1) : bounds.numeric := by
  by_contra hnumeric
  have hchar := hvalid.character ((Bool.not_eq_true _).mp hnumeric)
  refine hcount ?_
  rw [count, Nat.div_eq_of_lt]
  omega

end SequenceBounds

/-- Whether a body is read without an overflow, gives no list exactly when its sequence has too
many values, and otherwise lists each of them. -/
structure SequenceExact (body : Text) : Prop where
  noOverflow : (checkedSequence body).isSome = true
  none_iff : braceSequence body = none ↔ ∃ bounds, sequenceBounds body = some bounds ∧
    bounds.Within (bounds.stepped maxBraceAlternatives)
  lists : ∀ bounds, sequenceBounds body = some bounds →
    ¬bounds.Within (bounds.stepped maxBraceAlternatives) →
      ∃ n, 0 < n ∧ (∀ index, index < n ↔ bounds.Within (bounds.stepped index)) ∧
        braceSequence body =
          some (some ((List.range n).map fun index => bounds.render (bounds.stepped index)))

lemma braceSequence_eq {bounds : SequenceBounds}
    (h : sequenceBounds body = some bounds) (hcount : bounds.count < 2 ^ 64) :
    braceSequence body =
      if maxBraceAlternatives < bounds.count then none else some (some (bounds.words bounds.count)) := by
  rw [braceSequence, h]
  simp only [Nat.mod_eq_of_lt hcount]

lemma checkedSequence_eq {bounds : SequenceBounds}
    (h : sequenceBounds body = some bounds) : checkedSequence body =
      (checkedU64 bounds.count).bind fun count =>
        if maxBraceAlternatives < count then some none
        else (bounds.collect count (bounds.value 0) []).map fun words => some (some words) := by
  rw [checkedSequence, h, SequenceBounds.value_zero]
  rfl

lemma sequenceExact_of_inRange {bounds : SequenceBounds}
    (hbounds : sequenceBounds body = some bounds) (h : bounds.InRange) : SequenceExact body := by
  have hvalid := sequenceBounds_valid hbounds
  have hwithin := SequenceBounds.within_stepped hvalid.step.1
  have hmany : braceSequence body = none ↔ maxBraceAlternatives < bounds.count := by
    rw [braceSequence_eq hbounds h.1]
    split
    · exact iff_of_true rfl ‹_›
    · exact iff_of_false (fun heq => nomatch heq) ‹_›
  refine ⟨?_, ?_, ?_⟩
  · rw [checkedSequence_eq hbounds, checkedU64, if_pos h.1, Option.bind_some]
    split
    · rfl
    · rename_i hfew
      have hlast := (h.2 (Nat.le_of_not_lt hfew)).2
      have hcollect : bounds.collect bounds.count (bounds.value 0) [] = some _ :=
        SequenceBounds.collect_eq_some.mpr ⟨(SequenceBounds.checked_values hvalid).mpr hlast, rfl⟩
      rw [hcollect]
      rfl
  · rw [hmany]
    constructor
    · exact fun hless => ⟨bounds, hbounds, (hwithin _).mpr hless⟩
    · rintro ⟨found, hfound, hless⟩
      obtain rfl := Option.some.inj (hbounds.symm.trans hfound)
      exact (hwithin _).mp hless
  · intro found hfound hfew
    obtain rfl := Option.some.inj (hbounds.symm.trans hfound)
    rw [hwithin] at hfew
    refine ⟨bounds.count, bounds.count_pos, fun index => (hwithin index).symm, ?_⟩
    rw [braceSequence_eq hbounds h.1, if_neg hfew,
      ← SequenceBounds.listed_eq_words (h.2 (Nat.le_of_not_lt hfew)).1]
    rfl

lemma inRange_of_sequenceExact {bounds : SequenceBounds}
    (hbounds : sequenceBounds body = some bounds) (h : SequenceExact body) : bounds.InRange := by
  have hvalid := sequenceBounds_valid hbounds
  have hwithin := SequenceBounds.within_stepped hvalid.step.1
  have hchecked := h.noOverflow
  rw [checkedSequence_eq hbounds] at hchecked
  have hcount : bounds.count < 2 ^ 64 := by
    by_contra hbig
    rw [checkedU64, if_neg hbig] at hchecked
    cases hchecked
  rw [checkedU64, if_pos hcount, Option.bind_some] at hchecked
  refine ⟨hcount, fun hfew => ⟨?_, ?_⟩⟩
  · by_contra hstep
    rw [not_or] at hstep
    -- the second word is one step too near
    obtain ⟨n, -, hn, hlist⟩ := h.lists bounds hbounds (by rw [hwithin]; exact Nat.not_lt.mpr hfew)
    have htwo : 1 < bounds.count := by
      have := bounds.count_pos
      omega
    have hsecond : 1 < n := (hn 1).mpr ((hwithin 1).mpr htwo)
    rw [braceSequence_eq hbounds hcount, if_neg (Nat.not_lt.mpr hfew)] at hlist
    have hwords := congrArg (fun words => words[1]?) (Option.some.inj (Option.some.inj hlist))
    simp only [SequenceBounds.words, getElem?_map, getElem?_range htwo,
      getElem?_range hsecond, Option.map_some, Option.some.injEq] at hwords
    have hnumeric := SequenceBounds.numeric_of_far hvalid hstep.1 hstep.2
    rw [SequenceBounds.word, SequenceBounds.render, hnumeric, if_pos rfl, if_pos rfl] at hwords
    have hvalue := SequenceBounds.decimal_injective hwords
    have hdelta : bounds.delta = 1 := if_neg hstep.1
    have hbig := hstep.1
    rw [SequenceBounds.value, SequenceBounds.stepped, hdelta] at hvalue
    split at hvalue
    · omega
    · omega
  · rw [if_neg (Nat.not_lt.mpr hfew), Option.isSome_map] at hchecked
    obtain ⟨words, hwords⟩ := Option.isSome_iff_exists.mp hchecked
    exact (SequenceBounds.checked_values hvalid).mp (SequenceBounds.collect_eq_some.mp hwords).1

/-! ### The expansion of a text -/

def exactSequence (body : Text) : Option (Option (List Text)) :=
  some ((sequenceBounds body).map SequenceBounds.listed)

/-- A word of the expansion that takes every sequence exactly. -/
inductive ExactWord : Text → Text → Prop
  | text {text : Text} (h : firstBrace exactSequence text = some none) : ExactWord text text
  | pick {text word piece : Text} {group : BraceGroup}
    (h : firstBrace exactSequence text = some (some group)) (hpiece : piece ∈ group.pieces)
    (hword : ExactWord (group.before ++ piece ++ group.after) word) : ExactWord text word

inductive PickedFrom (start : Text) : Text → Prop
  | start : PickedFrom start start
  | pick {text piece : Text} {group : BraceGroup} (h : PickedFrom start text)
    (hgroup : firstBrace exactSequence text = some (some group)) (hpiece : piece ∈ group.pieces) :
    PickedFrom start (group.before ++ piece ++ group.after)

def SequencesInRange (text : Text) : Prop :=
  ∀ front rest body after, text = front ++ '{' :: rest → splitBody 0 rest = some ([body], after) →
    ∀ bounds, sequenceBounds body = some bounds → bounds.InRange

lemma braceSequence_exact (h : ∀ bounds, sequenceBounds body = some bounds → bounds.InRange) :
    braceSequence body = none ∨ braceSequence body = exactSequence body := by
  cases hbounds : sequenceBounds body with
  | none =>
    right
    rw [braceSequence, exactSequence, hbounds]
    rfl
  | some bounds =>
    have hrange := h bounds hbounds
    rw [braceSequence_eq hbounds hrange.1]
    split
    · exact .inl rfl
    · rename_i hfew
      right
      rw [exactSequence, hbounds, Option.map_some,
        SequenceBounds.listed_eq_words (hrange.2 (Nat.le_of_not_lt hfew)).1]

lemma firstBrace_exact (h : SequencesInRange text) :
    firstBrace braceSequence text = none ∨
      firstBrace braceSequence text = firstBrace exactSequence text := by
  induction text with
  | nil => exact .inr rfl
  | cons c rest ih =>
    have hrest : SequencesInRange rest := fun front more body after heq =>
      h (c :: front) more body after (by rw [heq]; rfl)
    have hlater : (firstBrace braceSequence rest).map (fun found =>
        found.map fun group : BraceGroup => { group with before := c :: group.before }) = none ∨
      (firstBrace braceSequence rest).map (fun found =>
        found.map fun group : BraceGroup => { group with before := c :: group.before }) =
      (firstBrace exactSequence rest).map (fun found =>
        found.map fun group : BraceGroup => { group with before := c :: group.before }) := by
      rcases ih hrest with hnone | heq
      · exact .inl (by rw [hnone]; rfl)
      · exact .inr (by rw [heq])
    rw [firstBrace.eq_def, firstBrace.eq_def exactSequence]
    dsimp only
    by_cases hopen : c = '{'
    · subst hopen
      rw [if_pos rfl, if_pos rfl]
      cases hsplit : splitBody 0 rest with
      | none => exact hlater
      | some parts =>
        obtain ⟨pieces, after⟩ := parts
        rcases pieces with _ | ⟨body, _ | ⟨second, pieces⟩⟩
        · exact .inr rfl
        · have hbody := braceSequence_exact (h [] rest body after rfl hsplit)
          dsimp only
          rcases hbody with hnone | heq
          · rw [hnone]
            exact .inl rfl
          · rw [heq, exactSequence]
            cases sequenceBounds body with
            | none => exact hlater
            | some bounds => exact .inr rfl
        · exact .inr rfl
    · rw [if_neg hopen, if_neg hopen]
      exact hlater

lemma pieces_ne_nil {group : BraceGroup}
    (h : firstBrace exactSequence text = some (some group)) : group.pieces ≠ [] := by
  obtain ⟨body, pieces, -, -, hpieces⟩ := firstBrace_inv h
  rcases hpieces with ⟨rfl, htwo⟩ | ⟨only, -, hsequence⟩
  · rintro hnil
    rw [hnil] at htwo
    cases htwo
  · obtain ⟨bounds, -, hlisted⟩ := Option.map_eq_some_iff.mp (Option.some.inj hsequence)
    rw [← hlisted, SequenceBounds.listed, Ne, map_eq_nil_iff, range_eq_nil]
    exact Nat.succ_ne_zero _

lemma expandBraces_exact {words out : List Text}
    (hrange : ∀ reached, PickedFrom text reached → SequencesInRange reached)
    (h : expandBraces text words = some out) :
    ∃ added, out = words ++ added ∧ added ≠ [] ∧ ∀ word, word ∈ added ↔ ExactWord text word := by
  induction hweight : weight text using Nat.strong_induction_on generalizing text words out with
  | _ n ih =>
    subst hweight
    rw [expandBraces_eq] at h
    rcases firstBrace_exact (hrange text .start) with hnone | heq
    · rw [hnone] at h
      cases h
    cases hfirst : firstBrace braceSequence text with
    | none =>
      rw [hfirst] at h
      cases h
    | some found =>
      rw [hfirst] at h heq
      cases found with
      | none =>
        dsimp only at h
        split at h
        · cases h
        · cases h
          refine ⟨[text], rfl, cons_ne_nil _ _, fun word => ?_⟩
          rw [mem_singleton]
          constructor
          · rintro rfl
            exact .text heq.symm
          · intro hword
            cases hword with
            | text _ => rfl
            | pick hgroup _ _ =>
              rw [← heq] at hgroup
              cases hgroup
      | some group =>
        -- by the pieces, each of which adds its own words
        have hpieces : ∀ (pieces : List Text) (words out : List Text),
            (∀ piece ∈ pieces, piece ∈ group.pieces) →
            pieces.foldlM (fun words piece =>
              expandBraces (group.before ++ piece ++ group.after) words) words = some out →
            ∃ added, out = words ++ added ∧ (pieces ≠ [] → added ≠ []) ∧ ∀ word, word ∈ added ↔
                ∃ piece ∈ pieces, ExactWord (group.before ++ piece ++ group.after) word := by
          intro pieces
          induction pieces with
          | nil =>
            intro words out _ hfold
            cases hfold
            exact ⟨[], (append_nil _).symm, fun hne => absurd rfl hne, by simp⟩
          | cons piece pieces ihpieces =>
            intro words out hsub hfold
            rw [foldlM_cons] at hfold
            obtain ⟨middle, hmiddle, hfold⟩ := Option.bind_eq_some_iff.mp hfold
            obtain ⟨hpiece, hsub⟩ := forall_mem_cons.mp hsub
            have hless := weight_pick hfirst hpiece
            have hreached : ∀ reached,
                PickedFrom (group.before ++ piece ++ group.after) reached → SequencesInRange reached := by
              intro reached hfrom
              refine hrange reached ?_
              induction hfrom with
              | start => exact .pick .start heq.symm hpiece
              | pick _ hgroup hnext ih => exact .pick ih hgroup hnext
            obtain ⟨added, rfl, hne, hadded⟩ := ih _ hless hreached hmiddle rfl
            obtain ⟨more, rfl, -, hmore⟩ := ihpieces _ _ hsub hfold
            refine ⟨added ++ more, append_assoc .., fun _ hnil => hne (append_eq_nil_iff.mp hnil).1,
              fun word => ?_⟩
            rw [mem_append, hadded, hmore]
            simp
        obtain ⟨added, rfl, hne, hadded⟩ := hpieces group.pieces words out (fun _ hmem => hmem) h
        refine ⟨added, rfl, hne (pieces_ne_nil heq.symm), fun word => ?_⟩
        rw [hadded]
        constructor
        · rintro ⟨piece, hpiece, hword⟩
          exact .pick heq.symm hpiece hword
        · intro hword
          cases hword with
          | text hnone =>
            rw [← heq] at hnone
            cases hnone
          | pick hgroup hpiece hword =>
            rw [← heq] at hgroup
            cases hgroup
            exact ⟨_, hpiece, hword⟩

/-- A text whose sequences are all exact is expanded in full. -/
theorem braceAlternatives_complete {words : List Text}
    (hrange : ∀ reached, PickedFrom text reached → SequencesInRange reached)
    (h : braceAlternatives text = some words) :
    words ≠ [] ∧ ∀ word, word ∈ words ↔ ExactWord text word := by
  rw [braceAlternatives] at h
  split at h
  · cases h
  · obtain ⟨added, rfl, hne, hadded⟩ := expandBraces_exact hrange h
    exact ⟨hne, hadded⟩

/-- A sequence is read exactly when its bounds are in range, and a text whose sequences all are
expands to all of its words. -/
theorem braceSequence_exact_iff (body text : Text) :
    (SequenceExact body ↔ ∀ bounds, sequenceBounds body = some bounds → bounds.InRange) ∧
    ((∀ reached, PickedFrom text reached → SequencesInRange reached) →
      ∀ words, braceAlternatives text = some words →
        words ≠ [] ∧ ∀ word, word ∈ words ↔ ExactWord text word) := by
  refine ⟨⟨fun h bounds hbounds => inRange_of_sequenceExact hbounds h, fun h => ?_⟩,
    fun hrange words => braceAlternatives_complete hrange⟩
  cases hbounds : sequenceBounds body with
  | some bounds => exact sequenceExact_of_inRange hbounds (h bounds hbounds)
  | none =>
    refine ⟨by rw [checkedSequence, hbounds]; rfl, ?_, fun bounds hsome => ?_⟩
    · rw [braceSequence, hbounds]
      refine iff_of_false (by simp) ?_
      rintro ⟨bounds, hsome, -⟩
      cases hsome
    · rw [hbounds] at hsome
      cases hsome

/-- From the first `i64` to the last by one, the number of values wraps to none. -/
theorem widest_sequence_is_empty :
    checkedSequence "-9223372036854775808..9223372036854775807".toList = none ∧
      braceAlternatives ".{-9223372036854775808..9223372036854775807}".toList = some [] ∧
      ¬SequenceExact "-9223372036854775808..9223372036854775807".toList := by
  have hnone : checkedSequence "-9223372036854775808..9223372036854775807".toList = none := by
    decide +kernel
  refine ⟨hnone, by decide +kernel, fun h => ?_⟩
  have hsome := h.noOverflow
  rw [hnone] at hsome
  cases hsome

/-- Behind the last `i64` the value that is not listed overflows. -/
example : checkedSequence "9223372036854775807..9223372036854775807".toList = none := by
  decide +kernel

end Capture
