/-
Invisible characters cannot hide a secret (`ai-memory-core`, `sanitize.rs`).

Two texts that differ in default-ignorable characters alone have the same view.  Each pass
runs its pattern over the view, so it finds the same matches in both; and a match covers the
same characters of the view in either text, wherever these stand there.
-/
import AiMemory.Core.Redaction
import Mathlib.Data.Bool.AllAny

open Utf8 List

namespace Sanitize

open Bool (or_eq_true and_eq_true not_eq_true)
open Option (bind_eq_bind bind_some some.inj)

/-- `t'` is `t` with default-ignorable characters inserted. -/
inductive Inserted : Text → Text → Prop
  | nil : Inserted [] []
  | keep (c : Char) {t t' : Text} : Inserted t t' → Inserted (c :: t) (c :: t')
  | insert {c : Char} {t t' : Text} : isDefaultIgnorable c = true → Inserted t t' →
      Inserted t (c :: t')

def reading (text : Text) : Text :=
  text.filter fun c => !isStrippedControl c && !isDefaultIgnorable c

variable {t t' : Text}

lemma Inserted.reading_eq (h : Inserted t t') : reading t' = reading t := by
  induction h with
  | nil => rfl
  | keep c h ih =>
    rw [reading] at ih ⊢
    rw [reading] at ih ⊢
    rw [filter_cons, filter_cons, ih]
  | @insert c t t' hc h ih =>
    rw [← ih, reading, filter_cons_of_neg, reading]
    simp [hc]

variable {c : Char} {before after : Text} {places : List (ℕ × Char)} {m : Span}

lemma Inserted.mem (h : Inserted t t') (hc : c ∈ t') :
    c ∈ t ∨ isDefaultIgnorable c := by
  induction h with
  | nil => cases hc
  | keep d h ih =>
    rcases mem_cons.mp hc with rfl | hc
    · exact .inl mem_cons_self
    · exact (ih hc).imp_left (mem_cons_of_mem _)
  | insert hd h ih =>
    rcases mem_cons.mp hc with rfl | hc
    · exact .inr hd
    · exact ih hc

lemma Inserted.mem_right (h : Inserted t t') (hc : c ∈ t) : c ∈ t' := by
  induction h with
  | nil => exact hc
  | keep d h ih =>
    rcases mem_cons.mp hc with rfl | hc
    · exact mem_cons_self
    · exact mem_cons_of_mem _ (ih hc)
  | insert hd h ih => exact mem_cons_of_mem _ (ih hc)

lemma Inserted.append_inv {x' y' : Text} (h : Inserted t (x' ++ y')) :
    ∃ x y, t = x ++ y ∧ Inserted x x' ∧ Inserted y y' := by
  induction x' generalizing t with
  | nil => exact ⟨[], t, rfl, .nil, h⟩
  | cons c x' ih =>
    cases h with
    | keep c h =>
      obtain ⟨x, y, rfl, hx, hy⟩ := ih h
      exact ⟨c :: x, y, rfl, .keep c hx, hy⟩
    | insert hc h =>
      obtain ⟨x, y, rfl, hx, hy⟩ := ih h
      exact ⟨x, y, rfl, .insert hc hx, hy⟩

lemma Inserted.eq_of_plain (h : Inserted t t') (hplain : ∀ c ∈ t', isDefaultIgnorable c = false) :
    t = t' := by
  induction h with
  | nil => rfl
  | keep c h ih => rw [ih (forall_mem_cons.mp hplain).2]
  | insert hc h =>
    rw [(forall_mem_cons.mp hplain).1] at hc
    cases hc

/-! ### Terminal escapes -/

def esc : Char := '\x1b'
def bel : Char := '\x07'

def isParameter (c : Char) : Bool := inRange c 0x30 0x39 || c = ';' || c = '?'
def isIntermediate (c : Char) : Bool := inRange c 0x20 0x2f
def isFinal (c : Char) : Bool := inRange c 0x40 0x7e

/-- The sequences that `ESCAPE_SEQUENCES` matches. -/
inductive EscapeSequence : Text → Prop
  | csi (parameters intermediates : Text) (final : Char)
      (hparameters : ∀ c ∈ parameters, isParameter c = true)
      (hintermediates : ∀ c ∈ intermediates, isIntermediate c = true)
      (hfinal : isFinal final = true) :
      EscapeSequence (esc :: '[' :: (parameters ++ intermediates ++ [final]))
  | osc (body ending : Text) (hbody : ∀ c ∈ body, c ≠ bel ∧ c ≠ esc)
      (hending : ending = [bel] ∨ ending = [esc, '\\']) :
      EscapeSequence (esc :: ']' :: (body ++ ending))
  | two (c : Char) (hc : inRange c 0x40 0x5a = true ∨ inRange c 0x5c 0x5f = true) :
      EscapeSequence [esc, c]

/-- No terminal escape stands in the text. -/
def EscapeFree (text : Text) : Prop :=
  ∀ before sequence after, text = before ++ sequence ++ after → ¬ EscapeSequence sequence

lemma not_ignorable_of_lt (h : c.toNat < 0xad) : isDefaultIgnorable c = false := by
  simp only [isDefaultIgnorable, inRange, Bool.or_eq_false_iff, Bool.and_eq_false_iff,
    decide_eq_false_iff_not]
  omega

lemma lt_of_inRange {low high : ℕ} (h : inRange c low high) :
    low ≤ c.toNat ∧ c.toNat ≤ high := by
  simpa [inRange] using h

lemma EscapeFree.inserted (hfree : EscapeFree t) (h : Inserted t t') : EscapeFree t' := by
  intro before sequence after hsplit hsequence
  rw [hsplit] at h
  obtain ⟨front, behind, rfl, hfront, -⟩ := h.append_inv
  obtain ⟨front, inner, rfl, -, hinner⟩ := hfront.append_inv
  refine hfree front inner behind rfl ?_
  cases hsequence with
  | csi parameters intermediates final hparameters hintermediates hfinal =>
    have hplain : ∀ c ∈ esc :: '[' :: (parameters ++ intermediates ++ [final]),
        isDefaultIgnorable c = false := by
      intro c hc
      refine not_ignorable_of_lt ?_
      rcases mem_cons.mp hc with rfl | hc
      · decide
      rcases mem_cons.mp hc with rfl | hc
      · decide
      rcases mem_append.mp hc with hc | hc
      · rcases mem_append.mp hc with hc | hc
        · have hparameter := hparameters c hc
          simp only [isParameter, or_eq_true, decide_eq_true_eq] at hparameter
          rcases hparameter with (hdigit | rfl) | rfl
          · exact lt_of_le_of_lt (lt_of_inRange hdigit).2 (by decide)
          · decide
          · decide
        · exact lt_of_le_of_lt (lt_of_inRange (hintermediates c hc)).2 (by decide)
      · rw [mem_singleton.mp hc]
        exact lt_of_le_of_lt (lt_of_inRange hfinal).2 (by decide)
    rw [hinner.eq_of_plain hplain]
    exact .csi parameters intermediates final hparameters hintermediates hfinal
  | osc body ending hbody hending =>
    have hopen : Inserted inner ([esc, ']'] ++ (body ++ ending)) := hinner
    obtain ⟨opening, rest, rfl, hopening, hrest⟩ := hopen.append_inv
    obtain ⟨kept, closing, rfl, hkept, hclosing⟩ := hrest.append_inv
    rw [hopening.eq_of_plain (all_iff_forall_prop.mp (by decide))]
    have hend : closing = ending := hclosing.eq_of_plain (by
      rcases hending with rfl | rfl
      · exact all_iff_forall_prop.mp (by decide)
      · exact all_iff_forall_prop.mp (by decide))
    rw [hend]
    exact .osc kept ending (fun c hc => hbody c (hkept.mem_right hc)) hending
  | two c hc =>
    have hplain : ∀ d ∈ [esc, c], isDefaultIgnorable d = false := by
      intro d hd
      refine not_ignorable_of_lt ?_
      rcases mem_pair.mp hd with rfl | rfl
      · decide
      · rcases hc with hc | hc
        all_goals exact lt_of_le_of_lt (lt_of_inRange hc).2 (by decide)
    rw [hinner.eq_of_plain hplain]
    exact .two c hc

/-! ### The view -/

theorem ignorable_of_hidden {offset : ℕ} (h : isHiddenTextChar offset c) :
    isDefaultIgnorable c := by
  simp only [isHiddenTextChar, inRange, or_eq_true, and_eq_true, decide_eq_true_eq] at h
  simp only [isDefaultIgnorable, inRange, or_eq_true, and_eq_true, decide_eq_true_eq]
  omega

lemma ignorable_of_tag (h : inRange c 0xe0020 0xe007e ∨ c.toNat = 0xe007f) :
    isDefaultIgnorable c ∧ c.utf8Size = 4 := by
  have hrange : 0xe0000 ≤ c.toNat ∧ c.toNat ≤ 0xe0fff := by
    rcases h with h | h
    · have hbounds := lt_of_inRange h
      omega
    · omega
  constructor
  · simp only [isDefaultIgnorable, inRange, or_eq_true, and_eq_true, decide_eq_true_eq]
    omega
  · have hlow : 0xffff < c.val.toNat := lt_of_lt_of_le (by decide) hrange.1
    simp only [Char.utf8Size, UInt32.le_iff_toNat_le]
    rw [if_neg, if_neg, if_neg]
    all_goals exact fun hle => absurd (lt_of_lt_of_le hlow hle) (by decide)

lemma ignorable_of_run (len : ℕ) (rest : Text) :
    emojiTagRunLen (4 * len) rest = 0 ∨ ∃ n, emojiTagRunLen (4 * len) rest = 4 * (len + n) ∧
      ∀ c ∈ rest.take n, isDefaultIgnorable c = true := by
  induction rest generalizing len with
  | nil => exact .inl rfl
  | cons c rest ih =>
    rw [emojiTagRunLen]
    split
    · rename_i htag
      obtain ⟨hignorable, hsize⟩ := ignorable_of_tag (.inl htag)
      rw [hsize]
      rcases ih (len + 1) with hzero | ⟨n, hlen, htake⟩
      · exact .inl hzero
      · refine .inr ⟨n + 1, ?_, ?_⟩
        · rw [show 4 * len + 4 = 4 * (len + 1) by omega, hlen]
          omega
        · rw [take_succ_cons]
          exact forall_mem_cons.mpr ⟨hignorable, htake⟩
    split
    · rename_i hcancel
      rw [and_eq_true, decide_eq_true_eq] at hcancel
      obtain ⟨hignorable, hsize⟩ := ignorable_of_tag (.inr hcancel.1)
      refine .inr ⟨1, by omega, ?_⟩
      rw [take_succ_cons, take_zero]
      exact forall_mem_cons.mpr ⟨hignorable, forall_mem_nil _⟩
    · exact .inl rfl

lemma filter_stripFrom (s : Text) (offset skip : ℕ)
    (h : ∀ c ∈ s.take skip, isDefaultIgnorable c = true) :
    (stripFrom offset skip s).filter (fun c => !isDefaultIgnorable c) = reading s := by
  induction s generalizing offset skip with
  | nil => cases skip <;> rfl
  | cons c s ih =>
    have hcons : ∀ kept, (isStrippedControl c = false ∨ isDefaultIgnorable c) →
        kept.filter (fun c => !isDefaultIgnorable c) = reading s →
        (c :: kept).filter (fun c => !isDefaultIgnorable c) = reading (c :: s) := by
      intro kept hc hkept
      rw [reading] at hkept ⊢
      rw [filter_cons, filter_cons, hkept]
      rcases hc with hc | hc
      · rw [hc, Bool.not_false, Bool.true_and]
      · rw [hc, Bool.not_true, Bool.and_false]
    cases skip with
    | succ skip =>
      rw [take_succ_cons] at h
      obtain ⟨hc, hrest⟩ := forall_mem_cons.mp h
      exact hcons _ (.inr hc) (ih _ skip hrest)
    | zero =>
      rw [stripFrom]
      have hplain : ∀ c' ∈ s.take 0, isDefaultIgnorable c' = true := by
        rw [take_zero]
        exact forall_mem_nil _
      split
      · rename_i hflag
        have hcontrol : isStrippedControl c = false := by
          simp only [isStrippedControl, inRange, hflag]
          decide
        refine hcons _ (.inl hcontrol) (ih _ _ ?_)
        rcases ignorable_of_run 0 s with hzero | ⟨n, hlen, htake⟩
        · rw [Nat.mul_zero] at hzero
          rw [hzero]
          exact hplain
        · rw [Nat.mul_zero, Nat.zero_add] at hlen
          rw [hlen, Nat.mul_div_cancel_left n (by decide)]
          exact htake
      split
      · rename_i hdropped
        rw [ih _ 0 hplain, reading, reading, filter_cons_of_neg]
        rw [or_eq_true] at hdropped
        rcases hdropped with hcontrol | hhidden
        · simp [hcontrol]
        · simp [ignorable_of_hidden hhidden]
      · rename_i hkept
        rw [not_eq_true, Bool.or_eq_false_iff] at hkept
        exact hcons _ (.inl hkept.1) (ih _ 0 hplain)

lemma notMem_strip {offset skip : ℕ} {s : Text} (h : '\\' ∉ s) :
    '\\' ∉ stripFrom offset skip s := by
  induction s generalizing offset skip with
  | nil => cases skip <;> exact not_mem_nil
  | cons c s ih =>
    obtain ⟨hc, hs⟩ := not_or.mp fun hmem => h (mem_cons.mpr hmem)
    have hcons : ∀ kept : Text, '\\' ∉ kept → '\\' ∉ c :: kept :=
      fun kept hkept => not_mem_cons_of_ne_of_not_mem hc hkept
    cases skip with
    | succ skip => exact hcons _ (ih hs)
    | zero =>
      rw [stripFrom]
      split
      · exact hcons _ (ih hs)
      split
      · exact ih hs
      · exact hcons _ (ih hs)

def marked : ℕ → Text → List (ℕ × Char)
  | _, [] => []
  | offset, c :: text =>
    if isDefaultIgnorable c then marked (offset + c.utf8Size) text
    else (offset, c) :: marked (offset + c.utf8Size) text

variable (offset : ℕ)

lemma map_marked (text : Text) :
    (marked offset text).map Prod.snd = text.filter fun c => !isDefaultIgnorable c := by
  induction text generalizing offset with
  | nil => rfl
  | cons c text ih =>
    rw [marked, filter_cons]
    cases isDefaultIgnorable c with
    | true => exact ih _
    | false => exact congrArg (c :: ·) (ih _)

lemma mem_marked {offset p : ℕ} {text : Text} (h : (p, c) ∈ marked offset text) :
    ∃ before after, text = before ++ c :: after ∧ p = offset + byteLen before := by
  induction text generalizing offset with
  | nil => cases h
  | cons d text ih =>
    have hlater : (p, c) ∈ marked (offset + d.utf8Size) text →
        ∃ before after, d :: text = before ++ c :: after ∧ p = offset + byteLen before := by
      intro h
      obtain ⟨before, after, rfl, rfl⟩ := ih h
      exact ⟨d :: before, after, rfl, by rw [byteLen_cons, Nat.add_assoc]⟩
    rw [marked] at h
    split at h
    · exact hlater h
    · rcases mem_cons.mp h with heq | h
      · cases heq
        exact ⟨[], text, rfl, rfl⟩
      · exact hlater h

lemma pairwise_marked (text : Text) :
    (marked offset text).Pairwise fun a b => a.1 + a.2.utf8Size ≤ b.1 := by
  induction text generalizing offset with
  | nil => exact .nil
  | cons c text ih =>
    rw [marked]
    split
    · exact ih _
    · refine pairwise_cons.mpr ⟨fun b hb => ?_, ih _⟩
      obtain ⟨before, after, -, hp⟩ := mem_marked hb
      dsimp only
      omega

lemma jsonEscapeAt_none {text : Text} (h : '\\' ∉ text) (index : ℕ) :
    jsonEscapeAt (bytes text) index = none := by
  refine if_neg fun hbyte => h ?_
  obtain ⟨c, hc, hb⟩ := mem_flatMap.mp (mem_of_getElem? hbyte)
  rwa [eq_of_ascii_mem hb (by decide)] at hc

def origins (places : List (ℕ × Char)) : List ℕ :=
  places.flatMap fun place => List.replicate place.2.utf8Size place.1

def visibleView (text : Text) : Shadow where
  text := text.filter fun c => !isDefaultIgnorable c
  origin := origins (marked 0 text)

lemma ofFrom_eq (h : '\\' ∉ before ++ after) (shadow : Shadow)
    (extra : ℕ) : Shadow.ofFrom (before ++ after) (byteLen after + 1 + extra) (byteLen before) shadow =
      some ⟨shadow.text ++ after.filter fun c => !isDefaultIgnorable c,
        shadow.origin ++ origins (marked (byteLen before) after)⟩ := by
  induction after generalizing before shadow extra with
  | nil =>
    rw [show byteLen [] + 1 + extra = extra + 1 by rw [byteLen_nil]; omega, Shadow.ofFrom,
      dropBytes_byteLen]
    simp [marked, origins]
  | cons c after ih =>
    obtain ⟨size, hsize⟩ : ∃ size, c.utf8Size = size + 1 :=
      ⟨c.utf8Size - 1, by have := c.utf8Size_pos; omega⟩
    have hfuel : byteLen (c :: after) + 1 + extra = (byteLen after + 1 + (extra + size)) + 1 := by
      rw [byteLen_cons]
      omega
    have hword : before ++ c :: after = before ++ [c] ++ after := by simp
    have hnext : byteLen before + c.utf8Size = byteLen (before ++ [c]) := by simp
    rw [hfuel, Shadow.ofFrom, dropBytes_byteLen]
    simp only [bind_eq_bind, bind_some, jsonEscapeAt_none h, Option.getD_none]
    rw [hnext, hword, ih (by rwa [← hword]), marked, filter_cons, hnext]
    cases isDefaultIgnorable c with
    | true => rfl
    | false => simp [Shadow.push, origins]

def viewText (text : Text) : Option Text :=
  (Shadow.of text).map fun shadow => shadow.elim text Shadow.text

lemma shadow_of_eq {text : Text} (h : '\\' ∉ text) :
    (Shadow.of text = some none ∧ ∀ c ∈ text, isDefaultIgnorable c = false) ∨
      Shadow.of text = some (some (visibleView text)) := by
  rw [Shadow.of]
  split
  · have hloop : Shadow.ofFrom text (byteLen text + 1) 0 ⟨[], []⟩ = some (visibleView text) :=
      ofFrom_eq (show '\\' ∉ [] ++ text from h) ⟨[], []⟩ 0
    rw [hloop]
    exact .inr rfl
  · rename_i hplain
    rw [not_eq_true, any_eq_false] at hplain
    refine .inl ⟨rfl, fun c hc => ?_⟩
    have hnone := hplain c hc
    rw [or_eq_true, not_or, not_eq_true, not_eq_true] at hnone
    exact hnone.2

lemma viewText_eq {text : Text} (h : '\\' ∉ text) :
    viewText text = some (text.filter fun c => !isDefaultIgnorable c) := by
  rcases shadow_of_eq h with ⟨hnone, hplain⟩ | hsome
  · have hfilter : text.filter (fun c => !isDefaultIgnorable c) = text :=
      filter_eq_self.mpr fun c hc => by rw [hplain c hc]; rfl
    rw [viewText, hnone, hfilter]
    rfl
  · rw [viewText, hsome]
    rfl

/-! ### Matches -/

def Matched (view : Text) (m : Span) (k : ℕ) : Prop :=
  ∃ before mid after, view = before ++ mid ++ after ∧ byteLen before = m.1 ∧
    byteLen before + byteLen mid = m.2 ∧ before.length ≤ k ∧ k < before.length + mid.length

lemma exists_place
    (h : places.map Prod.snd = before ++ c :: after) : ∃ xs p ys, places = xs ++ (p, c) :: ys ∧
      xs.map Prod.snd = before ∧ places[before.length]? = some (p, c) := by
  obtain ⟨xs, rest, rfl, hxs, hrest⟩ := map_eq_append_iff.mp h
  obtain ⟨⟨p, d⟩, ys, rfl, hd, -⟩ := map_eq_cons_iff.mp hrest
  obtain rfl : d = c := hd
  refine ⟨xs, p, ys, rfl, hxs, ?_⟩
  rw [← hxs, length_map, getElem?_append_right (le_refl _), Nat.sub_self]
  rfl

lemma length_origins (places : List (ℕ × Char)) :
    (origins places).length = byteLen (places.map Prod.snd) := by
  induction places with
  | nil => rfl
  | cons place places ih =>
    rw [origins] at ih ⊢
    rw [flatMap_cons, length_append, length_replicate, ih]
    rfl

lemma getElem?_origins (xs ys : List (ℕ × Char)) (p : ℕ) {j : ℕ} (hj : j < c.utf8Size) :
    (origins (xs ++ (p, c) :: ys))[byteLen (xs.map Prod.snd) + j]? = some p := by
  have hwhole : origins (xs ++ (p, c) :: ys) =
      origins xs ++ (List.replicate c.utf8Size p ++ origins ys) := by
    rw [origins, flatMap_append, flatMap_cons]
    rfl
  rw [hwhole, getElem?_append_right (by rw [length_origins]; omega), length_origins,
    Nat.add_sub_cancel_left, getElem?_append_left (by rwa [length_replicate]),
    getElem?_replicate, if_pos hj]

lemma place_between
    (h : places.Pairwise fun a b => a.1 + a.2.utf8Size ≤ b.1) {a b k : ℕ} {first last place : ℕ × Char}
    (ha : places[a]? = some first) (hb : places[b]? = some last) (hk : places[k]? = some place) :
    (first.1 ≤ place.1 ∧ place.1 < last.1 + last.2.utf8Size ↔ a ≤ k ∧ k ≤ b) ∧
      (k ≤ b → place.1 + place.2.utf8Size ≤ last.1 + last.2.utf8Size) := by
  have hsize := place.2.utf8Size_pos
  have hfirst := first.2.utf8Size_pos
  have hlast := last.2.utf8Size_pos
  have hlt : ∀ {i j : ℕ} {x y : ℕ × Char}, places[i]? = some x → places[j]? = some y → i < j →
      x.1 + x.2.utf8Size ≤ y.1 := by
    intro i j x y hi hj hij
    obtain ⟨hi', rfl⟩ := List.getElem?_eq_some_iff.mp hi
    obtain ⟨hj', rfl⟩ := List.getElem?_eq_some_iff.mp hj
    exact pairwise_iff_getElem.mp h i j hi' hj' hij
  have hsame : ∀ {i j : ℕ} {x y : ℕ × Char}, places[i]? = some x → places[j]? = some y → i = j →
      x = y := by
    rintro i j x y hi hj rfl
    exact some.inj (hi.symm.trans hj)
  constructor
  · constructor
    · rintro ⟨hle, hbefore⟩
      constructor
      · by_contra hka
        have hgap := hlt hk ha (by omega)
        omega
      · by_contra hkb
        have hgap := hlt hb hk (by omega)
        omega
    · rintro ⟨hak, hkb⟩
      constructor
      · rcases Nat.eq_or_lt_of_le hak with heq | hgap
        · rw [hsame ha hk heq]
        · have := hlt ha hk hgap
          omega
      · rcases Nat.eq_or_lt_of_le hkb with heq | hgap
        · rw [hsame hk hb heq]
          omega
        · have := hlt hk hb hgap
          omega
  · intro hkb
    rcases Nat.eq_or_lt_of_le hkb with heq | hgap
    · rw [hsame hk hb heq]
    · have := hlt hk hb hgap
      omega

/-- The span holds the matched characters, whole, and no other visible one. -/
structure Spans (places : List (ℕ × Char)) (view : Text) (m span : Span) : Prop where
  matched : ∀ k place, places[k]? = some place → (span.1 ≤ place.1 ∧ place.1 < span.2 ↔ Matched view m k)
  whole : ∀ k place, places[k]? = some place → Matched view m k →
    place.1 + place.2.utf8Size ≤ span.2

lemma spans_of_ends {view before mid after : Text}
    (h : places.Pairwise fun a b => a.1 + a.2.utf8Size ≤ b.1)
    (hview : view = before ++ mid ++ after) (hstart : byteLen before = m.1)
    (hstop : byteLen before + byteLen mid = m.2) (hmid : mid ≠ []) {first last : ℕ × Char}
    (ha : places[before.length]? = some first)
    (hb : places[before.length + mid.length - 1]? = some last) :
    Spans places view m (first.1, last.1 + last.2.utf8Size) := by
  have hlength : 0 < mid.length := length_pos_iff.mpr hmid
  have hmatched : ∀ k, Matched view m k ↔
      before.length ≤ k ∧ k ≤ before.length + mid.length - 1 := by
    intro k
    constructor
    · rintro ⟨before', mid', after', hview', hstart', hstop', hle, hlt⟩
      rw [hview] at hview'
      obtain ⟨hparts, -⟩ := append_eq_append_of_byteLen hview' (by
        rw [byteLen_append, byteLen_append, hstop, hstop'])
      obtain ⟨rfl, rfl⟩ := append_eq_append_of_byteLen hparts (hstart.trans hstart'.symm)
      omega
    · rintro ⟨hle, hlt⟩
      exact ⟨before, mid, after, hview, hstart, hstop, hle, by omega⟩
  constructor
  · intro k place hk
    rw [hmatched]
    exact (place_between h ha hb hk).1
  · intro k place hk hmatch
    exact (place_between h ha hb hk).2 ((hmatched k).mp hmatch).2

lemma spans_of_empty {view : Text} (h : m.1 = m.2) (o : ℕ) : Spans places view m (o, o) := by
  have hnone : ∀ k, ¬ Matched view m k := by
    rintro k ⟨before, mid, after, -, hstart, hstop, hle, hlt⟩
    cases mid with
    | nil =>
      rw [length_nil] at hlt
      omega
    | cons c mid =>
      have hsize := c.utf8Size_pos
      rw [byteLen_cons] at hstop
      omega
  constructor
  · intro k place _
    exact iff_of_false (by dsimp only; omega) (hnone k)
  · exact fun k place _ hmatch => absurd hmatch (hnone k)

lemma originalSpan_spans {text : Text} (h : '\\' ∉ text) (hm : Aligned (visibleView text).text m) :
    ∃ span, (visibleView text).originalSpan text m.1 m.2 = some span ∧
      Spans (marked 0 text) (visibleView text).text m span := by
  obtain ⟨hstart, hstop, hle⟩ := hm
  obtain ⟨before, mid, after, hview, hbefore, hend⟩ := exists_of_boundaries hstart hstop hle
  rcases eq_nil_or_concat' mid with rfl | ⟨front, last, rfl⟩
  · have heq : m.1 = m.2 := by
      rw [byteLen_nil] at hend
      omega
    refine ⟨((visibleView text).origin[m.1]?.getD (byteLen text), _), ?_, spans_of_empty heq _⟩
    rw [Shadow.originalSpan, if_neg (by omega)]
  -- the first and the last character of the match, where they stand in the text
  obtain ⟨first, rest, hfirst⟩ : ∃ first rest, front ++ [last] = first :: rest :=
    exists_cons_of_ne_nil (by simp)
  have hplaces : (marked 0 text).map Prod.snd = (visibleView text).text := map_marked 0 text
  have hhead : (marked 0 text).map Prod.snd = before ++ first :: (rest ++ after) := by
    rw [hplaces, hview, hfirst]
    simp
  have htail : (marked 0 text).map Prod.snd = (before ++ front) ++ last :: after := by
    rw [hplaces, hview]
    simp
  obtain ⟨xs, p, ys, hxs, hmap, hget⟩ := exists_place hhead
  obtain ⟨xs', p', ys', hxs', hmap', hget'⟩ := exists_place htail
  have hlast := last.utf8Size_pos
  have horigin : (visibleView text).origin[m.1]? = some p := by
    have hbyte := getElem?_origins xs ys p first.utf8Size_pos
    rwa [hmap, ← hxs, Nat.add_zero, hbefore] at hbyte
  have hstop' : byteLen (before ++ front) + (last.utf8Size - 1) = m.2 - 1 := by
    rw [byteLen_append] at hend ⊢
    simp only [byteLen_cons, byteLen_nil] at hend
    omega
  have horigin' : (visibleView text).origin[m.2 - 1]? = some p' := by
    have hlastByte : last.utf8Size - 1 < last.utf8Size := by omega
    have hbyte := getElem?_origins xs' ys' p' hlastByte
    rwa [hmap', ← hxs', hstop'] at hbyte
  have hlen : sourceLenAt text p' = some last.utf8Size := by
    have hmem : (p', last) ∈ marked 0 text := mem_of_getElem? hget'
    obtain ⟨front', behind, hsplit, hp⟩ := mem_marked hmem
    rw [Nat.zero_add] at hp
    rw [sourceLenAt, jsonEscapeAt_none h, hsplit, hp, dropBytes_byteLen]
    rfl
  have hlt : m.1 < m.2 := by
    rw [byteLen_append] at hend
    simp only [byteLen_cons, byteLen_nil] at hend
    omega
  refine ⟨(p, p' + last.utf8Size), ?_, ?_⟩
  · rw [Shadow.originalSpan]
    simp only [horigin, Option.getD_some, if_pos hlt, horigin', hlen, bind_eq_bind,
      bind_some]
  · have hnumber : (before ++ front).length = before.length + (front ++ [last]).length - 1 := by
      simp only [length_append, length_singleton]
      omega
    rw [hnumber] at hget'
    have hspans : Spans (marked 0 text) (visibleView text).text m
        ((p, first).1, (p', last).1 + (p', last).2.utf8Size) :=
      spans_of_ends (pairwise_marked 0 text) hview hbefore hend (by simp) hget hget'
    exact hspans

lemma marked_append (s t : Text) :
    marked offset (s ++ t) = marked offset s ++ marked (offset + byteLen s) t := by
  induction s generalizing offset with
  | nil => rfl
  | cons c s ih =>
    rw [cons_append, marked, marked, byteLen_cons, ih, Nat.add_assoc]
    split
    · rfl
    · rfl

lemma getElem?_marked (h : ∀ d ∈ before ++ c :: after, isDefaultIgnorable d = false) :
    (marked 0 (before ++ c :: after))[before.length]? = some (byteLen before, c) := by
  obtain ⟨hbefore, hrest⟩ := forall_mem_append.mp h
  obtain ⟨hc, -⟩ := forall_mem_cons.mp hrest
  have hlength : (marked 0 before).length = before.length := by
    have hmap := congrArg List.length (map_marked 0 before)
    rwa [length_map, filter_eq_self.mpr fun d hd => by rw [hbefore d hd]; rfl] at hmap
  rw [marked_append, getElem?_append_right (by omega), hlength, Nat.sub_self, Nat.zero_add,
    marked, if_neg (by rw [hc]; decide)]
  rfl

lemma plain_spans {text : Text} (h : ∀ c ∈ text, isDefaultIgnorable c = false)
    (hm : Aligned text m) : Spans (marked 0 text) text m m := by
  obtain ⟨hstart, hstop, hle⟩ := hm
  obtain ⟨before, mid, after, hview, hbefore, hend⟩ := exists_of_boundaries hstart hstop hle
  rcases eq_nil_or_concat' mid with rfl | ⟨front, last, rfl⟩
  · have heq : m.1 = m.2 := by
      rw [byteLen_nil] at hend
      omega
    obtain ⟨start, stop⟩ := m
    obtain rfl : start = stop := heq
    exact spans_of_empty rfl _
  obtain ⟨first, rest, hfirst⟩ : ∃ first rest, front ++ [last] = first :: rest :=
    exists_cons_of_ne_nil (by simp)
  have hhead : text = before ++ first :: (rest ++ after) := by
    rw [hview, hfirst]
    simp
  have htail : text = (before ++ front) ++ last :: after := by
    rw [hview]
    simp
  have hget : (marked 0 text)[before.length]? = some (byteLen before, first) := by
    rw [hhead]
    exact getElem?_marked (by rwa [← hhead])
  have hget' : (marked 0 text)[before.length + (front ++ [last]).length - 1]? =
      some (byteLen (before ++ front), last) := by
    have hnumber : before.length + (front ++ [last]).length - 1 = (before ++ front).length := by
      simp only [length_append, length_singleton]
      omega
    rw [hnumber, htail]
    exact getElem?_marked (by rwa [← htail])
  have hspans := spans_of_ends (pairwise_marked 0 text) hview hbefore hend (by simp) hget hget'
  have hspan : ((byteLen before, first).1, (byteLen (before ++ front), last).1 +
      (byteLen (before ++ front), last).2.utf8Size) = m := by
    refine Prod.ext hbefore ?_
    rw [← hend]
    simp [Nat.add_assoc]
  rwa [hspan] at hspans

/-! ### A pass -/

variable {sanitizer : Sanitizer} {pattern : Pattern} {text : Text}

def Sanitizer.viewSpans (sanitizer : Sanitizer) (text : Text) (pattern : Pattern) :
    Option (List Span) :=
  (Shadow.of text).bind fun shadow => sanitizer.spans text shadow pattern

/-- The spans cover the `k`-th visible character. -/
def Redacted (text : Text) (spans : List Span) (k : ℕ) : Prop :=
  ∃ place, (marked 0 text)[k]? = some place ∧
    ∀ i, place.1 ≤ i → i < place.1 + place.2.utf8Size → Covers spans i

lemma redacted_iff {spans : List Span} {view : Text} {Found : Span → Prop}
    (hview : (marked 0 text).map Prod.snd = view)
    (hleft : ∀ m, Found m → ∃ span ∈ spans, Spans (marked 0 text) view m span)
    (hright : ∀ span ∈ spans, ∃ m, Found m ∧ Spans (marked 0 text) view m span) (k : ℕ) :
    Redacted text spans k ↔ k < view.length ∧ ∃ m, Found m ∧ Matched view m k := by
  have hlength : (marked 0 text).length = view.length := by
    rw [← hview, length_map]
  constructor
  · rintro ⟨place, hplace, hcovers⟩
    have hsize := place.2.utf8Size_pos
    have hk := (List.getElem?_eq_some_iff.mp hplace).1
    obtain ⟨span, hspan, hle, hlt⟩ := hcovers place.1 (le_refl _) (by omega)
    obtain ⟨m, hm, hspans⟩ := hright span hspan
    exact ⟨by omega, m, hm, (hspans.matched k place hplace).mp ⟨hle, hlt⟩⟩
  · rintro ⟨hk, m, hm, hmatched⟩
    rw [← hlength] at hk
    obtain ⟨span, hspan, hspans⟩ := hleft m hm
    have hplace := getElem?_eq_getElem hk
    have hstart := ((hspans.matched k _ hplace).mpr hmatched).1
    have hend := hspans.whole k _ hplace hmatched
    refine ⟨_, hplace, fun i hle hlt => ⟨span, hspan, ?_, ?_⟩⟩
    · exact hstart.trans hle
    · exact lt_of_lt_of_le hlt hend

lemma viewSpans_spec (h : '\\' ∉ text) (sanitizer : Sanitizer) (pattern : Pattern) :
    ∃ spans, sanitizer.viewSpans text pattern = some spans ∧ ∀ k, Redacted text spans k ↔
      k < (visibleView text).text.length ∧
        ∃ m, Exposed sanitizer (visibleView text).text pattern m ∧
          Matched (visibleView text).text m k := by
  have hview : (marked 0 text).map Prod.snd = (visibleView text).text := map_marked 0 text
  rcases shadow_of_eq h with ⟨hnone, hplain⟩ | hsome
  · have hself : (visibleView text).text = text :=
      filter_eq_self.mpr fun c hc => by rw [hplain c hc]; rfl
    obtain ⟨spans, hspans, hmem⟩ := exposed_spec sanitizer text pattern
    refine ⟨spans, ?_, redacted_iff hview ?_ ?_⟩
    · rw [Sanitizer.viewSpans, hnone]
      exact hspans
    · rw [hself]
      exact fun m hm => ⟨m, (hmem m).mpr hm, plain_spans hplain (aligned_of_mem_matches hm.1)⟩
    · rw [hself]
      intro m hm
      have hexposed := (hmem m).mp hm
      exact ⟨m, hexposed, plain_spans hplain (aligned_of_mem_matches hexposed.1)⟩
  · obtain ⟨found, hfound, hmem⟩ := exposed_spec sanitizer (visibleView text).text pattern
    obtain ⟨spans, hspans, hleft, hright⟩ := exists_mapM fun m hm =>
      originalSpan_spans h (aligned_of_mem_matches ((hmem m).mp hm).1)
    refine ⟨spans, ?_, redacted_iff hview (fun m hm => ?_) fun span hspan => ?_⟩
    · rw [Sanitizer.viewSpans, hsome]
      simp only [bind_some, Sanitizer.spans, hfound, bind_eq_bind]
      exact hspans
    · obtain ⟨span, hspan, -, hfits⟩ := hleft m ((hmem m).mpr hm)
      exact ⟨span, hspan, hfits⟩
    · obtain ⟨m, hm, -, hfits⟩ := hright span hspan
      exact ⟨m, (hmem m).mp hm, hfits⟩

lemma viewSpans_subset (isJson : Text → Bool) {spans : List Span}
    (hspans : sanitizer.viewSpans text pattern = some spans) :
    ∃ all, sanitizer.passSpans isJson text pattern = some all ∧ ∀ span ∈ spans, span ∈ all := by
  obtain ⟨shadow, all, hshadow, hall, -⟩ := passSpans_spec isJson sanitizer text pattern
  refine ⟨all, hall, ?_⟩
  rw [Sanitizer.viewSpans, hshadow, bind_some] at hspans
  rw [Sanitizer.passSpans, hshadow] at hall
  simp only [bind_eq_bind, bind_some, hspans] at hall
  split at hall
  · rw [← some.inj hall]
    exact fun span hspan => hspan
  · obtain ⟨plain, -, hrest⟩ := Option.bind_eq_some_iff.mp hall
    obtain ⟨kept, -, hsum⟩ := Option.bind_eq_some_iff.mp hrest
    rw [← some.inj hsum]
    exact fun span hspan => mem_append_left _ hspan

lemma stripControl_eq (hregex : sanitizer.escapes.captures text = []) :
    sanitizer.stripControl text = some (stripFrom 0 0 text) := by
  have hwhole : splice text [] 0 [] = some text := by
    have hslice := slice_eq [] text []
    simp only [nil_append, append_nil, byteLen_nil, Nat.zero_add] at hslice
    exact hslice
  rw [Sanitizer.stripControl, Regex.removeAll, hregex, map_nil, hwhole]
  rfl

lemma escapeFree_of_notMem (h : esc ∉ text) : EscapeFree text := by
  rintro before sequence after rfl hsequence
  refine h (mem_append_left _ (mem_append_right _ ?_))
  cases hsequence with
  | csi | osc | two => exact mem_cons_self

/-- Insert any invisible characters into a text without backslashes and terminal escapes: what
its view reads stays, and each visible character that the view gets redacted in the one text is
redacted in the other. -/
theorem insertion_hides_nothing (sanitizer : Sanitizer) {t t' : Text}
    (hregex : ∀ text, EscapeFree text → sanitizer.escapes.captures text = [])
    (hslash : '\\' ∉ t) (hfree : EscapeFree t) (h : Inserted t t') :
    ∃ s s', sanitizer.stripControl t = some s ∧ sanitizer.stripControl t' = some s' ∧
      viewText s = some (reading t) ∧ viewText s' = some (reading t) ∧
      ∀ (pattern : Pattern) (isJson : Text → Bool), ∃ spans spans' all',
        sanitizer.viewSpans s pattern = some spans ∧
        sanitizer.viewSpans s' pattern = some spans' ∧
        sanitizer.passSpans isJson s' pattern = some all' ∧
        ∀ k, Redacted s spans k → Redacted s' spans' k ∧ Redacted s' all' k := by
  have hslash' : '\\' ∉ t' := fun hmem => (h.mem hmem).elim hslash (by decide)
  have hview : ∀ x, reading x = reading t →
      (visibleView (stripFrom 0 0 x)).text = reading t := by
    intro x hx
    rw [← hx]
    exact filter_stripFrom x 0 0 (by rw [take_zero]; exact forall_mem_nil _)
  have hs : '\\' ∉ stripFrom 0 0 t := notMem_strip hslash
  have hs' : '\\' ∉ stripFrom 0 0 t' := notMem_strip hslash'
  refine ⟨_, _, stripControl_eq (hregex t hfree), stripControl_eq (hregex t' (hfree.inserted h)),
    ?_, ?_, fun pattern isJson => ?_⟩
  · rw [viewText_eq hs]
    exact congrArg some (hview t rfl)
  · rw [viewText_eq hs']
    exact congrArg some (hview t' h.reading_eq)
  · obtain ⟨spans, hspans, hredacted⟩ := viewSpans_spec hs sanitizer pattern
    obtain ⟨spans', hspans', hredacted'⟩ := viewSpans_spec hs' sanitizer pattern
    obtain ⟨all', hall', hsubset⟩ := viewSpans_subset isJson hspans'
    refine ⟨spans, spans', all', hspans, hspans', hall', fun k hk => ?_⟩
    have hk' : Redacted (stripFrom 0 0 t') spans' k := by
      rw [hredacted', hview t' h.reading_eq, ← hview t rfl, ← hredacted]
      exact hk
    refine ⟨hk', ?_⟩
    obtain ⟨place, hplace, hcovers⟩ := hk'
    refine ⟨place, hplace, fun i hle hlt => ?_⟩
    obtain ⟨span, hspan, hin⟩ := hcovers i hle hlt
    exact ⟨span, hsubset span hspan, hin⟩

lemma inserted_key : Inserted "KEY=ab".toList "KEY=\u200Ba\uFE0Fb".toList :=
  .keep 'K' (.keep 'E' (.keep 'Y' (.keep '=' (.insert (by decide) (.keep 'a'
    (.insert (by decide) (.keep 'b' .nil)))))))

theorem insertion_hides_no_key :
    ∃ s s', keySanitizer.stripControl "KEY=ab".toList = some s ∧
      keySanitizer.stripControl "KEY=\u200Ba\uFE0Fb".toList = some s' ∧
      viewText s = some (reading "KEY=ab".toList) ∧ viewText s' = some (reading "KEY=ab".toList) ∧
      ∀ (pattern : Pattern) (isJson : Text → Bool), ∃ spans spans' all',
        keySanitizer.viewSpans s pattern = some spans ∧
        keySanitizer.viewSpans s' pattern = some spans' ∧
        keySanitizer.passSpans isJson s' pattern = some all' ∧
        ∀ k, Redacted s spans k → Redacted s' spans' k ∧ Redacted s' all' k :=
  insertion_hides_nothing keySanitizer (fun _ _ => rfl) (by decide)
    (escapeFree_of_notMem (by decide)) inserted_key

end Sanitize
