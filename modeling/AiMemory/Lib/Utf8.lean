/-
UTF-8 text as a list of characters that is addressed by byte offsets.
-/
import Mathlib.Data.List.Range
import AiMemory.Lib.Text

open List

namespace Utf8

/-! ### The encoding -/

def byteLen : Text → ℕ
  | [] => 0
  | c :: text => c.utf8Size + byteLen text

def bytes (text : Text) : List UInt8 := text.flatMap String.utf8EncodeChar

@[simp] lemma byteLen_nil : byteLen [] = 0 := rfl

@[simp] lemma byteLen_cons (c : Char) (text : Text) :
    byteLen (c :: text) = c.utf8Size + byteLen text := rfl

lemma length_le_byteLen (s : Text) : s.length ≤ byteLen s := by
  induction s with
  | nil => exact Nat.zero_le _
  | cons c s ih =>
    have hsize := c.utf8Size_pos
    rw [byteLen_cons, length_cons]
    omega

@[simp] lemma byteLen_append (s t : Text) : byteLen (s ++ t) = byteLen s + byteLen t := by
  induction s with
  | nil => simp
  | cons c s ih =>
    simp only [cons_append, byteLen_cons, ih]
    omega

@[simp] lemma bytes_append (s t : Text) : bytes (s ++ t) = bytes s ++ bytes t :=
  flatMap_append

@[simp] lemma bytes_cons (c : Char) (t : Text) :
    bytes (c :: t) = String.utf8EncodeChar c ++ bytes t := rfl

@[simp] lemma length_bytes (text : Text) : (bytes text).length = byteLen text := by
  induction text with
  | nil => rfl
  | cons c text ih => simp [ih]

lemma fromUTF8?_bytes (s : Text) :
    String.fromUTF8? ⟨(bytes s).toArray⟩ = some (String.ofList s) := by
  have hdata : (⟨(bytes s).toArray⟩ : ByteArray) = (String.ofList s).toByteArray := by
    show _ = (bytes s).toByteArray
    rw [ByteArray.ext_iff, data_toByteArray]
  rw [hdata, String.fromUTF8?, dif_pos (String.ofList s).isValidUTF8]
  rfl

lemma utf8EncodeChar_of_lt {c : Char} (h : c.toNat < 128) :
    String.utf8EncodeChar c = [.ofNat c.toNat] ∧ c.utf8Size = 1 := by
  have hle : c.val.toNat ≤ 0x7f := Nat.le_of_lt_succ h
  have henc : String.utf8EncodeChar c = [.ofNat c.toNat] := by
    simp only [String.utf8EncodeChar, if_pos hle]
    rfl
  refine ⟨henc, ?_⟩
  rw [← String.length_utf8EncodeChar, henc]
  rfl

lemma utf8EncodeChar_cases (c : Char) :
    (c.utf8Size = 1 ∧ String.utf8EncodeChar c = [.ofNat c.toNat] ∧ c.toNat < 128) ∨
      ∀ b ∈ String.utf8EncodeChar c, 128 ≤ b.toNat := by
  by_cases h7 : c.val.toNat ≤ 0x7f
  · have hlt : c.toNat < 128 := Nat.lt_succ_of_le h7
    exact .inl ⟨(utf8EncodeChar_of_lt hlt).2, (utf8EncodeChar_of_lt hlt).1, hlt⟩
  · right
    intro b hb
    simp only [String.utf8EncodeChar, if_neg h7] at hb
    split at hb
    · simp only [mem_cons, not_mem_nil, or_false] at hb
      rcases hb with rfl | rfl <;> simp only [UInt8.toNat_ofNat'] <;> omega
    · split at hb
      · simp only [mem_cons, not_mem_nil, or_false] at hb
        rcases hb with rfl | rfl | rfl <;> simp only [UInt8.toNat_ofNat'] <;> omega
      · simp only [mem_cons, not_mem_nil, or_false] at hb
        rcases hb with rfl | rfl | rfl | rfl <;> simp only [UInt8.toNat_ofNat'] <;> omega

variable {b : UInt8} {text : Text} {pos start stop : ℕ} {intervals : List (ℕ × ℕ)}

lemma eq_of_ascii_mem {c : Char} (hb : b ∈ String.utf8EncodeChar c)
    (hascii : b.toNat < 128) : c = Char.ofNat b.toNat := by
  rcases utf8EncodeChar_cases c with ⟨-, hencode, hlt⟩ | hhigh
  · rw [hencode, mem_singleton] at hb
    have hvalue : b.toNat = c.toNat := by
      rw [hb, UInt8.toNat_ofNat']
      omega
    rw [hvalue, Char.ofNat_toNat]
  · have hge := hhigh b hb
    omega


/-- A byte offset at which no character is cut. -/
def Boundary (text : Text) (pos : ℕ) : Prop :=
  ∃ before after, text = before ++ after ∧ byteLen before = pos

lemma boundary_zero (text : Text) : Boundary text 0 := ⟨[], text, rfl, rfl⟩

lemma boundary_end (text : Text) : Boundary text (byteLen text) :=
  ⟨text, [], by simp, rfl⟩

lemma Boundary.le (h : Boundary text pos) : pos ≤ byteLen text := by
  obtain ⟨before, after, rfl, rfl⟩ := h
  simp

lemma Boundary.next (before after : Text) (c : Char) :
    Boundary (before ++ c :: after) (byteLen before + c.utf8Size) :=
  ⟨before ++ [c], after, by simp, by simp⟩

lemma exists_of_ascii (h : (bytes text)[pos]? = some b) (hb : b.toNat < 128) :
    ∃ before c after, text = before ++ c :: after ∧ byteLen before = pos ∧ c.utf8Size = 1 := by
  induction text generalizing pos with
  | nil => simp [bytes] at h
  | cons c text ih =>
    rw [bytes_cons] at h
    by_cases hpos : pos < (String.utf8EncodeChar c).length
    · rw [getElem?_append_left hpos] at h
      rcases utf8EncodeChar_cases c with ⟨hsize, henc, -⟩ | hhigh
      · rw [henc] at hpos
        refine ⟨[], c, text, rfl, ?_, hsize⟩
        simp only [length_singleton] at hpos
        rw [byteLen_nil]
        omega
      · have := hhigh b (mem_of_getElem? h)
        omega
    · rw [getElem?_append_right (by omega), String.length_utf8EncodeChar] at h
      rw [String.length_utf8EncodeChar] at hpos
      obtain ⟨before, d, after, rfl, hbefore, hsize⟩ := ih h
      refine ⟨c :: before, d, after, rfl, ?_, hsize⟩
      rw [byteLen_cons, hbefore]
      omega

lemma boundary_of_ascii (h : (bytes text)[pos]? = some b) (hb : b.toNat < 128) :
    Boundary text pos ∧ Boundary text (pos + 1) := by
  obtain ⟨before, c, after, rfl, rfl, hsize⟩ := exists_of_ascii h hb
  refine ⟨⟨before, c :: after, rfl, rfl⟩, ?_⟩
  have := Boundary.next before after c
  rwa [hsize] at this

/-! ### Slices -/

def dropBytes : Text → ℕ → Option Text
  | text, 0 => some text
  | [], _ + 1 => none
  | c :: text, n + 1 =>
    if c.utf8Size ≤ n + 1 then dropBytes text (n + 1 - c.utf8Size) else none

def takeBytes : Text → ℕ → Option Text
  | _, 0 => some []
  | [], _ + 1 => none
  | c :: text, n + 1 =>
    if c.utf8Size ≤ n + 1 then (takeBytes text (n + 1 - c.utf8Size)).map (c :: ·) else none

def slice (text : Text) (start stop : ℕ) : Option Text :=
  if start ≤ stop then (dropBytes text start).bind (takeBytes · (stop - start)) else none

lemma dropBytes_byteLen (before after : Text) :
    dropBytes (before ++ after) (byteLen before) = some after := by
  induction before with
  | nil => cases after <;> rfl
  | cons c before ih =>
    have hpos := c.utf8Size_pos
    obtain ⟨n, hn⟩ : ∃ n, byteLen (c :: before) = n + 1 :=
      ⟨byteLen (c :: before) - 1, by rw [byteLen_cons]; omega⟩
    rw [hn, cons_append, dropBytes, if_pos (by rw [byteLen_cons] at hn; omega), ← ih]
    congr 1
    rw [byteLen_cons] at hn
    omega

lemma takeBytes_byteLen (before after : Text) :
    takeBytes (before ++ after) (byteLen before) = some before := by
  induction before with
  | nil => cases after <;> rfl
  | cons c before ih =>
    have hpos := c.utf8Size_pos
    obtain ⟨n, hn⟩ : ∃ n, byteLen (c :: before) = n + 1 :=
      ⟨byteLen (c :: before) - 1, by rw [byteLen_cons]; omega⟩
    have hrest : n + 1 - c.utf8Size = byteLen before := by
      rw [byteLen_cons] at hn
      omega
    rw [hn, cons_append, takeBytes, if_pos (by rw [byteLen_cons] at hn; omega), hrest, ih]
    rfl

lemma append_eq_append_of_byteLen {s t s' t' : Text} (h : s ++ t = s' ++ t')
    (hlen : byteLen s = byteLen s') : s = s' ∧ t = t' := by
  have hdrop := dropBytes_byteLen s t
  rw [h, hlen, dropBytes_byteLen] at hdrop
  cases hdrop
  exact ⟨append_cancel_right h, rfl⟩

lemma slice_eq (before mid after : Text) :
    slice (before ++ mid ++ after) (byteLen before) (byteLen before + byteLen mid) = some mid := by
  rw [slice, if_pos (by omega), append_assoc, dropBytes_byteLen]
  show takeBytes (mid ++ after) _ = _
  rw [show byteLen before + byteLen mid - byteLen before = byteLen mid by omega, takeBytes_byteLen]

lemma exists_of_boundaries (hstart : Boundary text start)
    (hstop : Boundary text stop) (hle : start ≤ stop) :
    ∃ before mid after, text = before ++ mid ++ after ∧ byteLen before = start ∧
      byteLen before + byteLen mid = stop := by
  obtain ⟨before, rest, rfl, rfl⟩ := hstart
  obtain ⟨before', after, heq, rfl⟩ := hstop
  rcases append_eq_append_iff.mp heq with ⟨mid, rfl, rfl⟩ | ⟨mid, rfl, rfl⟩
  · exact ⟨before, mid, after, by simp, rfl, by simp⟩
  · -- the second cut is not before the first, so nothing is between them
    simp only [byteLen_append] at hle
    have hmid : mid = [] := by
      cases mid with
      | nil => rfl
      | cons c mid =>
        have := c.utf8Size_pos
        simp only [byteLen_cons] at hle
        omega
    subst hmid
    exact ⟨before', [], rest, by simp, by simp, by simp⟩

lemma exists_slice (hstart : Boundary text start)
    (hstop : Boundary text stop) (hle : start ≤ stop) :
    ∃ mid, slice text start stop = some mid := by
  obtain ⟨before, mid, after, rfl, rfl, rfl⟩ := exists_of_boundaries hstart hstop hle
  exact ⟨mid, slice_eq before mid after⟩

lemma exists_dropBytes (h : Boundary text pos) :
    ∃ before after, text = before ++ after ∧ byteLen before = pos ∧
      dropBytes text pos = some after := by
  obtain ⟨before, after, rfl, rfl⟩ := h
  exact ⟨before, after, rfl, rfl, dropBytes_byteLen before after⟩

lemma boundary_of_dropBytes {text rest : Text}
    (h : dropBytes text pos = some rest) : Boundary text pos := by
  induction text generalizing pos with
  | nil =>
    cases pos with
    | zero => exact boundary_zero []
    | succ pos => cases h
  | cons c text ih =>
    cases pos with
    | zero => exact boundary_zero _
    | succ pos =>
      rw [dropBytes] at h
      split at h
      · rename_i hsize
        obtain ⟨before, after, rfl, hlen⟩ := ih h
        exact ⟨c :: before, after, rfl, by rw [byteLen_cons, hlen]; omega⟩
      · cases h

instance (text : Text) (pos : ℕ) : Decidable (Boundary text pos) :=
  decidable_of_iff ((dropBytes text pos).isSome = true) (by
    constructor
    · intro h
      obtain ⟨rest, hrest⟩ := Option.isSome_iff_exists.mp h
      exact boundary_of_dropBytes hrest
    · intro h
      obtain ⟨-, rest, -, -, hrest⟩ := exists_dropBytes h
      rw [hrest]
      rfl)

lemma bytes_slice {text mid : Text} (hstart : Boundary text start)
    (hstop : Boundary text stop) (hle : start ≤ stop) (h : slice text start stop = some mid) :
    bytes mid = ((bytes text).drop start).take (stop - start) := by
  obtain ⟨before, mid', after, rfl, rfl, rfl⟩ := exists_of_boundaries hstart hstop hle
  rw [slice_eq] at h
  obtain rfl := Option.some.inj h
  rw [bytes_append, bytes_append, append_assoc, ← length_bytes before, drop_left,
    ← length_bytes mid', Nat.add_sub_cancel_left, take_left]

/-! ### Replacing intervals -/

/-- The text from `copied` on, with each of the intervals replaced by `marker`. -/
def splice (text marker : Text) : ℕ → List (ℕ × ℕ) → Option Text
  | copied, [] => slice text copied (byteLen text)
  | copied, (start, stop) :: rest => do
    let kept ← slice text copied start
    let tail ← splice text marker stop rest
    some (kept ++ marker ++ tail)

/-- What stands where in a spliced text: a byte of the text, by its offset, or a marker. -/
def layout (size : ℕ) : ℕ → List (ℕ × ℕ) → List (Option ℕ)
  | copied, [] => (List.range' copied (size - copied)).map some
  | copied, (start, stop) :: rest =>
    (List.range' copied (start - copied)).map some ++ none :: layout size stop rest

def place (text marker : Text) : Option ℕ → List UInt8
  | some i => (bytes text)[i]?.toList
  | none => bytes marker

def uncovered (intervals : List (ℕ × ℕ)) (i : ℕ) : Bool :=
  intervals.all fun span => !(span.1 ≤ i && i < span.2)

/-- Intervals on character boundaries, in order and without overlap. -/
structure Apart (text : Text) (intervals : List (ℕ × ℕ)) : Prop where
  aligned : ∀ span ∈ intervals, Boundary text span.1 ∧ Boundary text span.2 ∧ span.1 ≤ span.2
  ordered : intervals.Pairwise fun a b => a.2 ≤ b.1

lemma Apart.tail {span : ℕ × ℕ} {rest : List (ℕ × ℕ)}
    (h : Apart text (span :: rest)) : Apart text rest :=
  ⟨fun s hs => h.aligned s (mem_cons_of_mem _ hs), (pairwise_cons.mp h.ordered).2⟩

lemma flatMap_range' (text marker : Text) (start n : ℕ) (h : start + n ≤ byteLen text) :
    ((List.range' start n).map some).flatMap (place text marker) =
      ((bytes text).drop start).take n := by
  induction n generalizing start with
  | zero => simp
  | succ n ih =>
    have hlt : start < (bytes text).length := by
      rw [length_bytes]
      omega
    rw [range'_succ, map_cons, flatMap_cons, ih (start + 1) (by omega),
      drop_eq_getElem_cons hlt, take_succ_cons]
    simp [place, getElem?_eq_getElem hlt]

lemma exists_splice (marker : Text)
    (h : Apart text intervals) {copied : ℕ} (hcopied : Boundary text copied)
    (hfirst : ∀ span ∈ intervals, copied ≤ span.1) :
    ∃ out, splice text marker copied intervals = some out ∧
      bytes out = (layout (byteLen text) copied intervals).flatMap (place text marker) := by
  induction intervals generalizing copied with
  | nil =>
    have hle := hcopied.le
    obtain ⟨mid, hmid⟩ := exists_slice hcopied (boundary_end text) hle
    refine ⟨mid, hmid, ?_⟩
    rw [bytes_slice hcopied (boundary_end text) hle hmid, layout, flatMap_range' _ _ _ _ (by omega)]
  | cons span rest ih =>
    obtain ⟨hstart, hstop, hle⟩ := h.aligned span mem_cons_self
    have hbefore := hfirst span mem_cons_self
    obtain ⟨kept, hkept⟩ := exists_slice hcopied hstart hbefore
    obtain ⟨tail, htail, hbytes⟩ := ih h.tail hstop (pairwise_cons.mp h.ordered).1
    refine ⟨kept ++ marker ++ tail, ?_, ?_⟩
    · simp only [splice, hkept, htail, Option.bind_eq_bind, Option.bind_some]
    · have hsize := hstart.le
      rw [layout, flatMap_append, flatMap_range' _ _ _ _ (by omega), flatMap_cons,
        bytes_append, bytes_append, hbytes, bytes_slice hcopied hstart hbefore hkept,
        append_assoc]
      rfl

lemma filter_range'_eq_self {p : ℕ → Bool} {start n : ℕ}
    (h : ∀ i, start ≤ i → i < start + n → p i) :
    (List.range' start n).filter p = List.range' start n := by
  rw [filter_eq_self]
  intro i hi
  obtain ⟨hle, hlt⟩ := mem_range'_1.mp hi
  exact h i hle hlt

lemma range'_append_of_le {a b c : ℕ} (hab : a ≤ b) (hbc : b ≤ c) :
    List.range' a (b - a) ++ List.range' b (c - b) = List.range' a (c - a) := by
  have happend := range'_append_1 (s := a) (m := b - a) (n := c - b)
  rwa [show a + (b - a) = b by omega, show b - a + (c - b) = c - a by omega] at happend

lemma filterMap_map_some (l : List ℕ) : (l.map some).filterMap id = l := by
  rw [filterMap_map]
  exact filterMap_some

lemma kept_layout (h : Apart text intervals)
    {copied : ℕ} (hfirst : ∀ span ∈ intervals, copied ≤ span.1) :
    (layout (byteLen text) copied intervals).filterMap id =
      (List.range' copied (byteLen text - copied)).filter (uncovered intervals) := by
  induction intervals generalizing copied with
  | nil =>
    rw [filter_range'_eq_self (p := uncovered []) fun i _ _ => rfl, layout, filterMap_map_some]
  | cons span rest ih =>
    obtain ⟨start, stop⟩ := span
    obtain ⟨-, hstop, hle⟩ := h.aligned _ mem_cons_self
    have hbefore := hfirst _ mem_cons_self
    have hafter := (pairwise_cons.mp h.ordered).1
    have hsize := hstop.le
    dsimp only at hle hbefore hafter hsize
    have hcut : List.range' copied (byteLen text - copied) =
        List.range' copied (start - copied) ++ (List.range' start (stop - start) ++
          List.range' stop (byteLen text - stop)) := by
      have hmid : List.range' start (stop - start) ++ List.range' stop (byteLen text - stop) =
          List.range' start (byteLen text - start) := by
        exact range'_append_of_le hle hsize
      rw [hmid]
      exact (range'_append_of_le hbefore (hle.trans hsize)).symm
    have hleft : (List.range' copied (start - copied)).filter (uncovered ((start, stop) :: rest)) =
        List.range' copied (start - copied) := by
      refine filter_range'_eq_self fun i hi hlt => ?_
      simp only [uncovered, all_eq_true, mem_cons, forall_eq_or_imp]
      refine ⟨by simp; omega, fun s hs => ?_⟩
      have := hafter s hs
      simp
      omega
    have hinside : (List.range' start (stop - start)).filter (uncovered ((start, stop) :: rest)) =
        [] := by
      rw [filter_eq_nil_iff]
      intro i hi
      obtain ⟨hi, hlt⟩ := mem_range'_1.mp hi
      simp only [uncovered, all_cons, Bool.and_eq_true, not_and]
      intro hout
      simp at hout
      omega
    have hright : (List.range' stop (byteLen text - stop)).filter
        (uncovered ((start, stop) :: rest)) =
          (List.range' stop (byteLen text - stop)).filter (uncovered rest) := by
      refine filter_congr fun i hi => ?_
      obtain ⟨hi, -⟩ := mem_range'_1.mp hi
      rw [uncovered, all_cons, show (!(decide (start ≤ i) && decide (i < stop))) = true by
        simp; omega]
      rfl
    rw [hcut, filter_append, filter_append, hleft, hinside, hright, nil_append,
      layout, filterMap_append, filterMap_map_some, ← ih h.tail hafter]
    rfl

lemma count_layout (size copied : ℕ) (intervals : List (ℕ × ℕ)) :
    (layout size copied intervals).count none = intervals.length := by
  induction intervals generalizing copied with
  | nil => simp [layout, count_eq_zero]
  | cons span rest ih =>
    have hnone : ((List.range' copied (span.1 - copied)).map some).count none = 0 := by
      simp [count_eq_zero]
    rw [layout, count_append, hnone, count_cons_self, ih]
    simp

end Utf8
