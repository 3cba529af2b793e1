/-
Bounded bodies that keep both ends (`ai-memory-core`, `sanitize.rs`).

A body over its cap is cut in the middle.  The reserve pays for the marker, its number of up
to nineteen digits and the up to three bytes by which the tail may start early.
-/
import AiMemory.Core.Sanitize
import AiMemory.Store.Text
import Mathlib

open Utf8 List

namespace Sanitize

/-- `char_indices`. -/
def charIndices : ℕ → Text → List (ℕ × Char)
  | _, [] => []
  | index, c :: rest => (index, c) :: charIndices (index + c.utf8Size) rest

def headEnd (limit : ℕ) : ℕ → List (ℕ × Char) → ℕ
  | last, [] => last
  | last, (index, c) :: rest =>
    let next := index + c.utf8Size
    if limit < next then last else headEnd limit next rest

def tailStart (target : ℕ) : ℕ → List (ℕ × Char) → ℕ
  | last, [] => last
  | _, (index, _) :: rest => if index ≤ target then index else tailStart target index rest

def markerReserve : ℕ := 48

def markerOpen : Text := "\n...[truncated ".toList
def markerClose : Text := " bytes]...\n".toList

def marker (omitted : ℕ) : Text := markerOpen ++ Nat.toDigits 10 omitted ++ markerClose

variable (input : String) (max : ℕ)

def truncateUtf8BytesHeadTail : Option String :=
  if input.utf8ByteSize ≤ max then some input
  else if max < 64 then some (Store.truncateUtf8Bytes input max)
  else do
    let half := (max - markerReserve) / 2
    let indices := charIndices 0 input.toList
    let headEnd := headEnd half 0 indices
    let total := input.utf8ByteSize
    let tailStart := tailStart (total - half) total indices.reverse
    let head ← slice input.toList 0 headEnd
    let tail ← slice input.toList tailStart total
    some (String.ofList (head ++ marker (tailStart - headEnd) ++ tail))

lemma charIndices_append (index : ℕ) (s t : Text) :
    charIndices index (s ++ t) = charIndices index s ++ charIndices (index + byteLen s) t := by
  induction s generalizing index with
  | nil => rfl
  | cons c s ih => rw [cons_append, charIndices, charIndices, ih, byteLen_cons, Nat.add_assoc,
      cons_append]

lemma headEnd_spec {limit : ℕ} (before after : Text) (h : byteLen before ≤ limit) :
    Boundary (before ++ after)
        (headEnd limit (byteLen before) (charIndices (byteLen before) after)) ∧
      headEnd limit (byteLen before) (charIndices (byteLen before) after) ≤ limit := by
  induction after generalizing before with
  | nil => exact ⟨⟨before, [], rfl, rfl⟩, h⟩
  | cons c after ih =>
    rw [charIndices, headEnd]
    split
    · exact ⟨⟨before, c :: after, rfl, rfl⟩, h⟩
    · rename_i hfits
      have hnext : byteLen before + c.utf8Size = byteLen (before ++ [c]) := by simp
      rw [hnext] at hfits ⊢
      have hrest := ih (before ++ [c]) (by omega)
      rwa [append_assoc] at hrest

lemma tailStart_spec {text : Text} {target : ℕ} (h : target < byteLen text) :
    Boundary text (tailStart target (byteLen text) (charIndices 0 text).reverse) ∧
      tailStart target (byteLen text) (charIndices 0 text).reverse ≤ target ∧
      target ≤ tailStart target (byteLen text) (charIndices 0 text).reverse + 3 := by
  induction text using List.reverseRecOn with
  | nil => exact absurd h (Nat.not_lt_zero _)
  | append_singleton init c ih =>
    have hlast : (charIndices 0 (init ++ [c])).reverse =
        (byteLen init, c) :: (charIndices 0 init).reverse := by
      rw [charIndices_append, reverse_append, Nat.zero_add]
      rfl
    rw [hlast, tailStart]
    rw [byteLen_append, byteLen_cons, byteLen_nil] at h
    split
    · rename_i hreached
      have hsize := c.utf8Size_le_four
      exact ⟨⟨init, [c], rfl, rfl⟩, hreached, by omega⟩
    · rename_i hnot
      obtain ⟨⟨before, after, hinit, hlen⟩, hle, hnear⟩ := ih (by omega)
      exact ⟨⟨before, after ++ [c], by rw [← append_assoc, ← hinit], hlen⟩, hle, hnear⟩

lemma byteLen_of_ascii {s : Text} (h : ∀ c ∈ s, c.toNat < 128) : byteLen s = s.length := by
  induction s with
  | nil => rfl
  | cons c s ih =>
    obtain ⟨hc, hs⟩ := forall_mem_cons.mp h
    rw [byteLen_cons, length_cons, ih hs, (utf8EncodeChar_of_lt hc).2, Nat.add_comm]

lemma length_toDigits_le {omitted : ℕ} (h : omitted < 2 ^ 63) :
    (Nat.toDigits 10 omitted).length ≤ 19 := by
  have hlt : (2 : ℕ) ^ 63 < 10 ^ 19 := by norm_num
  exact Nat.toDigits_length 10 omitted 19 (by decide) (h.trans hlt)

lemma ascii_of_mem_toDigits {n : ℕ} {c : Char} (h : c ∈ Nat.toDigits 10 n) : c.toNat < 128 := by
  have hdigit := Nat.isDigit_of_mem_toDigits (by decide) (by decide) h
  simp only [Char.isDigit, Bool.and_eq_true, decide_eq_true_eq, ge_iff_le,
    UInt32.le_iff_toNat_le] at hdigit
  exact Nat.lt_of_le_of_lt hdigit.2 (show '9'.toNat < 128 by decide)

lemma byteLen_marker_le {omitted : ℕ} (h : omitted < 2 ^ 63) : byteLen (marker omitted) ≤ 45 := by
  have hdigits := length_toDigits_le h
  have hopen : byteLen markerOpen = 15 := by decide
  have hclose : byteLen markerClose = 11 := by decide
  rw [marker, byteLen_append, byteLen_append, hopen, hclose,
    byteLen_of_ascii fun c hc => ascii_of_mem_toDigits hc]
  omega

/-! ### The output -/

theorem utf8ByteSize_ofList (s : Text) : (String.ofList s).utf8ByteSize = byteLen s := by
  have hdata := congrArg Array.size (data_toByteArray (l := bytes s))
  rw [← String.size_toByteArray, String.toByteArray_ofList]
  exact hdata.trans (length_bytes s)

lemma byteLen_toList (s : String) : byteLen s.toList = s.utf8ByteSize := by
  rw [← utf8ByteSize_ofList, String.ofList_toList]

lemma byteLen_takeBytes (limit : ℕ) (s : Text) : byteLen (Store.takeBytes limit s) ≤ limit := by
  induction s generalizing limit with
  | nil => exact Nat.zero_le _
  | cons c s ih =>
    rw [Store.takeBytes]
    split
    · have hrest := ih (limit - c.utf8Size)
      rw [byteLen_cons]
      omega
    · exact Nat.zero_le _

lemma utf8ByteSize_truncateUtf8Bytes :
    (Store.truncateUtf8Bytes input max).utf8ByteSize ≤ max := by
  rw [Store.truncateUtf8Bytes]
  split
  · assumption
  split
  · exact Nat.zero_le _
  · rename_i hmax
    have hellipsis : "…".utf8ByteSize = Char.utf8Size '…' := by decide
    have htaken := byteLen_takeBytes (max - Char.utf8Size '…') input.toList
    rw [String.utf8ByteSize_append, utf8ByteSize_ofList, hellipsis]
    omega

lemma truncateUtf8BytesHeadTail_of_long {input : String} {max : ℕ} (hmax : 64 ≤ max)
    (hlong : max < input.utf8ByteSize) :
    ∃ head mid tail, input.toList = head ++ mid ++ tail ∧ truncateUtf8BytesHeadTail input max =
        some (String.ofList (head ++ marker (byteLen mid) ++ tail)) ∧
      byteLen head + byteLen tail ≤ max - 45 := by
  set half := (max - markerReserve) / 2 with hhalf
  have hreserve : markerReserve = 48 := rfl
  have htotal := byteLen_toList input
  obtain ⟨hhead, hfits⟩ := headEnd_spec [] input.toList (Nat.zero_le half)
  obtain ⟨htail, hreached, hnear⟩ :=
    tailStart_spec (show input.utf8ByteSize - half < byteLen input.toList by omega)
  simp only [byteLen_nil, nil_append, htotal] at hhead hfits htail hreached hnear
  -- the head ends before the tail starts, so the three pieces are the whole input
  obtain ⟨head, mid, tail, htext, hheadLen, hmidLen⟩ := exists_of_boundaries hhead htail (by omega)
  have htailLen : byteLen head + byteLen mid + byteLen tail = input.utf8ByteSize := by
    rw [← htotal, htext, byteLen_append, byteLen_append]
  have hfirst : slice input.toList 0 (byteLen head) = some head := by
    have hslice := slice_eq [] head (mid ++ tail)
    rwa [nil_append, ← append_assoc, ← htext, byteLen_nil, Nat.zero_add] at hslice
  have hlast : slice input.toList (byteLen head + byteLen mid) input.utf8ByteSize = some tail := by
    have hslice := slice_eq (head ++ mid) tail []
    rwa [append_nil, ← htext, byteLen_append, htailLen] at hslice
  refine ⟨head, mid, tail, htext, ?_, by omega⟩
  rw [truncateUtf8BytesHeadTail, if_neg (by omega), if_neg (by omega)]
  simp only [← hhalf, ← hheadLen, ← hmidLen, hfirst, hlast, Option.bind_eq_bind, Option.bind_some,
    Nat.add_sub_cancel_left]

lemma truncateUtf8BytesHeadTail_le
    (hsize : input.utf8ByteSize < 2 ^ 63) :
    ∃ output, truncateUtf8BytesHeadTail input max = some output ∧ output.utf8ByteSize ≤ max := by
  by_cases hfits : input.utf8ByteSize ≤ max
  · exact ⟨input, if_pos hfits, hfits⟩
  by_cases hsmall : max < 64
  · refine ⟨_, ?_, utf8ByteSize_truncateUtf8Bytes input max⟩
    rw [truncateUtf8BytesHeadTail, if_neg hfits, if_pos hsmall]
  · obtain ⟨head, mid, tail, htext, hout, hends⟩ :=
      truncateUtf8BytesHeadTail_of_long (not_lt.mp hsmall) (not_le.mp hfits)
    have htotal := byteLen_toList input
    rw [htext, byteLen_append, byteLen_append] at htotal
    have hmarker := byteLen_marker_le (show byteLen mid < 2 ^ 63 by omega)
    refine ⟨_, hout, ?_⟩
    rw [utf8ByteSize_ofList, byteLen_append, byteLen_append]
    omega

/-- At most the cap, the input when it fits, and else its two ends around the exact count. -/
theorem truncateUtf8BytesHeadTail_exact (input : String) (max : ℕ)
    (hsize : input.utf8ByteSize < 2 ^ 63) :
    ∃ output, truncateUtf8BytesHeadTail input max = some output ∧ output.utf8ByteSize ≤ max ∧
      (input.utf8ByteSize ≤ max → output = input) ∧
      (64 ≤ max → max < input.utf8ByteSize → ∃ head mid tail,
        input.toList = head ++ mid ++ tail ∧
        output.toList = head ++ marker (byteLen mid) ++ tail) := by
  obtain ⟨output, hout, hle⟩ := truncateUtf8BytesHeadTail_le input max hsize
  refine ⟨output, hout, hle, fun hfits => ?_, fun hmax hlong => ?_⟩
  · rw [truncateUtf8BytesHeadTail, if_pos hfits] at hout
    exact (Option.some.inj hout).symm
  · obtain ⟨head, mid, tail, htext, hlongOut, -⟩ := truncateUtf8BytesHeadTail_of_long hmax hlong
    obtain rfl := Option.some.inj (hout.symm.trans hlongOut)
    exact ⟨head, mid, tail, htext, String.toList_ofList⟩

theorem truncateUtf8BytesHeadTail_exact_sentence :
    let input := "A sentence that is longer than sixty-four bytes keeps its two ends only."
    ∃ output, truncateUtf8BytesHeadTail input 64 = some output ∧ output.utf8ByteSize ≤ 64 ∧
      ∃ head mid tail, input.toList = head ++ mid ++ tail ∧
        output.toList = head ++ marker (byteLen mid) ++ tail := by
  intro input
  obtain ⟨output, hout, hsize, -, hends⟩ :=
    truncateUtf8BytesHeadTail_exact input 64 (by decide +kernel)
  exact ⟨output, hout, hsize, hends le_rfl (by decide +kernel)⟩

end Sanitize
