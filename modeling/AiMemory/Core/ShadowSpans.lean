/-
From the view back to the text (`ai-memory-core`, `sanitize.rs`).

The view is read off the text token by token: an escape, or else a character.  What is read at
an offset depends on the bytes of the token alone, so an interval that is cut at tokens reads
the same by itself as it does in its place.
-/
import AiMemory.Core.Invisible

open Utf8 List

namespace Sanitize

open Option (bind_eq_some_iff some.inj bind_eq_bind bind_some some.injEq)

variable {text x mid y : Text} {b : List UInt8} {i j k len : ℕ} {c : Char}
  {ts xs seg ys : List (Char × ℕ)}

/-! ### Tokens -/

def readAt (text : Text) (index : ℕ) : Option (Char × ℕ) := do
  let rest ← dropBytes text index
  let c ← rest.head?
  some ((jsonEscapeAt (bytes text) index).getD (c, c.utf8Size))

/-- Reading from one place to another yields these characters, each with its length. -/
inductive Reads (text : Text) : ℕ → List (Char × ℕ) → ℕ → Prop
  | nil (i : ℕ) : Reads text i [] i
  | cons {i j len : ℕ} {c : Char} {ts : List (Char × ℕ)} : readAt text i = some (c, len) →
      Reads text (i + len) ts j → Reads text i ((c, len) :: ts) j

/-- A place that reading the text from its start, escape by escape, comes to. -/
def EscapeBoundary (text : Text) (pos : ℕ) : Prop := ∃ ts, Reads text 0 ts pos

def visible (ts : List (Char × ℕ)) : Text :=
  (ts.map Prod.fst).filter fun c => !isDefaultIgnorable c

def places : ℕ → List (Char × ℕ) → List (ℕ × Char)
  | _, [] => []
  | i, (c, len) :: ts =>
    if isDefaultIgnorable c then places (i + len) ts else (i, c) :: places (i + len) ts

lemma visible_cons (t : Char × ℕ) (ts : List (Char × ℕ)) : visible (t :: ts) =
    if isDefaultIgnorable t.1 then visible ts else t.1 :: visible ts := by
  rw [visible, map_cons, filter_cons]
  cases isDefaultIgnorable t.1 with
  | true => rfl
  | false => rfl

lemma map_places (i : ℕ) (ts : List (Char × ℕ)) : (places i ts).map Prod.snd = visible ts := by
  induction ts generalizing i with
  | nil => rfl
  | cons t ts ih =>
    rw [places, visible_cons]
    split
    · exact ih _
    · rw [map_cons, ih]

lemma visible_append (xs ys : List (Char × ℕ)) : visible (xs ++ ys) = visible xs ++ visible ys := by
  rw [visible, map_append, filter_append, visible, visible]

lemma readAt_spec (h : readAt text i = some (c, len)) :
    Boundary text i ∧ i < byteLen text ∧ 0 < len ∧ Boundary text (i + len) ∧
      sourceLenAt text i = some len := by
  obtain ⟨rest, hdrop, hread⟩ := bind_eq_some_iff.mp h
  obtain ⟨d, hhead, hread⟩ := bind_eq_some_iff.mp hread
  obtain ⟨rest, rfl⟩ : ∃ rest', rest = d :: rest' := by
    cases rest with
    | nil => cases hhead
    | cons e rest => exact ⟨rest, by rw [some.inj hhead]⟩
  obtain ⟨before, after, rfl, rfl, hdrop'⟩ := exists_dropBytes (boundary_of_dropBytes hdrop)
  obtain rfl := some.inj (hdrop'.symm.trans hdrop)
  have hsize := d.utf8Size_pos
  refine ⟨⟨before, d :: rest, rfl, rfl⟩, by simp; omega, ?_⟩
  rw [sourceLenAt]
  cases hescape : jsonEscapeAt (bytes (before ++ d :: rest)) (byteLen before) with
  | some escape =>
    rw [hescape] at hread
    cases hread
    obtain ⟨hpos, hbound⟩ := boundary_of_jsonEscapeAt hescape
    exact ⟨hpos, hbound, rfl⟩
  | none =>
    rw [hescape] at hread
    obtain ⟨rfl, rfl⟩ := Prod.mk.inj (some.inj hread)
    refine ⟨hsize, Boundary.next before rest d, ?_⟩
    rw [hdrop]
    rfl

lemma Reads.le (h : Reads text i ts j) : i ≤ j := by
  induction h with
  | nil => exact le_rfl
  | cons _ _ ih => omega

lemma Reads.boundary (h : Reads text i ts j) (hi : Boundary text i) : Boundary text j := by
  induction h with
  | nil => exact hi
  | cons hread _ ih => exact ih (readAt_spec hread).2.2.2.1

lemma reads_append : Reads text i (xs ++ ys) k ↔ ∃ j, Reads text i xs j ∧ Reads text j ys k := by
  constructor
  · intro h
    induction xs generalizing i with
    | nil => exact ⟨i, .nil i, h⟩
    | cons t xs ih =>
      cases h with
      | cons hread hrest =>
        obtain ⟨j, hxs, hys⟩ := ih hrest
        exact ⟨j, .cons hread hxs, hys⟩
  · rintro ⟨j, hxs, hys⟩
    induction hxs with
    | nil => exact hys
    | cons hread _ ih => exact .cons hread (ih hys)

lemma places_append (hxs : Reads text i xs j) (ys : List (Char × ℕ)) :
    places i (xs ++ ys) = places i xs ++ places j ys := by
  induction hxs with
  | nil => rfl
  | @cons i j len c ts _ _ ih =>
    rw [cons_append, places, places, ih]
    split
    · rfl
    · rfl

lemma exists_reads (hi : Boundary text i) : ∃ ts, Reads text i ts (byteLen text) := by
  induction hleft : byteLen text - i using Nat.strong_induction_on generalizing i with
  | _ n ih =>
    rcases Nat.lt_or_ge i (byteLen text) with hlt | hge
    · obtain ⟨c, rest, hdrop, -⟩ := exists_char hi hlt
      obtain ⟨⟨d, len⟩, hread⟩ : ∃ t, readAt text i = some t := by
        rw [readAt, hdrop]
        exact ⟨_, rfl⟩
      obtain ⟨-, -, hpos, hnext, -⟩ := readAt_spec hread
      obtain ⟨ts, hts⟩ := ih (byteLen text - (i + len)) (by omega) hnext rfl
      exact ⟨(d, len) :: ts, .cons hread hts⟩
    · exact ⟨[], le_antisymm hi.le hge ▸ .nil i⟩

lemma Reads.ofFrom (h : Reads text i ts j) (hj : j = byteLen text) {fuel : ℕ}
    (hfuel : byteLen text < fuel + i) (shadow : Shadow) : Shadow.ofFrom text fuel i shadow =
      some ⟨shadow.text ++ visible ts, shadow.origin ++ origins (places i ts)⟩ := by
  induction h generalizing fuel shadow with
  | nil i =>
    obtain ⟨fuel, rfl⟩ : ∃ n, fuel = n + 1 := ⟨fuel - 1, by omega⟩
    have hdrop : dropBytes text (byteLen text) = some [] := by
      simpa using dropBytes_byteLen text []
    rw [Shadow.ofFrom, hj, hdrop]
    simp [visible, places, origins]
  | @cons i j len c ts hread _ ih =>
    obtain ⟨-, hlt, hpos, -⟩ := readAt_spec hread
    obtain ⟨fuel, rfl⟩ : ∃ n, fuel = n + 1 := ⟨fuel - 1, by omega⟩
    obtain ⟨rest, hdrop, hhead⟩ := bind_eq_some_iff.mp hread
    obtain ⟨d, hd, hescape⟩ := bind_eq_some_iff.mp hhead
    obtain ⟨rest, rfl⟩ : ∃ rest', rest = d :: rest' := by
      cases rest with
      | nil => cases hd
      | cons e rest => exact ⟨rest, by rw [some.inj hd]⟩
    rw [Shadow.ofFrom, hdrop]
    simp only [bind_eq_bind, bind_some, some.inj hescape]
    rw [ih hj (by omega), places, visible_cons]
    cases isDefaultIgnorable c with
    | true => rfl
    | false => simp [Shadow.push, origins]

/-! ### Reading a part by itself -/

variable (a : List UInt8)

theorem jsonHexUnit_append_left : jsonHexUnit (a ++ b) (a.length + i) =
    jsonHexUnit b i := by
  rw [jsonHexUnit, jsonHexUnit, drop_append, length_append, Nat.add_sub_cancel_left,
    drop_eq_nil_of_le (Nat.le_add_right _ _), nil_append]
  simp only [Nat.add_assoc, Nat.add_le_add_iff_left]

lemma getElem?_append_add : (a ++ b)[a.length + i]? = b[i]? := by
  rw [getElem?_append_right (Nat.le_add_right _ _), Nat.add_sub_cancel_left]

lemma jsonEscapeAt_append_left : jsonEscapeAt (a ++ b) (a.length + i) =
    jsonEscapeAt b i := by
  simp only [jsonEscapeAt, jsonUnicodeEscapeAt, Nat.add_assoc, jsonHexUnit_append_left,
    getElem?_append_add]

lemma jsonHexUnit_append {a : List UInt8} {n : ℕ} : jsonHexUnit a i = some n ↔
    jsonHexUnit (a ++ b) i = some n ∧ i + 4 ≤ a.length := by
  by_cases h : i + 4 ≤ a.length
  · rw [jsonHexUnit, jsonHexUnit, if_pos h, if_pos (by rw [length_append]; omega),
      drop_append_of_le_length (by omega),
      take_append_of_le_length (by rw [length_drop]; omega)]
    exact (and_iff_left h).symm
  · rw [jsonHexUnit, if_neg h]
    exact iff_of_false (by simp) fun hread => h hread.2

lemma jsonUnicodeEscapeAt_iff : jsonUnicodeEscapeAt b i = some (c, len) ↔
    ∃ unit, jsonHexUnit b (i + 2) = some unit ∧
      (¬(0xD800 ≤ unit ∧ unit ≤ 0xDBFF) ∧ charFromU32 unit = some c ∧ len = 6 ∨
        (0xD800 ≤ unit ∧ unit ≤ 0xDBFF) ∧ b[i + 6]? = some backslash ∧ b[i + 7]? = some letterU ∧
          (∃ low, jsonHexUnit b (i + 8) = some low ∧ (0xDC00 ≤ low ∧ low ≤ 0xDFFF) ∧
            charFromU32 (0x10000 + ((unit - 0xD800) <<< 10) + (low - 0xDC00)) = some c) ∧
          len = 12) := by
  rw [jsonUnicodeEscapeAt]
  cases jsonHexUnit b (i + 2) with
  | none => simp
  | some unit =>
    simp only [bind_eq_bind, bind_some, some.injEq, exists_eq_left']
    by_cases hpair : 0xD800 ≤ unit ∧ unit ≤ 0xDBFF
    · rw [if_neg (not_not_intro hpair)]
      by_cases hnext : b[i + 6]? = some backslash ∧ b[i + 7]? = some letterU
      · rw [if_pos hnext]
        constructor
        · intro h
          obtain ⟨low, hlow, h⟩ := bind_eq_some_iff.mp h
          obtain ⟨d, hd, h⟩ := bind_eq_some_iff.mp h
          cases h
          obtain ⟨hunit, hrange⟩ := Option.filter_eq_some_iff.mp hlow
          exact .inr ⟨hpair, hnext.1, hnext.2, ⟨low, hunit, by simpa using hrange, hd⟩, rfl⟩
        · rintro (h | ⟨-, -, -, ⟨low, hlow, hrange, hd⟩, rfl⟩)
          · exact absurd hpair h.1
          · have hfilter : (jsonHexUnit b (i + 8)).filter
                (fun low => 0xDC00 ≤ low && low ≤ 0xDFFF) = some low :=
              Option.filter_eq_some_iff.mpr ⟨hlow, by simpa using hrange⟩
            rw [hfilter, bind_some, hd]
            rfl
      · rw [if_neg hnext]
        refine iff_of_false (by simp) ?_
        rintro (h | h)
        · exact h.1 hpair
        · exact hnext ⟨h.2.1, h.2.2.1⟩
    · rw [if_pos hpair]
      cases charFromU32 unit with
      | none => simp [hpair]
      | some d => simp [hpair, eq_comm]

lemma getElem?_append_iff {a : List UInt8} {n : UInt8} : a[i]? = some n ↔
    (a ++ b)[i]? = some n ∧ i < a.length := by
  constructor
  · intro h
    have hlt := (List.getElem?_eq_some_iff.mp h).1
    exact ⟨by rwa [getElem?_append_left hlt], hlt⟩
  · rintro ⟨h, hlt⟩
    rwa [getElem?_append_left hlt] at h

lemma jsonUnicodeEscapeAt_append {a : List UInt8} : jsonUnicodeEscapeAt a i = some (c, len) ↔
    jsonUnicodeEscapeAt (a ++ b) i = some (c, len) ∧ i + len ≤ a.length := by
  simp only [jsonUnicodeEscapeAt_iff]
  constructor
  · rintro ⟨unit, hunit, hcases⟩
    obtain ⟨hunit', hlen⟩ := (jsonHexUnit_append (b := b)).mp hunit
    rcases hcases with ⟨hsingle, hchar, rfl⟩ | ⟨hpair, hback, hu, ⟨low, hlow, hrest⟩, rfl⟩
    · exact ⟨⟨unit, hunit', .inl ⟨hsingle, hchar, rfl⟩⟩, by omega⟩
    · obtain ⟨hlow', hlen'⟩ := (jsonHexUnit_append (b := b)).mp hlow
      exact ⟨⟨unit, hunit', .inr ⟨hpair, (getElem?_append_iff.mp hback).1,
        (getElem?_append_iff.mp hu).1, ⟨low, hlow', hrest⟩, rfl⟩⟩, by omega⟩
  · rintro ⟨⟨unit, hunit, hcases⟩, hle⟩
    rcases hcases with ⟨hsingle, hchar, rfl⟩ | ⟨hpair, hback, hu, ⟨low, hlow, hrest⟩, rfl⟩
    · exact ⟨unit, jsonHexUnit_append.mpr ⟨hunit, by omega⟩, .inl ⟨hsingle, hchar, rfl⟩⟩
    · exact ⟨unit, jsonHexUnit_append.mpr ⟨hunit, by omega⟩, .inr ⟨hpair,
        getElem?_append_iff.mpr ⟨hback, by omega⟩, getElem?_append_iff.mpr ⟨hu, by omega⟩,
        ⟨low, jsonHexUnit_append.mpr ⟨hlow, by omega⟩, hrest⟩, rfl⟩⟩

lemma jsonEscapeAt_append {a : List UInt8} : jsonEscapeAt a i = some (c, len) ↔
    jsonEscapeAt (a ++ b) i = some (c, len) ∧ i + len ≤ a.length := by
  have hlong : ∀ {bs : List UInt8}, jsonEscapeAt bs i = some (c, len) → 2 ≤ len := by
    intro bs h
    rw [jsonEscapeAt] at h
    split at h
    · split at h
      case h_9 =>
        obtain ⟨unit, -, h | h⟩ := jsonUnicodeEscapeAt_iff.mp h
        · omega
        · omega
      case h_10 => cases h
      all_goals
        cases h
        exact le_rfl
    · cases h
  by_cases h2 : i + 2 ≤ a.length
  · rw [jsonEscapeAt, jsonEscapeAt, getElem?_append_left (by omega),
      getElem?_append_left (by omega)]
    split
    · split
      case h_9 => exact jsonUnicodeEscapeAt_append
      case h_10 => simp
      all_goals
        refine (and_iff_left_of_imp fun h => ?_).symm
        cases h
        exact h2
    · simp
  · constructor
    · intro h
      have hnone : a[i + 1]? = none := getElem?_eq_none (by omega)
      rw [jsonEscapeAt, hnone] at h
      split at h
      · cases h
      · cases h
    · rintro ⟨h, hle⟩
      have htwo := hlong h
      omega

lemma exists_append_of_byteLen_le {s t s' t' : Text} (h : s ++ t = s' ++ t')
    (hle : byteLen s ≤ byteLen s') : ∃ m, s' = s ++ m ∧ t = m ++ t' := by
  rcases append_eq_append_iff.mp h with ⟨m, hs, ht⟩ | ⟨m, rfl, rfl⟩
  · exact ⟨m, hs, ht⟩
  · rw [byteLen_append] at hle
    have hnil : m = [] := by
      have hlen := length_le_byteLen m
      exact eq_nil_of_length_eq_zero (by omega)
    exact ⟨[], by simp [hnil], by simp [hnil]⟩

lemma readAt_cut (h : readAt (x ++ mid ++ y) (byteLen x + i) = some (c, len))
    (hle : i + len ≤ byteLen mid) : readAt mid i = some (c, len) := by
  obtain ⟨rest, hdrop, hread⟩ := bind_eq_some_iff.mp h
  obtain ⟨d, hhead, hread⟩ := bind_eq_some_iff.mp hread
  obtain ⟨hbound, -, hpos, -⟩ := readAt_spec h
  have hescape : jsonEscapeAt (bytes (x ++ mid ++ y)) (byteLen x + i) =
      jsonEscapeAt (bytes mid ++ bytes y) i := by
    rw [bytes_append, bytes_append, append_assoc, ← length_bytes x, jsonEscapeAt_append_left]
  -- the character at the offset is a character of the part
  obtain ⟨w, rest', hmid, hlen⟩ : ∃ w rest', mid = w ++ d :: rest' ∧ byteLen w = i := by
    obtain ⟨before, after, htext, hbefore⟩ := hbound
    rw [htext, ← hbefore, dropBytes_byteLen] at hdrop
    cases hdrop
    rw [append_assoc] at htext
    obtain ⟨w, rfl, hw⟩ := exists_append_of_byteLen_le htext (by omega)
    rw [byteLen_append, Nat.add_left_cancel_iff] at hbefore
    obtain ⟨m, rfl, hm⟩ := exists_append_of_byteLen_le hw.symm (by omega)
    cases m with
    | nil =>
      rw [append_nil] at hle
      omega
    | cons e m =>
      rw [hm, cons_append, head?_cons, some.injEq] at hhead
      exact ⟨w, m, by rw [hhead], hbefore⟩
  rw [readAt, hmid, ← hlen, dropBytes_byteLen, ← hmid, hlen]
  rw [hescape] at hread
  show some ((jsonEscapeAt (bytes mid) i).getD (d, d.utf8Size)) = some (c, len)
  cases hwhole : jsonEscapeAt (bytes mid ++ bytes y) i with
  | some escape =>
    rw [hwhole] at hread
    cases hread
    rw [jsonEscapeAt_append.mpr ⟨hwhole, by rwa [length_bytes]⟩]
    rfl
  | none =>
    rw [hwhole] at hread
    have hpart : jsonEscapeAt (bytes mid) i = none := by
      cases hpart : jsonEscapeAt (bytes mid) i with
      | none => rfl
      | some escape =>
        rw [((jsonEscapeAt_append (b := bytes y)).mp hpart).1] at hwhole
        cases hwhole
    rw [hpart]
    exact hread

lemma Reads.cut (h : Reads (x ++ mid ++ y) j ts k) (hj : j = byteLen x + i)
    (hk : k ≤ byteLen x + byteLen mid) : Reads mid i ts (k - byteLen x) := by
  induction h generalizing i with
  | nil =>
    rw [hj, Nat.add_sub_cancel_left]
    exact .nil i
  | cons hread hrest ih =>
    subst hj
    have hle := hrest.le
    exact .cons (readAt_cut hread (by omega)) (ih (Nat.add_assoc _ _ _) hk)

lemma viewText_of_reads (h : Reads text 0 ts (byteLen text)) : viewText text = some (visible ts) := by
  have hloop := h.ofFrom rfl (show byteLen text < byteLen text + 1 + 0 by omega) ⟨[], []⟩
  rw [viewText, Shadow.of]
  split
  · rw [hloop]
    rfl
  · rename_i hplain
    rw [Bool.not_eq_true, any_eq_false] at hplain
    have hslash : '\\' ∉ text := fun hmem => hplain _ hmem (by simp)
    have hview := ofFrom_eq (show '\\' ∉ [] ++ text from hslash) ⟨[], []⟩ 0
    rw [nil_append, byteLen_nil, Nat.add_zero] at hview
    rw [hloop] at hview
    have htext := congrArg (Option.map Shadow.text) hview
    simp only [Option.map_some, nil_append, some.injEq] at htext
    rw [htext, filter_eq_self.mpr fun c hc => ?_]
    · rfl
    · have hnone := hplain c hc
      rw [Bool.or_eq_true, not_or, Bool.not_eq_true, Bool.not_eq_true] at hnone
      rw [hnone.2, Bool.not_false]

lemma exists_token {before after : Text} (h : visible ts = before ++ c :: after) :
    ∃ xs len ys, ts = xs ++ (c, len) :: ys ∧ visible xs = before ∧ visible ys = after := by
  induction ts generalizing before with
  | nil => simp [visible] at h
  | cons t ts ih =>
    rw [visible_cons] at h
    cases hignorable : isDefaultIgnorable t.1 with
    | true =>
      rw [hignorable] at h
      obtain ⟨xs, len, ys, rfl, hxs, hys⟩ := ih h
      exact ⟨t :: xs, len, ys, rfl, by rw [visible_cons, hignorable, ← hxs]; rfl, hys⟩
    | false =>
      rw [hignorable] at h
      cases before with
      | nil =>
        obtain ⟨hc, hrest⟩ := List.cons.inj h
        exact ⟨[], t.2, ts, by rw [← hc]; rfl, rfl, hrest⟩
      | cons d before =>
        obtain ⟨hd, hrest⟩ := List.cons.inj h
        obtain ⟨xs, len, ys, rfl, hxs, hys⟩ := ih hrest
        exact ⟨t :: xs, len, ys, rfl, by rw [visible_cons, hignorable, ← hxs, ← hd]; rfl, hys⟩

def Segment (seg : List (Char × ℕ)) : Prop :=
  (∃ t rest, seg = t :: rest ∧ isDefaultIgnorable t.1 = false) ∧
    ∃ init t, seg = init ++ [t] ∧ isDefaultIgnorable t.1 = false

lemma exists_segment {before mid after : Text} (hmid : mid ≠ [])
    (h : visible ts = before ++ mid ++ after) : ∃ xs seg ys, ts = xs ++ seg ++ ys ∧ Segment seg ∧
      visible xs = before ∧ visible seg = mid ∧ visible ys = after := by
  have hshow : ∀ d ∈ mid, isDefaultIgnorable d = false := by
    intro d hd
    have hmem : d ∈ visible ts := by
      rw [h]
      exact mem_append_left _ (mem_append_right _ hd)
    simpa using (mem_filter.mp hmem).2
  have hsingle : ∀ d len, isDefaultIgnorable d = false → visible [(d, len)] = [d] := by
    intro d len hd
    simp [visible, hd]
  obtain ⟨first, rest, rfl⟩ := exists_cons_of_ne_nil hmid
  rw [append_assoc, cons_append] at h
  obtain ⟨xs, len, us, rfl, hxs, hus⟩ := exists_token h
  have hfirst := hshow first mem_cons_self
  rcases eq_nil_or_concat' rest with rfl | ⟨front, last, rfl⟩
  · exact ⟨xs, [(first, len)], us, by simp, ⟨⟨_, [], rfl, hfirst⟩, [], _, rfl, hfirst⟩, hxs,
      hsingle first len hfirst, hus⟩
  · rw [append_assoc, singleton_append] at hus
    obtain ⟨vs, len', ys, rfl, hvs, hys⟩ := exists_token hus
    have hlast := hshow last (by simp)
    refine ⟨xs, (first, len) :: (vs ++ [(last, len')]), ys, by simp,
      ⟨⟨_, _, rfl, hfirst⟩, (first, len) :: vs, _, rfl, hlast⟩, hxs, ?_, hys⟩
    rw [← singleton_append, visible_append, visible_append, hvs, hsingle _ _ hfirst,
      hsingle _ _ hlast]
    rfl

lemma originalSpan_segment {view : Shadow} (horigin : view.origin = origins (places 0 (xs ++ seg ++ ys)))
    (hxs : Reads text 0 xs i) (hseg : Reads text i seg j) (h : Segment seg) :
    view.originalSpan text (byteLen (visible xs)) (byteLen (visible xs) + byteLen (visible seg)) =
      some (i, j) ∧ i < j := by
  obtain ⟨⟨first, rest, hhead, hfirst⟩, init, last, htail, hlast⟩ := h
  have hwhole := reads_append.mpr ⟨i, hxs, hseg⟩
  -- the first byte of the range comes from the first token
  have hget : view.origin[byteLen (visible xs)]? = some i := by
    have hplaces : places i (first :: rest ++ ys) = (i, first.1) :: places (i + first.2) (rest ++ ys) := by
      rw [cons_append, places, if_neg (by rw [hfirst]; exact Bool.false_ne_true)]
    have hbyte := getElem?_origins (places 0 xs) (places (i + first.2) (rest ++ ys)) i
      first.1.utf8Size_pos
    rw [horigin, append_assoc, places_append hxs, hhead, hplaces, ← map_places 0 xs]
    exact hbyte
  obtain ⟨k, hinit, hend⟩ := reads_append.mp (htail ▸ hseg)
  obtain ⟨hread, hnil⟩ : readAt text k = some last ∧ k + last.2 = j := by
    cases hend with
    | cons hread hnil =>
      cases hnil with
      | nil => exact ⟨hread, rfl⟩
  have hpos := (readAt_spec hread).2.2
  have hsize := last.1.utf8Size_pos
  have hmid : byteLen (visible seg) = byteLen (visible init) + last.1.utf8Size := by
    rw [htail, visible_append, byteLen_append]
    simp [visible, hlast]
  -- and its last byte from the last token
  have hget' : view.origin[byteLen (visible xs) + byteLen (visible seg) - 1]? = some k := by
    have hplaces : places k (last :: ys) = (k, last.1) :: places (k + last.2) ys := by
      rw [places, if_neg (by rw [hlast]; exact Bool.false_ne_true)]
    have hbefore := reads_append.mpr ⟨i, hxs, hinit⟩
    have hbyte := getElem?_origins (places 0 (xs ++ init)) (places (k + last.2) ys) k
      (show last.1.utf8Size - 1 < last.1.utf8Size by omega)
    rw [map_places, visible_append, byteLen_append] at hbyte
    rw [hmid, horigin, htail, show xs ++ (init ++ [last]) ++ ys = xs ++ init ++ (last :: ys) by simp,
      places_append hbefore, hplaces, ← hbyte]
    congr 1
    omega
  have hle := hinit.le
  refine ⟨?_, by omega⟩
  rw [Shadow.originalSpan, if_pos (by omega)]
  simp only [hget, hget', Option.getD_some, hpos.2.2, bind_eq_bind, bind_some, hnil]

/-- The interval of a range lies between tokens, reads what the range does, and comes before
the interval of a later range. -/
theorem originalSpan_exact {view : Shadow} (hview : Shadow.of text = some (some view))
    {start stop : ℕ} (hstart : Boundary view.text start) (hstop : Boundary view.text stop)
    (hlt : start < stop) : ∃ span, view.originalSpan text start stop = some span ∧ span.1 < span.2 ∧
      Boundary text span.1 ∧ Boundary text span.2 ∧
      EscapeBoundary text span.1 ∧ EscapeBoundary text span.2 ∧
      (∃ cut out, slice text span.1 span.2 = some cut ∧ slice view.text start stop = some out ∧
        viewText cut = some out) ∧
      ∀ start' stop' span', Boundary view.text start' → Boundary view.text stop' →
        stop ≤ start' → start' < stop' → view.originalSpan text start' stop' = some span' →
        span.2 ≤ span'.1 := by
  obtain ⟨ts, hreads⟩ := exists_reads (boundary_zero text)
  have hof : view = ⟨visible ts, origins (places 0 ts)⟩ := by
    have hloop := hreads.ofFrom rfl (show byteLen text < byteLen text + 1 + 0 by omega) ⟨[], []⟩
    rw [Shadow.of] at hview
    split at hview
    · rw [hloop] at hview
      exact (Option.some.inj (Option.some.inj hview)).symm
    · cases hview
  have hne : ∀ mid : Text, 0 < byteLen mid → mid ≠ [] := by
    rintro mid hpos rfl
    exact absurd hpos (Nat.lt_irrefl 0)
  have hvisible : view.text = visible ts := by rw [hof]
  obtain ⟨before, mid, after, hsplit, hbefore, hmid⟩ := exists_of_boundaries hstart hstop hlt.le
  rw [hvisible] at hsplit
  obtain ⟨xs, seg, ys, rfl, hseg, hxs, hsegs, hys⟩ := exists_segment (hne mid (by omega)) hsplit
  obtain ⟨j, hleft, hright⟩ := reads_append.mp hreads
  obtain ⟨i, hi, hj⟩ := reads_append.mp hleft
  have horigin : view.origin = origins (places 0 (xs ++ seg ++ ys)) := by rw [hof]
  obtain ⟨hspan, hlt'⟩ := originalSpan_segment horigin hi hj hseg
  rw [hxs, hsegs, hmid, hbefore] at hspan
  have hbi := hi.boundary (boundary_zero text)
  have hbj := hj.boundary hbi
  refine ⟨(i, j), hspan, hlt', hbi, hbj, ⟨xs, hi⟩, ⟨_, hleft⟩, ?_, ?_⟩
  · obtain ⟨x, cut, y, htext, hx, hcut⟩ := exists_of_boundaries hbi hbj hlt'.le
    refine ⟨cut, mid, ?_, ?_, ?_⟩
    · rw [htext, ← hx, ← hcut, slice_eq]
    · rw [hvisible, hsplit, ← hbefore, ← hmid, slice_eq]
    · rw [htext] at hj
      have hpart := hj.cut (i := 0) (by omega) (by omega)
      rw [← hcut, Nat.add_sub_cancel_left] at hpart
      rw [viewText_of_reads hpart, hsegs]
  · intro start' stop' span' hstart' hstop' hle hlt'' hspan'
    obtain ⟨before', mid', after', hsplit', hbefore', hmid'⟩ :=
      exists_of_boundaries hstart' hstop' hlt''.le
    rw [hvisible, hsplit] at hsplit'
    -- the later range lies in what follows the earlier one
    rw [append_assoc before'] at hsplit'
    obtain ⟨gap, rfl, hafter⟩ := exists_append_of_byteLen_le hsplit' (by rw [byteLen_append]; omega)
    rw [← append_assoc, ← hys] at hafter
    obtain ⟨xs', seg', ys', rfl, hseg', hxs', hsegs', -⟩ :=
      exists_segment (hne mid' (by omega)) hafter
    obtain ⟨l, hleft', -⟩ := reads_append.mp hright
    obtain ⟨k, hk, hl⟩ := reads_append.mp hleft'
    have hbase := reads_append.mpr ⟨j, hleft, hk⟩
    have hwhole : view.origin = origins (places 0 (xs ++ seg ++ xs' ++ seg' ++ ys')) := by
      rw [hof]
      simp only [append_assoc]
    obtain ⟨hspan'', -⟩ := originalSpan_segment hwhole hbase hl hseg'
    have hfront : byteLen (visible (xs ++ seg ++ xs')) = start' := by
      rw [visible_append, visible_append, hxs, hsegs, hxs', hbefore']
    rw [hfront, hsegs', ← hbefore', hmid', hbefore', hspan'] at hspan''
    obtain rfl := Option.some.inj hspan''
    exact hk.le

theorem originalSpan_exact_pair : ∃ span,
    (Shadow.mk ['a', '😀'] [0, 1, 1, 1, 1]).originalSpan "a\\ud83d\\ude00".toList 1 5 = some span ∧
      span.1 < span.2 := by
  have hview : Shadow.of "a\\ud83d\\ude00".toList =
      some (some ⟨['a', '😀'], [0, 1, 1, 1, 1]⟩) := by decide
  obtain ⟨span, hspan, hlt, -⟩ := originalSpan_exact hview
    ⟨['a'], ['😀'], rfl, rfl⟩ ⟨['a', '😀'], [], rfl, rfl⟩ (show 1 < 5 by decide)
  exact ⟨span, hspan, hlt⟩

end Sanitize
