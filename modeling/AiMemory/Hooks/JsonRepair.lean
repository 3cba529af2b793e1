/-
Hook JSON that was cut between two surrogate escapes (`ai-memory-hooks`, `json_repair.rs`).

The scanner goes from backslash to backslash by byte offsets and jumps over the escape it finds:
2 bytes, 6 for a code unit, 12 for a surrogate pair.
-/
import AiMemory.Lib.JsonText
import AiMemory.Lib.Utf8
import Mathlib.Data.Bool.AllAny

open Utf8 JsonText List

namespace Hooks

/-- `u16::from_str_radix` on at most four ASCII bytes: the number may have a plus sign. -/
def fromStrRadix16 (digits : List UInt8) : Option ℕ :=
  let digits := if digits.head? = some 43 ∧ digits.length ≠ 1 then digits.tail else digits
  if digits = [] then none
  else digits.foldlM (fun n b => (hexValue (Char.ofNat b.toNat)).map (16 * n + ·)) 0

def codeUnitAt (text : Text) (pos : ℕ) : Option ℕ :=
  if pos + 6 ≤ byteLen text then
    match ((bytes text).drop pos).take 6 with
    | 92 :: 117 :: digits => fromStrRadix16 digits
    | _ => none
  else none

lemma lt_of_mem_dropBytes {text rest : Text} {pos : ℕ} {c : Char}
    (h : dropBytes text pos = some rest) (hc : c ∈ rest) : pos < byteLen text := by
  obtain ⟨before, after, rfl, rfl⟩ := boundary_of_dropBytes h
  rw [dropBytes_byteLen] at h
  obtain rfl := Option.some.inj h
  cases after with
  | nil => cases hc
  | cons d after =>
    have hpos := d.utf8Size_pos
    rw [byteLen_append, byteLen_cons]
    omega

/-- The loop, with the text put out and the offsets up to which it is copied and scanned. It has
no value where a slice would split a character. -/
def scan (text out : Text) (copied pos : ℕ) : Option (Text × ℕ) :=
  match hrest : dropBytes text pos with
  | none => some (out, copied)
  | some rest =>
    if hmem : '\\' ∈ rest then
      have _hlt : pos < byteLen text := lt_of_mem_dropBytes hrest hmem
      let pos := pos + byteLen (rest.takeWhile (· ≠ '\\'))
      match codeUnitAt text pos with
      | none => scan text out copied (pos + 2)
      | some unit =>
        if 0xD800 ≤ unit ∧ unit ≤ 0xDBFF ∧
            (codeUnitAt text (pos + 6)).any fun low => 0xDC00 ≤ low && low ≤ 0xDFFF then
          scan text out copied (pos + 12)
        else if 0xD800 ≤ unit ∧ unit ≤ 0xDFFF then
          (slice text copied pos).bind fun kept =>
            scan text (out ++ kept ++ ['\uFFFD']) (pos + 6) (pos + 6)
        else scan text out copied (pos + 6)
    else some (out, copied)
termination_by byteLen text - pos

def replaceLoneSurrogateEscapes (text : Text) : Option (Option Text) := do
  let (out, copied) ← scan text [] 0 0
  if copied = 0 then return none
  let rest ← dropBytes text copied
  return some (out ++ rest)

/-! ### Code units -/

theorem head_utf8EncodeChar_ne {c a : Char} (ha : a.toNat < 128) (hne : c ≠ a) :
    ∃ b more, String.utf8EncodeChar c = b :: more ∧ b ≠ .ofNat a.toNat := by
  have hbyte : (UInt8.ofNat a.toNat).toNat = a.toNat := by
    rw [UInt8.toNat_ofNat']
    omega
  rcases utf8EncodeChar_cases c with ⟨_, henc, hc⟩ | hhigh
  · refine ⟨_, [], henc, fun heq => hne (Char.toNat_inj.mp ?_)⟩
    have hnat := congrArg UInt8.toNat heq
    rw [hbyte, UInt8.toNat_ofNat'] at hnat
    omega
  · have hlen := String.length_utf8EncodeChar c
    have hpos := c.utf8Size_pos
    cases henc : String.utf8EncodeChar c with
    | nil =>
      rw [henc, length_nil] at hlen
      omega
    | cons b more =>
      refine ⟨b, more, rfl, fun heq => ?_⟩
      have hb := hhigh b (henc ▸ mem_cons_self)
      rw [heq, hbyte] at hb
      omega

lemma codeUnitAt_append (done rest : Text) : codeUnitAt (done ++ rest) (byteLen done) =
    if 6 ≤ byteLen rest then
      match (bytes rest).take 6 with
      | 92 :: 117 :: digits => fromStrRadix16 digits
      | _ => none
    else none := by
  have hdrop : (bytes (done ++ rest)).drop (byteLen done) = bytes rest := by
    rw [bytes_append, ← length_bytes done, drop_left]
  rw [codeUnitAt, hdrop, byteLen_append]
  simp only [Nat.add_le_add_iff_left]

lemma codeUnitAt_of_ne (done rest : Text) {c : Char} (hc : c ≠ '\\') :
    codeUnitAt (done ++ c :: rest) (byteLen done) = none := by
  obtain ⟨b, more, henc, hb⟩ := head_utf8EncodeChar_ne (a := '\\') (by decide) hc
  rw [codeUnitAt_append, bytes_cons, henc, cons_append, take_succ_cons]
  split
  · split
    · rename_i heq
      exact absurd (List.cons.inj heq).1 hb
    · rfl
  · rfl

lemma codeUnitAt_of_escape (done rest : Text) {c : Char} (hc : c ≠ 'u') :
    codeUnitAt (done ++ '\\' :: c :: rest) (byteLen done) = none := by
  obtain ⟨b, more, henc, hb⟩ := head_utf8EncodeChar_ne (a := 'u') (by decide) hc
  rw [codeUnitAt_append, bytes_cons, bytes_cons, henc,
    show String.utf8EncodeChar '\\' = [92] from rfl, singleton_append, cons_append,
    take_succ_cons, take_succ_cons]
  split
  · split
    · rename_i heq
      exact absurd (List.cons.inj (List.cons.inj heq).2).1 hb
    · rfl
  · rfl

lemma hexDigit_byte (d : HexDigit) :
    String.utf8EncodeChar d.char = [.ofNat d.char.toNat] ∧ d.char.utf8Size = 1 ∧
      UInt8.ofNat d.char.toNat ≠ 43 ∧
      hexValue (Char.ofNat (UInt8.ofNat d.char.toNat).toNat) = some d.value := by
  have hrange : 48 ≤ d.char.toNat ∧ d.char.toNat < 128 := by
    have hhex := d.hex
    rw [hexValue] at hhex
    split at hhex
    · rename_i h
      exact ⟨h.1, Nat.lt_of_le_of_lt h.2 (by decide)⟩
    split at hhex
    · rename_i h
      exact ⟨Nat.le_trans (by decide) h.1, Nat.lt_of_le_of_lt h.2 (by decide)⟩
    split at hhex
    · rename_i h
      exact ⟨Nat.le_trans (by decide) h.1, Nat.lt_of_le_of_lt h.2 (by decide)⟩
    · cases hhex
  have hbyte : (UInt8.ofNat d.char.toNat).toNat = d.char.toNat := by
    rw [UInt8.toNat_ofNat']
    omega
  obtain ⟨henc, hsize⟩ := utf8EncodeChar_of_lt hrange.2
  refine ⟨henc, hsize, fun heq => ?_, ?_⟩
  · have hnat := congrArg UInt8.toNat heq
    rw [hbyte] at hnat
    have h43 : (43 : UInt8).toNat = 43 := rfl
    omega
  · rw [hbyte, Char.ofNat_toNat, d.hex]

lemma codeUnitAt_unit (done rest : Text) (a b c d : HexDigit) :
    codeUnitAt (done ++ ((StringChar.unit a b c d).render ++ rest)) (byteLen done) =
      (StringChar.unit a b c d).codeUnit := by
  obtain ⟨hea, hsa, hna, hva⟩ := hexDigit_byte a
  obtain ⟨heb, hsb, _, hvb⟩ := hexDigit_byte b
  obtain ⟨hec, hsc, _, hvc⟩ := hexDigit_byte c
  obtain ⟨hed, hsd, _, hvd⟩ := hexDigit_byte d
  have hbytes : bytes ((StringChar.unit a b c d).render ++ rest) =
      92 :: 117 :: .ofNat a.char.toNat :: .ofNat b.char.toNat :: .ofNat c.char.toNat ::
        .ofNat d.char.toNat :: bytes rest := by
    simp only [StringChar.render, cons_append, nil_append, bytes_cons, hea, heb, hec, hed]
    rfl
  have hlen : 6 ≤ byteLen ((StringChar.unit a b c d).render ++ rest) := by
    rw [← length_bytes, hbytes]
    simp only [length_cons]
    omega
  rw [codeUnitAt_append, if_pos hlen, hbytes]
  simp only [take_succ_cons, take_zero, fromStrRadix16, head?_cons,
    Option.some.injEq, hna, false_and, if_false, cons_ne_nil, foldlM_cons,
    foldlM_nil, hva, hvb, hvc, hvd, Option.map_some, Option.bind_eq_bind, Option.bind_some,
    StringChar.codeUnit, Nat.mul_zero, Nat.zero_add]
  rfl

lemma byteLen_unit (a b c d : HexDigit) : byteLen (StringChar.unit a b c d).render = 6 := by
  simp only [StringChar.render, byteLen_cons, byteLen_nil, (hexDigit_byte a).2.1,
    (hexDigit_byte b).2.1, (hexDigit_byte c).2.1, (hexDigit_byte d).2.1]
  rfl

lemma scan_end (done rest out : Text) (copied : ℕ) (h : '\\' ∉ rest) :
    scan (done ++ rest) out copied (byteLen done) = some (out, copied) := by
  rw [scan]
  split
  · rfl
  · rename_i rest' hrest
    rw [dropBytes_byteLen] at hrest
    cases hrest
    rw [dif_neg h]

lemma scan_backslash (done plain rest out : Text) (copied : ℕ) (h : '\\' ∉ plain) :
    scan (done ++ (plain ++ '\\' :: rest)) out copied (byteLen done) =
      match codeUnitAt (done ++ (plain ++ '\\' :: rest)) (byteLen (done ++ plain)) with
      | none => scan (done ++ (plain ++ '\\' :: rest)) out copied (byteLen (done ++ plain) + 2)
      | some unit =>
        if 0xD800 ≤ unit ∧ unit ≤ 0xDBFF ∧
            (codeUnitAt (done ++ (plain ++ '\\' :: rest)) (byteLen (done ++ plain) + 6)).any
              fun low => 0xDC00 ≤ low && low ≤ 0xDFFF then
          scan (done ++ (plain ++ '\\' :: rest)) out copied (byteLen (done ++ plain) + 12)
        else if 0xD800 ≤ unit ∧ unit ≤ 0xDFFF then
          (slice (done ++ (plain ++ '\\' :: rest)) copied (byteLen (done ++ plain))).bind fun kept =>
            scan (done ++ (plain ++ '\\' :: rest)) (out ++ kept ++ ['\uFFFD'])
              (byteLen (done ++ plain) + 6) (byteLen (done ++ plain) + 6)
        else scan (done ++ (plain ++ '\\' :: rest)) out copied (byteLen (done ++ plain) + 6) := by
  have htake : (plain ++ '\\' :: rest).takeWhile (· ≠ '\\') = plain := by
    rw [takeWhile_append_of_pos, takeWhile_cons]
    · simp
    · intro c hc
      rw [decide_eq_true_eq]
      rintro rfl
      exact h hc
  rw [scan]
  split
  · rename_i hnone
    rw [dropBytes_byteLen] at hnone
    cases hnone
  · rename_i rest' hrest
    rw [dropBytes_byteLen] at hrest
    cases hrest
    rw [dif_pos (by simp), htake]
    simp only [byteLen_append]

lemma scan_plain (done plain rest out : Text) (copied : ℕ) (h : '\\' ∉ plain) :
    scan (done ++ (plain ++ rest)) out copied (byteLen done) =
      scan (done ++ (plain ++ rest)) out copied (byteLen (done ++ plain)) := by
  by_cases hrest : '\\' ∈ rest
  · obtain ⟨more, after, rfl, hmore⟩ := eq_append_cons_of_mem hrest
    have hall : '\\' ∉ plain ++ more := by
      rw [mem_append, not_or]
      exact ⟨h, hmore⟩
    have hfirst := scan_backslash done (plain ++ more) after out copied hall
    have hsecond := scan_backslash (done ++ plain) more after out copied hmore
    simp only [append_assoc] at hfirst hsecond
    rw [hfirst, hsecond]
  · have hall : '\\' ∉ plain ++ rest := by
      rw [mem_append, not_or]
      exact ⟨h, hrest⟩
    have hsecond := scan_end (done ++ plain) rest out copied hrest
    rw [append_assoc] at hsecond
    rw [scan_end done _ out copied hall, hsecond]

lemma codeUnitAt_render (done rest : Text) (c : StringChar) :
    codeUnitAt (done ++ (c.render ++ rest)) (byteLen done) = c.codeUnit := by
  cases c with
  | plain c h => exact codeUnitAt_of_ne done rest h.2.1
  | escape c h =>
    refine codeUnitAt_of_escape done rest ?_
    rintro rfl
    revert h
    decide
  | unit a b c d => exact codeUnitAt_unit done rest a b c d

lemma exists_unit {c : StringChar} (h : (c.isHigh || c.isLow)) :
    ∃ u, c.codeUnit = some u ∧ 0xD800 ≤ u ∧ u ≤ 0xDFFF ∧ (u ≤ 0xDBFF ↔ c.isHigh) ∧
      byteLen c.render = 6 ∧ ∃ rest, c.render = '\\' :: rest := by
  cases c with
  | plain c hc | escape c hc => cases h
  | unit a b c d =>
    refine ⟨_, rfl, ?_⟩
    simp only [StringChar.isHigh, StringChar.isLow, StringChar.codeUnit, Option.any_some,
      Bool.or_eq_true, Bool.and_eq_true, decide_eq_true_eq] at h ⊢
    refine ⟨by omega, by omega, by omega, byteLen_unit a b c d, _, rfl⟩

lemma scan_kept (done rest out : Text) (copied : ℕ) {c : StringChar}
    (h : (c.isHigh || c.isLow) = false) :
    scan (done ++ (c.render ++ rest)) out copied (byteLen done) =
      scan (done ++ (c.render ++ rest)) out copied (byteLen (done ++ c.render)) := by
  have hunit := codeUnitAt_render done rest c
  cases c with
  | plain c hc =>
    refine scan_plain done [c] rest out copied ?_
    rw [mem_singleton]
    exact fun heq => hc.2.1 heq.symm
  | escape c hc =>
    have hsize : ∀ c ∈ ['"', '\\', '/', 'b', 'f', 'n', 'r', 't'], c.utf8Size = 1 :=
      all_iff_forall_prop.mp (by decide)
    have hnext := scan_backslash done [] (c :: rest) out copied not_mem_nil
    simp only [StringChar.render, cons_append, nil_append, append_nil,
      StringChar.codeUnit] at hunit hnext ⊢
    rw [hnext, hunit, byteLen_append, byteLen_cons, byteLen_cons, byteLen_nil, hsize c hc]
    rfl
  | unit a b c d =>
    have hnext := scan_backslash done [] ('u' :: a.char :: b.char :: c.char :: d.char :: rest) out
      copied not_mem_nil
    have hlen := byteLen_unit a b c d
    simp only [StringChar.isHigh, StringChar.isLow, StringChar.codeUnit, Option.any_some,
      Bool.or_eq_false_iff, Bool.and_eq_false_iff, decide_eq_false_iff_not] at h
    simp only [StringChar.render, cons_append, nil_append, append_nil,
      StringChar.codeUnit] at hunit hnext hlen ⊢
    rw [hnext, hunit, byteLen_append, hlen]
    simp only
    rw [if_neg (by omega), if_neg (by omega)]

lemma scan_pair (done rest out : Text) (copied : ℕ) {c d : StringChar}
    (hc : c.isHigh) (hd : d.isLow) :
    scan (done ++ (c.render ++ (d.render ++ rest))) out copied (byteLen done) =
      scan (done ++ (c.render ++ (d.render ++ rest))) out copied
        (byteLen (done ++ (c.render ++ d.render))) := by
  obtain ⟨u, hu, hge, _, hhigh, hclen, more, hrender⟩ := exists_unit (c := c) (by rw [hc]; rfl)
  obtain ⟨v, hv, hvge, hvle, _, hdlen, _⟩ := exists_unit (c := d) (by rw [hd, Bool.or_true])
  have hfirst := codeUnitAt_render done (d.render ++ rest) c
  have hsecond := codeUnitAt_render (done ++ c.render) rest d
  have hnext := scan_backslash done [] (more ++ (d.render ++ rest)) out copied not_mem_nil
  rw [append_assoc, byteLen_append, hclen] at hsecond
  rw [byteLen_append, byteLen_append, hclen, hdlen]
  simp only [StringChar.isLow, hv, Option.any_some] at hd
  rw [hrender, cons_append] at hfirst hsecond ⊢
  rw [nil_append, append_nil, hfirst, hsecond, hu, hv] at hnext
  rw [hnext]
  simp only
  rw [if_pos ⟨hge, hhigh.mpr hc, by simpa using hd⟩]

lemma scan_lone (done rest out : Text) (copied : ℕ) {c : StringChar} (hc : (c.isHigh || c.isLow))
    (hnext : c.isHigh → ((codeUnitAt (done ++ (c.render ++ rest))
      (byteLen (done ++ c.render))).any fun low => 0xDC00 ≤ low && low ≤ 0xDFFF) = false) :
    scan (done ++ (c.render ++ rest)) out copied (byteLen done) =
      (slice (done ++ (c.render ++ rest)) copied (byteLen done)).bind fun kept =>
        scan (done ++ (c.render ++ rest)) (out ++ kept ++ ['\uFFFD']) (byteLen (done ++ c.render))
          (byteLen (done ++ c.render)) := by
  obtain ⟨u, hu, hge, hle, hhigh, hclen, more, hrender⟩ := exists_unit hc
  have hfirst := codeUnitAt_render done rest c
  have hstep := scan_backslash done [] (more ++ rest) out copied not_mem_nil
  rw [byteLen_append, hclen] at hnext ⊢
  rw [hrender, cons_append] at hfirst hnext ⊢
  rw [nil_append, append_nil, hfirst, hu] at hstep
  rw [hstep]
  simp only
  rw [if_neg, if_pos ⟨hge, hle⟩]
  rintro ⟨_, hle', hlow⟩
  rw [hnext (hhigh.mp hle')] at hlow
  cases hlow

def replacement : StringChar := .plain '\uFFFD' (by decide)

variable (body : List StringChar)

def repairString : List StringChar :=
  List.zipWith (fun c lone => if lone then replacement else c) body (unpaired body)

/-- What is put out, with what is still to be copied, is the repair of what is scanned. -/
def Progress (done out : Text) (copied : ℕ) (result : Text) : Prop :=
  ∃ kept tail, done = kept ++ tail ∧ copied = byteLen kept ∧ out ++ tail = result

variable {done out result : Text} {copied : ℕ}

lemma Progress.keep (h : Progress done out copied result) (s : Text) :
    Progress (done ++ s) out copied (result ++ s) := by
  obtain ⟨kept, tail, rfl, rfl, rfl⟩ := h
  exact ⟨kept, tail ++ s, by rw [append_assoc], rfl, by rw [append_assoc]⟩

lemma Progress.replace (h : Progress done out copied result) (escape rest : Text) :
    ∃ kept, slice (done ++ rest) copied (byteLen done) = some kept ∧
      Progress (done ++ escape) (out ++ kept ++ ['\uFFFD']) (byteLen (done ++ escape))
        (result ++ ['\uFFFD']) := by
  obtain ⟨kept, tail, rfl, rfl, rfl⟩ := h
  refine ⟨tail, ?_, kept ++ tail ++ escape, [], by rw [append_nil], rfl, by rw [append_nil]⟩
  rw [byteLen_append]
  exact slice_eq kept tail rest

def renderString : Text := body.flatMap StringChar.render

lemma scan_char (rest : Text) {c : StringChar} (h : Progress done out copied result)
    (hnext : c.isHigh → ((codeUnitAt (done ++ (c.render ++ rest))
      (byteLen (done ++ c.render))).any fun low => 0xDC00 ≤ low && low ≤ 0xDFFF) = false) :
    ∃ out' copied', scan (done ++ (c.render ++ rest)) out copied (byteLen done) =
        scan (done ++ (c.render ++ rest)) out' copied' (byteLen (done ++ c.render)) ∧
      Progress (done ++ c.render) out' copied'
        (result ++ (if c.isHigh || c.isLow then replacement else c).render) ∧
      (copied' = 0 ↔ copied = 0 ∧ (c.isHigh || c.isLow) = false) := by
  by_cases hc : (c.isHigh || c.isLow)
  · obtain ⟨kept, hslice, hprogress⟩ := h.replace c.render (c.render ++ rest)
    refine ⟨out ++ kept ++ ['\uFFFD'], byteLen (done ++ c.render), ?_, ?_, ?_⟩
    · rw [scan_lone done rest out copied hc hnext, hslice, Option.bind_some]
    · rw [hc]
      exact hprogress
    · obtain ⟨_, _, _, _, _, hlen, _⟩ := exists_unit hc
      rw [hc, byteLen_append, hlen]
      simp
  · rw [Bool.not_eq_true] at hc
    refine ⟨out, copied, scan_kept done rest out copied hc, ?_, ?_⟩
    · rw [hc]
      exact h.keep _
    · simp [hc]

lemma scan_string (rest : Text) (h : Progress done out copied result) :
    ∃ out' copied', scan (done ++ (renderString body ++ '"' :: rest)) out copied (byteLen done) =
        scan (done ++ (renderString body ++ '"' :: rest)) out' copied'
          (byteLen (done ++ renderString body)) ∧
      Progress (done ++ renderString body) out' copied'
        (result ++ renderString (repairString body)) ∧
      (copied' = 0 ↔ copied = 0 ∧ true ∉ unpaired body) := by
  fun_induction unpaired body generalizing done out copied result with
  | case1 =>
    refine ⟨out, copied, ?_, h.keep [], by simp⟩
    rw [renderString, flatMap_nil, append_nil]
  | case2 c =>
    have hquote : codeUnitAt (done ++ (c.render ++ '"' :: rest)) (byteLen (done ++ c.render)) =
        none := by
      rw [← append_assoc]
      exact codeUnitAt_of_ne _ rest (by decide)
    obtain ⟨out', copied', hscan, hprogress, hzero⟩ :=
      scan_char ('"' :: rest) h (c := c) fun _ => by rw [hquote]; rfl
    refine ⟨out', copied', ?_, ?_, ?_⟩
    · simpa only [renderString, flatMap_singleton] using hscan
    · simpa only [renderString, repairString, unpaired, zipWith_cons_cons, zipWith_nil_left,
        flatMap_singleton] using hprogress
    · rw [hzero, mem_singleton]
      cases c.isHigh || c.isLow <;> simp
  | case3 c d body hpair ih =>
    rw [Bool.and_eq_true] at hpair
    have hscan := scan_pair done (renderString body ++ '"' :: rest) out copied hpair.1 hpair.2
    obtain ⟨out', copied', hrest, hprogress, hzero⟩ := ih (h.keep (c.render ++ d.render))
    have hrender : renderString (c :: d :: body) = c.render ++ (d.render ++ renderString body) := rfl
    refine ⟨out', copied', ?_, ?_, ?_⟩
    · rw [hrender]
      simp only [append_assoc] at hscan hrest ⊢
      rw [hscan, hrest]
    · have hrepair : renderString (repairString (c :: d :: body)) =
          c.render ++ (d.render ++ renderString (repairString body)) := by
        rw [repairString, unpaired, if_pos (by rw [hpair.1, hpair.2]; rfl)]
        rfl
      rw [hrender, hrepair]
      simpa only [append_assoc] using hprogress
    · rw [hzero]
      simp
  | case4 c d body hpair ih =>
    have hrender : renderString (c :: d :: body) = c.render ++ renderString (d :: body) := rfl
    have hnext : c.isHigh →
        ((codeUnitAt (done ++ (c.render ++ (renderString (d :: body) ++ '"' :: rest)))
          (byteLen (done ++ c.render))).any fun low => 0xDC00 ≤ low && low ≤ 0xDFFF) = false := by
      intro hhigh
      have hcode := codeUnitAt_render (done ++ c.render) (renderString body ++ '"' :: rest) d
      rw [append_assoc] at hcode
      rw [show renderString (d :: body) = d.render ++ renderString body from rfl,
        append_assoc d.render, hcode]
      rw [hhigh, Bool.true_and, Bool.not_eq_true] at hpair
      exact hpair
    obtain ⟨out', copied', hscan, hprogress, hzero⟩ := scan_char _ h hnext
    obtain ⟨out'', copied'', hrest, hprogress', hzero'⟩ := ih hprogress
    refine ⟨out'', copied'', ?_, ?_, ?_⟩
    · rw [hrender]
      simp only [append_assoc] at hscan hrest ⊢
      rw [hscan, hrest]
    · have hrepair : renderString (repairString (c :: d :: body)) =
          (if c.isHigh || c.isLow then replacement else c).render ++
            renderString (repairString (d :: body)) := by
        rw [repairString, unpaired, if_neg hpair]
        rfl
      rw [hrender, hrepair]
      simpa only [append_assoc] using hprogress'
    · rw [hzero', hzero, mem_cons, not_or]
      cases c.isHigh || c.isLow <;> simp

/-! ### Texts -/

variable (lexemes : List Lexeme)

/-- No string has half of a surrogate pair alone. -/
def Paired : Prop :=
  ∀ body, .string body ∈ lexemes → true ∉ unpaired body

def repaired : List Lexeme := lexemes.map (Lexeme.mapString repairString)

lemma mapString_of_ne {lexeme : Lexeme} (h : ∀ body, lexeme ≠ .string body) :
    lexeme.mapString repairString = lexeme := by
  cases lexeme with
  | string body => exact absurd rfl (h body)
  | _ => rfl

lemma scan_lexeme (lexeme : Lexeme) (rest : Text) (h : Progress done out copied result) :
    ∃ out' copied', scan (done ++ (lexeme.render ++ rest)) out copied (byteLen done) =
        scan (done ++ (lexeme.render ++ rest)) out' copied' (byteLen (done ++ lexeme.render)) ∧
      Progress (done ++ lexeme.render) out' copied'
        (result ++ (lexeme.mapString repairString).render) ∧
      (copied' = 0 ↔ copied = 0 ∧ Paired [lexeme]) := by
  by_cases hstring : ∃ body, lexeme = .string body
  · obtain ⟨body, rfl⟩ := hstring
    -- the quotes are no backslashes
    have hopen := scan_plain done ['"'] (renderString body ++ '"' :: rest) out copied (by decide)
    obtain ⟨out', copied', hscan, hprogress, hzero⟩ := scan_string body rest (h.keep ['"'])
    have hclose := scan_plain (done ++ (['"'] ++ renderString body)) ['"'] rest out' copied'
      (by decide)
    have hrender : (Lexeme.string body).render = ['"'] ++ (renderString body ++ ['"']) := rfl
    have hrepair : ((Lexeme.string body).mapString repairString).render =
        ['"'] ++ (renderString (repairString body) ++ ['"']) := rfl
    refine ⟨out', copied', ?_, ?_, ?_⟩
    · rw [hrender]
      simp only [append_assoc, cons_append, nil_append] at hopen hscan hclose ⊢
      rw [hopen, hscan, hclose]
    · rw [hrender, hrepair]
      have hall := hprogress.keep ['"']
      simpa only [append_assoc] using hall
    · rw [hzero, Paired]
      simp
  · rw [not_exists] at hstring
    refine ⟨out, copied, scan_plain done _ rest out copied (Lexeme.notMem_render hstring), ?_, ?_⟩
    · rw [mapString_of_ne hstring]
      exact h.keep _
    · refine ⟨fun hzero => ⟨hzero, fun body hbody => ?_⟩, fun hboth => hboth.1⟩
      exact absurd (mem_singleton.mp hbody).symm (hstring body)

lemma scan_lexemes (h : Progress done out copied result) :
    ∃ out' copied', scan (done ++ render lexemes) out copied (byteLen done) = some (out', copied') ∧
      Progress (done ++ render lexemes) out' copied' (result ++ render (repaired lexemes)) ∧
      (copied' = 0 ↔ copied = 0 ∧ Paired lexemes) := by
  induction lexemes generalizing done out copied result with
  | nil =>
    refine ⟨out, copied, scan_end done [] out copied not_mem_nil, h.keep [], ?_⟩
    refine ⟨fun hzero => ⟨hzero, fun body hbody => ?_⟩, fun hboth => hboth.1⟩
    cases hbody
  | cons lexeme lexemes ih =>
    obtain ⟨out', copied', hscan, hprogress, hzero⟩ := scan_lexeme lexeme (render lexemes) h
    obtain ⟨out'', copied'', hrest, hprogress', hzero'⟩ := ih hprogress
    have hrender : render (lexeme :: lexemes) = lexeme.render ++ render lexemes := rfl
    have hrepair : render (repaired (lexeme :: lexemes)) =
        (lexeme.mapString repairString).render ++ render (repaired lexemes) := rfl
    refine ⟨out'', copied'', ?_, ?_, ?_⟩
    · rw [hrender, hscan, ← append_assoc, hrest]
    · rw [hrender, hrepair, ← append_assoc, ← append_assoc]
      exact hprogress'
    · rw [hzero', hzero, and_assoc]
      refine and_congr_right fun _ => ⟨fun hboth body hbody => ?_, fun hall => ⟨?_, ?_⟩⟩
      · rcases mem_cons.mp hbody with heq | hbody
        · exact hboth.1 body (mem_singleton.mpr heq)
        · exact hboth.2 body hbody
      · intro body hbody
        exact hall body (mem_cons.mpr (.inl (mem_singleton.mp hbody)))
      · exact fun body hbody => hall body (mem_cons_of_mem _ hbody)

lemma replaceLoneSurrogateEscapes_render :
    (Paired lexemes → replaceLoneSurrogateEscapes (render lexemes) = some none) ∧
    (¬ Paired lexemes → replaceLoneSurrogateEscapes (render lexemes) =
      some (some (render (repaired lexemes)))) := by
  have hstart : Progress [] [] 0 [] := ⟨[], [], rfl, rfl, rfl⟩
  obtain ⟨out, copied, hscan, ⟨kept, tail, hsplit, rfl, hresult⟩, hzero⟩ :=
    scan_lexemes lexemes hstart
  rw [nil_append] at hscan hsplit hresult
  rw [byteLen_nil] at hscan
  rw [replaceLoneSurrogateEscapes, hscan]
  refine ⟨fun hpaired => ?_, fun hlone => ?_⟩
  · show (if byteLen kept = 0 then _ else _) = _
    rw [if_pos (hzero.mpr ⟨rfl, hpaired⟩)]
    rfl
  · have hpos : ¬ byteLen kept = 0 := fun heq => hlone (hzero.mp heq).2
    show (if byteLen kept = 0 then _ else _) = _
    rw [if_neg hpos, hsplit, dropBytes_byteLen]
    show some (some (out ++ tail)) = _
    rw [hresult]

lemma not_unpaired_repairString :
    true ∉ unpaired (repairString body) := by
  -- a replaced character, or one that is no surrogate, starts no pair
  have hsingle : ∀ (c : StringChar) (rest : List StringChar), true ∉ unpaired rest →
      true ∉ unpaired ((if c.isHigh || c.isLow then replacement else c) :: rest) := by
    intro c rest hrest
    by_cases hc : (c.isHigh || c.isLow)
    · rw [if_pos hc, unpaired_cons rfl]
      exact not_mem_cons_of_ne_of_not_mem (by decide) hrest
    · rw [Bool.not_eq_true, Bool.or_eq_false_iff] at hc
      rw [hc.1, hc.2, Bool.or_false, if_neg Bool.false_ne_true, unpaired_cons hc.1, hc.2]
      exact not_mem_cons_of_ne_of_not_mem (by decide) hrest
  fun_induction unpaired body with
  | case1 => exact not_mem_nil
  | case2 c => exact hsingle c [] not_mem_nil
  | case3 c d body hpair ih =>
    have hrepair : repairString (c :: d :: body) = c :: d :: repairString body := by
      rw [repairString, unpaired, if_pos hpair]
      rfl
    rw [hrepair, unpaired, if_pos hpair]
    exact not_mem_cons_of_ne_of_not_mem (by decide) (not_mem_cons_of_ne_of_not_mem (by decide) ih)
  | case4 c d body hpair ih =>
    have hrepair : repairString (c :: d :: body) =
        (if c.isHigh || c.isLow then replacement else c) :: repairString (d :: body) := by
      rw [repairString, unpaired, if_neg hpair]
      rfl
    rw [hrepair]
    exact hsingle c _ ih

lemma paired_repaired : Paired (repaired lexemes) := by
  intro body hbody
  obtain ⟨lexeme, _, heq⟩ := mem_map.mp hbody
  cases lexeme with
  | string original =>
    obtain rfl : repairString original = body := Lexeme.string.inj heq
    exact not_unpaired_repairString original
  | _ => cases heq

/-- For every JSON text the repair returns nothing exactly when each of its surrogates is paired.
Otherwise exactly the unpaired ones are replaced: it is the text of the same lexemes with repaired
strings, a JSON text again, in which nothing is left to repair. -/
theorem replaceLoneSurrogateEscapes_document {lexemes : List Lexeme} (h : Document lexemes) :
    (replaceLoneSurrogateEscapes (render lexemes) = some none ↔ Paired lexemes) ∧
    (¬ Paired lexemes →
      replaceLoneSurrogateEscapes (render lexemes) = some (some (render (repaired lexemes))) ∧
      Document (repaired lexemes) ∧
      replaceLoneSurrogateEscapes (render (repaired lexemes)) = some none) := by
  obtain ⟨hpaired, hlone⟩ := replaceLoneSurrogateEscapes_render lexemes
  refine ⟨⟨fun hnone => ?_, hpaired⟩, fun hnot => ⟨hlone hnot, h.map, ?_⟩⟩
  · by_contra hnot
    rw [hlone hnot] at hnone
    cases hnone
  · exact (replaceLoneSurrogateEscapes_render (repaired lexemes)).1 (paired_repaired lexemes)

def loneHigh : StringChar :=
  .unit ⟨'d', 13, by decide⟩ ⟨'8', 8, by decide⟩ ⟨'3', 3, by decide⟩ ⟨'d', 13, by decide⟩

theorem replaceLoneSurrogateEscapes_lone :
    replaceLoneSurrogateEscapes "\"\\ud83d\"".toList = some (some "\"\uFFFD\"".toList) := by
  have hdocument : Document [.string [loneHigh]] :=
    .text (forall_mem_nil _) (.string [loneHigh]) (forall_mem_nil _)
  have hlone : ¬ Paired [.string [loneHigh]] := by
    intro h
    exact h [loneHigh] (mem_singleton_self _) (by decide)
  exact ((replaceLoneSurrogateEscapes_document hdocument).2 hlone).1

end Hooks
