/-
What one pass of the sanitizer takes out, and that it takes out nothing else.

Every offset that a pass computes is a character boundary: an escape is made of ASCII
bytes, each a character of its own, and the loops advance by whole characters or whole
escapes.  So no slice splits a character, and the merged spans come in order.
-/
import AiMemory.Core.Sanitize

open Utf8 List

namespace Sanitize

open Option (bind_eq_some_iff bind_eq_bind bind_some elim_some)

variable {text : Text} {pos : ℕ}

variable {α : Type} {l : List α} {i fuel : ℕ} {span : Span} {spans : List Span}

lemma exists_mapM {β : Type} {f : α → Option β} {P : α → β → Prop}
    (h : ∀ x ∈ l, ∃ y, f x = some y ∧ P x y) :
    ∃ ys, l.mapM f = some ys ∧ (∀ x ∈ l, ∃ y ∈ ys, f x = some y ∧ P x y) ∧
      ∀ y ∈ ys, ∃ x ∈ l, f x = some y ∧ P x y := by
  induction l with
  | nil => exact ⟨[], rfl, (fun _ h => nomatch h), fun _ h => nomatch h⟩
  | cons x l ih =>
    obtain ⟨y, hy, hP⟩ := h x mem_cons_self
    obtain ⟨ys, hys, hleft, hright⟩ := ih fun x hx => h x (mem_cons_of_mem _ hx)
    refine ⟨y :: ys, by simp [hy, hys], ?_, ?_⟩
    · intro x' hx'
      rcases mem_cons.mp hx' with rfl | hx'
      · exact ⟨y, mem_cons_self, hy, hP⟩
      · obtain ⟨y', hy', h'⟩ := hleft x' hx'
        exact ⟨y', mem_cons_of_mem _ hy', h'⟩
    · intro y' hy'
      rcases mem_cons.mp hy' with rfl | hy'
      · exact ⟨x, mem_cons_self, hy, hP⟩
      · obtain ⟨x', hx', h'⟩ := hright y' hy'
        exact ⟨x', mem_cons_of_mem _ hx', h'⟩

lemma getElem?_partitionPoint {p : α → Bool} {x : α} (h : l[partitionPoint l p]? = some x) :
    p x = false := by
  induction l with
  | nil => cases h
  | cons a l ih =>
    rw [partitionPoint, takeWhile_cons] at h
    by_cases ha : p a
    · rw [if_pos ha, length_cons, getElem?_cons_succ] at h
      exact ih h
    · rw [if_neg ha] at h
      cases h
      simpa using ha

lemma getElem?_before_partitionPoint {p : α → Bool} (h : i < partitionPoint l p) :
    ∃ x, l[i]? = some x ∧ p x := by
  induction l generalizing i with
  | nil => cases h
  | cons a l ih =>
    rw [partitionPoint, takeWhile_cons] at h
    by_cases ha : p a
    · rw [if_pos ha, length_cons] at h
      cases i with
      | zero => exact ⟨a, rfl, ha⟩
      | succ i => exact ih (Nat.lt_of_succ_lt_succ h)
    · rw [if_neg ha] at h
      cases h

lemma toHexDigit_ascii {b : UInt8} {d : ℕ} (h : toHexDigit b = some d) : b.toNat < 128 := by
  simp only [toHexDigit] at h
  split at h
  · rename_i hb
    simp at hb
    omega
  · split at h
    · rename_i hb
      simp at hb
      omega
    · split at h
      · rename_i hb
        simp at hb
        omega
      · cases h

lemma foldlM_hex {l : List UInt8} {unit n : ℕ}
    (h : l.foldlM (fun unit b => (toHexDigit b).map fun digit => unit <<< 4 ||| digit) unit =
      some n) : ∀ b ∈ l, b.toNat < 128 := by
  induction l generalizing unit with
  | nil => intro b hb; cases hb
  | cons a l ih =>
    rw [foldlM_cons] at h
    obtain ⟨next, hnext, hrest⟩ := bind_eq_some_iff.mp h
    obtain ⟨digit, hdigit, -⟩ := Option.map_eq_some_iff.mp hnext
    intro b hb
    rcases mem_cons.mp hb with rfl | hb
    · exact toHexDigit_ascii hdigit
    · exact ih hrest b hb

lemma boundary_of_jsonHexUnit {unit : ℕ} (h : jsonHexUnit (bytes text) pos = some unit) :
    Boundary text (pos + 4) := by
  rw [jsonHexUnit] at h
  split at h
  · rename_i hlen
    have hlt : pos + 3 < (bytes text).length := by omega
    have hget : (bytes text)[pos + 3]? = some (bytes text)[pos + 3] :=
      getElem?_eq_getElem hlt
    refine (boundary_of_ascii hget (foldlM_hex h _ ?_)).2
    refine mem_of_getElem? (i := 3) ?_
    rw [getElem?_take_of_lt (by omega), getElem?_drop, hget]
  · cases h

lemma boundary_of_jsonUnicodeEscapeAt {c : Char} {len : ℕ}
    (h : jsonUnicodeEscapeAt (bytes text) pos = some (c, len)) :
    0 < len ∧ Boundary text (pos + len) := by
  rw [jsonUnicodeEscapeAt] at h
  obtain ⟨unit, hunit, h⟩ := bind_eq_some_iff.mp h
  split at h
  · obtain ⟨c', -, h⟩ := bind_eq_some_iff.mp h
    cases h
    exact ⟨by omega, boundary_of_jsonHexUnit hunit⟩
  · split at h
    · obtain ⟨low, hlow, h⟩ := bind_eq_some_iff.mp h
      obtain ⟨c', -, h⟩ := bind_eq_some_iff.mp h
      cases h
      exact ⟨by omega, boundary_of_jsonHexUnit (Option.filter_eq_some_iff.mp hlow).1⟩
    · cases h

lemma boundary_of_jsonEscapeAt {c : Char} {len : ℕ}
    (h : jsonEscapeAt (bytes text) pos = some (c, len)) :
    0 < len ∧ Boundary text (pos + len) := by
  have hshort : ∀ b : UInt8, (bytes text)[pos + 1]? = some b → b.toNat < 128 →
      Boundary text (pos + 2) := fun b hb hascii => (boundary_of_ascii hb hascii).2
  rw [jsonEscapeAt] at h
  split at h
  · split at h
    case h_9 => exact boundary_of_jsonUnicodeEscapeAt h
    case h_10 => cases h
    all_goals
      rename_i hnext
      cases h
      exact ⟨by omega, hshort _ hnext (by decide)⟩
  · cases h

lemma exists_char (h : Boundary text pos) (hlt : pos < byteLen text) :
    ∃ c rest, dropBytes text pos = some (c :: rest) ∧ Boundary text (pos + c.utf8Size) := by
  obtain ⟨before, after, rfl, rfl, hdrop⟩ := exists_dropBytes h
  cases after with
  | nil => simp at hlt
  | cons c rest => exact ⟨c, rest, hdrop, Boundary.next before rest c⟩

lemma sourceLenAt_spec (h : Boundary text pos) (hlt : pos < byteLen text) :
    ∃ len, sourceLenAt text pos = some len ∧ 0 < len ∧ Boundary text (pos + len) := by
  rw [sourceLenAt]
  cases hescape : jsonEscapeAt (bytes text) pos with
  | some escape =>
    obtain ⟨c, len⟩ := escape
    exact ⟨len, rfl, boundary_of_jsonEscapeAt hescape⟩
  | none =>
    obtain ⟨c, rest, hdrop, hnext⟩ := exists_char h hlt
    refine ⟨c.utf8Size, ?_, c.utf8Size_pos, hnext⟩
    rw [hdrop]
    rfl

lemma lt_byteLen_of_getElem? {b : UInt8} (h : (bytes text)[pos]? = some b) :
    pos < byteLen text := by
  rw [← length_bytes]
  exact (List.getElem?_eq_some_iff.mp h).1

/-- The offsets a view is made of: boundaries before `index`, in order. -/
structure Origins (text : Text) (index : ℕ) (origin : List ℕ) : Prop where
  aligned : ∀ o ∈ origin, Boundary text o ∧ o < byteLen text
  before : ∀ o ∈ origin, o ≤ index
  ordered : origin.Pairwise (· ≤ ·)

lemma Origins.push {index : ℕ} {shadow : Shadow} (h : Origins text index shadow.origin)
    (hindex : Boundary text index) (hlt : index < byteLen text) (c : Char) {next : ℕ}
    (hnext : index ≤ next) : Origins text next (shadow.push c index).origin where
  aligned := by
    intro o ho
    rcases mem_append.mp ho with ho | ho
    · exact h.aligned o ho
    · rw [eq_of_mem_replicate ho]
      exact ⟨hindex, hlt⟩
  before := by
    intro o ho
    rcases mem_append.mp ho with ho | ho
    · exact (h.before o ho).trans hnext
    · rwa [eq_of_mem_replicate ho]
  ordered := by
    refine pairwise_append.mpr ⟨h.ordered, ?_, ?_⟩
    · exact pairwise_replicate_of_refl
    · intro a ha b hb
      rw [eq_of_mem_replicate hb]
      exact h.before a ha

lemma ofFrom_spec {index : ℕ} {shadow : Shadow} (hindex : Boundary text index)
    (hfuel : byteLen text < fuel + index) (h : Origins text index shadow.origin) :
    ∃ view, Shadow.ofFrom text fuel index shadow = some view ∧
      Origins text (byteLen text) view.origin := by
  induction fuel generalizing index shadow with
  | zero =>
    have := hindex.le
    omega
  | succ fuel ih =>
    rw [Shadow.ofFrom]
    by_cases hlt : index < byteLen text
    · obtain ⟨c, rest, hdrop, hchar⟩ := exists_char hindex hlt
      simp only [hdrop, bind_eq_bind, bind_some]
      -- the loop advances by an escape, or else by a character
      obtain ⟨d, len, hread, hpos, hnext⟩ : ∃ d len,
          (jsonEscapeAt (bytes text) index).getD (c, c.utf8Size) = (d, len) ∧ 0 < len ∧
            Boundary text (index + len) := by
        cases hescape : jsonEscapeAt (bytes text) index with
        | some escape => exact ⟨escape.1, escape.2, rfl, boundary_of_jsonEscapeAt hescape⟩
        | none => exact ⟨c, c.utf8Size, rfl, c.utf8Size_pos, hchar⟩
      rw [hread]
      refine ih hnext (by omega) ?_
      dsimp only
      split
      · exact ⟨h.aligned, fun o ho => (h.before o ho).trans (by omega), h.ordered⟩
      · exact h.push hindex hlt d (by omega)
    · obtain ⟨before, after, rfl, rfl, hdrop⟩ := exists_dropBytes hindex
      have hnil : after = [] := by
        cases after with
        | nil => rfl
        | cons c rest =>
          have := c.utf8Size_pos
          simp only [byteLen_append, byteLen_cons] at hlt
          omega
      subst hnil
      refine ⟨shadow, ?_, h.aligned, fun o ho => (h.before o ho).trans hindex.le, h.ordered⟩
      rw [hdrop]
      rfl

lemma shadow_of_spec (text : Text) : ∃ shadow, Shadow.of text = some shadow ∧
    ∀ view ∈ shadow, Origins text (byteLen text) view.origin := by
  rw [Shadow.of]
  split
  · have hstart : Origins text 0 (Shadow.mk [] []).origin :=
      ⟨(fun _ h => nomatch h), (fun _ h => nomatch h), .nil⟩
    obtain ⟨view, hview, horigins⟩ := ofFrom_spec (boundary_zero text) (Nat.lt_succ_self _) hstart
    refine ⟨some view, by rw [hview]; rfl, ?_⟩
    intro view' hview'
    cases hview'
    exact horigins
  · exact ⟨none, rfl, fun _ h => nomatch h⟩

def Aligned (text : Text) (span : Span) : Prop :=
  Boundary text span.1 ∧ Boundary text span.2 ∧ span.1 ≤ span.2

lemma originalSpan_spec {view : Shadow} (h : Origins text (byteLen text) view.origin)
    (start stop : ℕ) : ∃ span, view.originalSpan text start stop = some span ∧
      Aligned text span := by
  have hfirst : Boundary text (view.origin[start]?.getD (byteLen text)) := by
    cases hget : view.origin[start]? with
    | none => exact boundary_end text
    | some o => exact (h.aligned o (mem_of_getElem? hget)).1
  have hempty : ∃ span, some (view.origin[start]?.getD (byteLen text),
      view.origin[start]?.getD (byteLen text)) = some span ∧ Aligned text span :=
    ⟨_, rfl, hfirst, hfirst, le_rfl⟩
  rw [Shadow.originalSpan]
  split
  · rename_i hlt
    split
    · rename_i last hlast
      obtain ⟨hbound, hsize⟩ := h.aligned last (mem_of_getElem? hlast)
      obtain ⟨len, hlen, hpos, hstop⟩ := sourceLenAt_spec hbound hsize
      have hin : stop - 1 < view.origin.length := (List.getElem?_eq_some_iff.mp hlast).1
      have horder : view.origin[start]?.getD (byteLen text) ≤ last := by
        rw [getElem?_eq_getElem (show start < view.origin.length by omega),
          Option.getD_some]
        rw [getElem?_eq_getElem hin] at hlast
        rw [← Option.some.inj hlast]
        rcases Nat.lt_or_ge start (stop - 1) with hbefore | hsame
        · exact pairwise_iff_getElem.mp h.ordered _ _ _ _ hbefore
        · simp only [show start = stop - 1 by omega, le_refl]
      refine ⟨_, by rw [hlen]; rfl, hfirst, hstop, ?_⟩
      exact horder.trans (Nat.le_add_right _ _)
    · exact hempty
  · exact hempty

lemma startsAssignment_spec (rest : Text) : ∃ b, startsAssignment rest = some b := by
  rw [startsAssignment]
  generalize (if exportWord.isPrefixOf rest then rest.drop exportWord.length else rest) = line
  split
  · exact ⟨false, rfl⟩
  · rename_i hkey
    simp only [Bool.or_eq_true, decide_eq_true_eq, not_or] at hkey
    -- the bytes of a key are ASCII, so a character starts after them
    have hbound : Boundary line (partitionPoint (bytes line) isKeyByte) := by
      have hpos : 0 < partitionPoint (bytes line) isKeyByte := Nat.pos_of_ne_zero hkey.1
      obtain ⟨b, hget, hkeyByte⟩ := getElem?_before_partitionPoint (Nat.sub_lt hpos Nat.one_pos)
      have hascii : b.toNat < 128 := by
        simp only [isKeyByte, Bool.or_eq_true, Bool.and_eq_true, decide_eq_true_eq] at hkeyByte
        omega
      have hnext := (boundary_of_ascii hget hascii).2
      rwa [Nat.sub_add_cancel hpos] at hnext
    obtain ⟨-, after, -, -, hdrop⟩ := exists_dropBytes hbound
    rw [partitionPoint] at hdrop
    rw [hdrop]
    simp only [bind_eq_bind, bind_some]
    split
    · exact ⟨_, rfl⟩
    · exact ⟨_, rfl⟩

lemma lastLineEndFrom_spec (hpos : Boundary text pos) (hfuel : byteLen text < fuel + pos) :
    ∃ stop, lastLineEndFrom text fuel pos = some stop ∧ ∀ p ∈ stop, Boundary text p := by
  induction fuel generalizing pos with
  | zero =>
    have := hpos.le
    omega
  | succ fuel ih =>
    have hhere : ∀ p ∈ some pos, Boundary text p := by
      rintro p ⟨rfl⟩
      exact hpos
    rw [lastLineEndFrom]
    cases hbyte : (bytes text)[pos]? with
    | none => exact ⟨some pos, rfl, hhere⟩
    | some byte =>
      have hlt := lt_byteLen_of_getElem? hbyte
      dsimp only
      by_cases hquote : byte = quote
      · rw [if_pos hquote]
        exact ⟨some pos, rfl, hhere⟩
      rw [if_neg hquote]
      by_cases hback : byte = backslash
      · rw [if_pos hback]
        split
        · exact ⟨some pos, rfl, hhere⟩
        · split
          · exact ⟨none, rfl, fun _ h => nomatch h⟩
          · obtain ⟨len, hlen, hlen0, hnext⟩ := sourceLenAt_spec hpos hlt
            simp only [hlen, bind_eq_bind, bind_some]
            rw [show max len 1 = len by omega]
            exact ih hnext (by omega)
      · rw [if_neg hback]
        obtain ⟨c, rest, hdrop, hnext⟩ := exists_char hpos hlt
        have hsize := c.utf8Size_pos
        simp only [hdrop, bind_eq_bind, bind_some, head?_cons, elim_some]
        exact ih hnext (by omega)

lemma lastLineEnd_spec (hpos : Boundary text pos) :
    ∃ stop, lastLineEnd text pos = some stop ∧ ∀ p ∈ stop, Boundary text p := by
  obtain ⟨before, after, rfl, rfl, hdrop⟩ := exists_dropBytes hpos
  rw [lastLineEnd, hdrop]
  simp only [bind_eq_bind, bind_some]
  -- an escaped line break that follows is skipped
  have hstart : Boundary (before ++ after)
      (if "\\n".toList.isPrefixOf after then byteLen before + 2 else byteLen before) := by
    split
    · rename_i hbreak
      obtain ⟨rest, rfl⟩ := isPrefixOf_iff_prefix.mp hbreak
      exact ⟨before ++ "\\n".toList, rest, by simp, by simp; decide⟩
    · exact hpos
  generalize (if "\\n".toList.isPrefixOf after then byteLen before + 2 else byteLen before) = start
    at hstart
  obtain ⟨-, line, -, -, hline⟩ := exists_dropBytes hstart
  obtain ⟨assigns, hassigns⟩ := startsAssignment_spec line
  simp only [hline, hassigns, bind_some]
  split
  · exact ⟨none, rfl, fun _ h => nomatch h⟩
  · obtain ⟨stop, hstop, hbound⟩ := lastLineEndFrom_spec hstart
      (show byteLen (before ++ after) < byteLen (before ++ after) + 1 + start by omega)
    rw [hstop]
    refine ⟨_, rfl, fun p hp => hbound p ?_⟩
    exact (Option.filter_eq_some_iff.mp hp).1

lemma jsonValueEndFrom_spec (hpos : Boundary text pos) (hfuel : byteLen text < fuel + pos) :
    ∃ stop, jsonValueEndFrom text fuel pos = some stop ∧ Boundary text stop := by
  induction fuel generalizing pos with
  | zero =>
    have := hpos.le
    omega
  | succ fuel ih =>
    rw [jsonValueEndFrom]
    cases hbyte : (bytes text)[pos]? with
    | none => exact ⟨pos, rfl, hpos⟩
    | some byte =>
      have hlt := lt_byteLen_of_getElem? hbyte
      dsimp only
      by_cases hquote : byte = quote
      · rw [if_pos hquote]
        exact ⟨pos, rfl, hpos⟩
      rw [if_neg hquote]
      by_cases hback : byte = backslash
      · rw [if_pos hback]
        split
        · exact ⟨pos, rfl, hpos⟩
        · obtain ⟨len, hlen, hlen0, hnext⟩ := sourceLenAt_spec hpos hlt
          simp only [hlen, bind_eq_bind, bind_some]
          rw [show max len 1 = len by omega]
          split
          · obtain ⟨stop, hstop, hbound⟩ := lastLineEnd_spec hnext
            rw [hstop]
            refine ⟨stop.getD pos, rfl, ?_⟩
            cases stop with
            | none => exact hpos
            | some p => exact hbound p rfl
          · exact ih hnext (by omega)
      · rw [if_neg hback]
        obtain ⟨c, rest, hdrop, hnext⟩ := exists_char hpos hlt
        have hsize := c.utf8Size_pos
        simp only [hdrop, bind_eq_bind, bind_some, head?_cons, elim_some]
        exact ih hnext (by omega)

lemma jsonValueEnd_spec (hpos : Boundary text pos) :
    ∃ stop, jsonValueEnd text pos = some stop ∧ Boundary text stop :=
  jsonValueEndFrom_spec hpos (by omega)

lemma mem_lineBreaks {start : ℕ} {line : Text} (h : i ∈ lineBreaks start line) :
    ∃ before after, line = before ++ '\n' :: after ∧ i = start + byteLen before := by
  induction line generalizing start with
  | nil => cases h
  | cons c line ih =>
    have hlater : i ∈ lineBreaks (start + c.utf8Size) line →
        ∃ before after, c :: line = before ++ '\n' :: after ∧ i = start + byteLen before := by
      intro h
      obtain ⟨before, after, rfl, rfl⟩ := ih h
      exact ⟨c :: before, after, rfl, by simp [Nat.add_assoc]⟩
    rw [lineBreaks] at h
    split at h
    · rename_i hbreak
      rcases mem_cons.mp h with rfl | h
      · exact ⟨[], line, by rw [hbreak]; rfl, rfl⟩
      · exact hlater h
    · exact hlater h

lemma lineAt_spec (hpos : Boundary text pos) : Aligned text (lineAt text pos) := by
  have hbreak : ∀ i ∈ lineBreaks 0 text, Boundary text i ∧ Boundary text (i + 1) := by
    intro i hi
    obtain ⟨before, after, rfl, rfl⟩ := mem_lineBreaks hi
    rw [Nat.zero_add]
    exact ⟨⟨before, _, rfl, rfl⟩, Boundary.next before after '\n'⟩
  -- the line starts at or before the offset, and ends at or after it
  have hstart : Boundary text (lineAt text pos).1 ∧ (lineAt text pos).1 ≤ pos := by
    rw [lineAt]
    dsimp only
    split
    · exact ⟨boundary_zero text, Nat.zero_le _⟩
    · rename_i hline
      obtain ⟨i, hi, hlt⟩ := getElem?_before_partitionPoint (i := partitionPoint
        (lineBreaks 0 text) (fun i => decide (i < pos)) - 1) (Nat.sub_lt (by omega) Nat.one_pos)
      rw [hi]
      exact ⟨(hbreak i (mem_of_getElem? hi)).2, of_decide_eq_true hlt⟩
  have hstop : Boundary text (lineAt text pos).2 ∧ pos ≤ (lineAt text pos).2 := by
    rw [lineAt]
    dsimp only
    cases hget : (lineBreaks 0 text)[partitionPoint (lineBreaks 0 text) fun i => i < pos]? with
    | none => exact ⟨boundary_end text, hpos.le⟩
    | some i =>
      have hge : decide (i < pos) = false :=
        getElem?_partitionPoint (p := fun i => decide (i < pos)) hget
      exact ⟨(hbreak i (mem_of_getElem? hget)).1, by simpa using hge⟩
  exact ⟨hstart.1, hstop.1, hstart.2.trans hstop.2⟩

variable (isJson : Text → Bool)

lemma jsonLine_spec (hpos : Boundary text pos) :
    ∃ b, jsonLine isJson text pos = some b := by
  obtain ⟨hstart, hstop, hle⟩ := lineAt_spec hpos
  obtain ⟨line, hline⟩ := exists_slice hstart hstop hle
  exact ⟨_, by rw [jsonLine, hline]; rfl⟩

lemma backslash_before {l : List UInt8} {pos : ℕ} (hle : pos ≤ l.length)
    (h : oddRunBefore l pos) : 0 < pos ∧ l[pos - 1]? = some backslash := by
  rw [oddRunBefore, decide_eq_true_eq] at h
  cases hlast : (l.take pos).reverse with
  | nil =>
    rw [hlast] at h
    simp at h
  | cons b run =>
    rw [hlast, takeWhile_cons] at h
    split at h
    · rename_i hb
      have hpos : 0 < pos := by
        rcases Nat.eq_zero_or_pos pos with rfl | hpos
        · simp at hlast
        · exact hpos
      refine ⟨hpos, ?_⟩
      have hget : (l.take pos)[pos - 1]? = some b := by
        have hhead : (l.take pos).reverse[0]? = some b := by rw [hlast]; rfl
        rw [getElem?_reverse (by rw [length_take]; omega), length_take,
          show min pos l.length - 1 - 0 = pos - 1 by omega] at hhead
        exact hhead
      rw [getElem?_take_of_lt (by omega)] at hget
      rw [hget, of_decide_eq_true hb]
    · simp at h

lemma wholeEscapes_spec (h : Aligned text span) :
    ∃ w, wholeEscapes text span = some w ∧ Aligned text w ∧ w.1 ≤ span.1 ∧ span.2 ≤ w.2 := by
  obtain ⟨hstart, hstop, hle⟩ := h
  have hback : ∀ p, Boundary text p → oddRunBefore (bytes text) p →
      0 < p ∧ Boundary text (p - 1) := by
    intro p hp hodd
    obtain ⟨hpos, hbyte⟩ := backslash_before (by rw [length_bytes]; exact hp.le) hodd
    exact ⟨hpos, (boundary_of_ascii hbyte (by decide)).1⟩
  have hfirst : ∃ start, (if 0 < span.1 && oddRunBefore (bytes text) span.1 then span.1 - 1
      else span.1) = start ∧ Boundary text start ∧ start ≤ span.1 := by
    refine ⟨_, rfl, ?_⟩
    split
    · rename_i hodd
      simp only [Bool.and_eq_true, decide_eq_true_eq] at hodd
      exact ⟨(hback span.1 hstart hodd.2).2, Nat.sub_le _ _⟩
    · exact ⟨hstart, le_rfl⟩
  obtain ⟨start, heq, hbound, hbefore⟩ := hfirst
  rw [wholeEscapes]
  simp only [heq]
  split
  · rename_i hodd
    simp only [Bool.and_eq_true, decide_eq_true_eq] at hodd
    obtain ⟨hpos, hlast⟩ := hback span.2 hstop hodd.2
    obtain ⟨len, hlen, hlen0, hnext⟩ := sourceLenAt_spec hlast (by omega)
    refine ⟨(start, max (span.2 - 1 + len) span.2), by rw [hlen]; rfl, ⟨hbound, ?_, ?_⟩,
      hbefore, le_max_right _ _⟩
    · dsimp only
      rcases le_total (span.2 - 1 + len) span.2 with hmax | hmax
      · rwa [max_eq_right hmax]
      · rwa [max_eq_left hmax]
    · dsimp only
      omega
  · exact ⟨(start, span.2), rfl, ⟨hbound, hstop, hbefore.trans hle⟩, hbefore, le_rfl⟩

/-- The byte lies in one of the spans. -/
def Covers (spans : List Span) (i : ℕ) : Prop := ∃ span ∈ spans, span.1 ≤ i ∧ i < span.2

lemma covers_cons : Covers (span :: spans) i ↔ (span.1 ≤ i ∧ i < span.2) ∨ Covers spans i := by
  simp [Covers]

lemma mergeFrom_spec {rest : List Span} (hspan : Aligned text span)
    (hrest : ∀ s ∈ rest, Aligned text s) (hsorted : (span :: rest).Pairwise fun a b => a.1 ≤ b.1) :
    Apart text (mergeFrom span rest) ∧ (∀ m ∈ mergeFrom span rest, span.1 ≤ m.1) ∧
      ∀ i, Covers (mergeFrom span rest) i ↔ Covers (span :: rest) i := by
  induction rest generalizing span with
  | nil =>
    refine ⟨⟨?_, pairwise_singleton _ _⟩, ?_, fun _ => Iff.rfl⟩
    · intro m hm
      obtain rfl := mem_singleton.mp hm
      exact hspan
    · intro m hm
      rw [mem_singleton.mp hm]
  | cons next rest ih =>
    have hnext := hrest next mem_cons_self
    have hrest' : ∀ s ∈ rest, Aligned text s := fun s hs => hrest s (mem_cons_of_mem _ hs)
    obtain ⟨hstart, htail⟩ := pairwise_cons.mp hsorted
    rw [mergeFrom]
    split
    · rename_i hgap
      obtain ⟨hapart, hfirst, hcovers⟩ := ih hnext hrest' htail
      refine ⟨⟨?_, pairwise_cons.mpr ⟨fun m hm => hgap.trans (hfirst m hm), hapart.ordered⟩⟩,
        ?_, fun i => ?_⟩
      · intro m hm
        rcases mem_cons.mp hm with rfl | hm
        · exact hspan
        · exact hapart.aligned m hm
      · intro m hm
        rcases mem_cons.mp hm with rfl | hm
        · exact le_rfl
        · exact (hstart next mem_cons_self).trans (hfirst m hm)
      · rw [covers_cons, hcovers]
        exact covers_cons.symm
    · rename_i hoverlap
      have hmerged : Aligned text (span.1, max span.2 next.2) := by
        refine ⟨hspan.1, ?_, hspan.2.2.trans (le_max_left _ _)⟩
        dsimp only
        rcases le_total span.2 next.2 with hmax | hmax
        · rw [max_eq_right hmax]
          exact hnext.2.1
        · rw [max_eq_left hmax]
          exact hspan.2.1
      have hsorted' : ((span.1, max span.2 next.2) :: rest).Pairwise fun a b => a.1 ≤ b.1 :=
        pairwise_cons.mpr ⟨fun s hs => hstart s (mem_cons_of_mem _ hs),
          (pairwise_cons.mp htail).2⟩
      obtain ⟨hapart, hfirst, hcovers⟩ := ih hmerged hrest' hsorted'
      refine ⟨hapart, hfirst, fun i => ?_⟩
      have := hstart next mem_cons_self
      rw [hcovers, covers_cons, covers_cons, covers_cons]
      dsimp only
      constructor
      · rintro (⟨hi, hlt⟩ | hi)
        · by_cases hin : i < span.2
          · exact .inl ⟨hi, hin⟩
          · exact .inr (.inl ⟨by omega, by omega⟩)
        · exact .inr (.inr hi)
      · rintro (⟨hi, hlt⟩ | ⟨hi, hlt⟩ | hi)
        · exact .inl ⟨hi, by omega⟩
        · exact .inl ⟨by omega, by omega⟩
        · exact .inr hi

lemma pairwise_sortedSpans (spans : List Span) :
    (sortedSpans spans).Pairwise fun a b => a.1 ≤ b.1 := by
  have htotal : Std.Total Span.before := ⟨fun a b => by simp only [Span.before]; omega⟩
  have htrans : IsTrans Span Span.before :=
    ⟨fun a b c hab hbc => by simp only [Span.before] at *; omega⟩
  refine (pairwise_insertionSort Span.before spans).imp fun h => ?_
  rcases h with hlt | ⟨heq, -⟩
  · exact hlt.le
  · exact heq.le

lemma mem_sortedSpans : span ∈ sortedSpans spans ↔ span ∈ spans := mem_insertionSort _

lemma mergeSpans_spec (h : ∀ s ∈ spans, Aligned text s) :
    Apart text (mergeSpans (sortedSpans spans)) ∧
      ∀ i, Covers (mergeSpans (sortedSpans spans)) i ↔ Covers spans i := by
  have haligned : ∀ s ∈ sortedSpans spans, Aligned text s := fun s hs =>
    h s (mem_sortedSpans.mp hs)
  have hcovers : ∀ i, Covers (sortedSpans spans) i ↔ Covers spans i := by
    intro i
    simp only [Covers, mem_sortedSpans]
  have hsorted := pairwise_sortedSpans spans
  generalize sortedSpans spans = sorted at haligned hcovers hsorted
  cases sorted with
  | nil => exact ⟨⟨(fun _ h => nomatch h), .nil⟩, hcovers⟩
  | cons span rest =>
    obtain ⟨hapart, -, hsame⟩ := mergeFrom_spec (haligned span mem_cons_self)
      (fun s hs => haligned s (mem_cons_of_mem _ hs)) hsorted
    exact ⟨hapart, fun i => (hsame i).trans (hcovers i)⟩

lemma uncovered_eq_false {intervals : List Span} :
    uncovered intervals i = false ↔ Covers intervals i := by
  simp [uncovered, Covers]

lemma redactSpans_spec (h : ∀ s ∈ spans, Aligned text s) (label : Text) :
    ∃ intervals out, redactSpans text spans label = some out ∧ Apart text intervals ∧
      splice text (redactedMarker label) 0 intervals = some out ∧
      ∀ i, Covers intervals i ↔
        ∃ s ∈ spans, ∃ w, wholeEscapes text s = some w ∧ w.1 ≤ i ∧ i < w.2 := by
  obtain ⟨widened, hwidened, hleft, hright⟩ := exists_mapM fun s hs => wholeEscapes_spec (h s hs)
  have haligned : ∀ w ∈ widened, Aligned text w := by
    intro w hw
    obtain ⟨s, -, -, hw, -⟩ := hright w hw
    exact hw
  obtain ⟨hapart, hcovers⟩ := mergeSpans_spec haligned
  obtain ⟨out, hout, -⟩ := exists_splice (redactedMarker label) hapart (boundary_zero text)
    fun _ _ => Nat.zero_le _
  refine ⟨mergeSpans (sortedSpans widened), out, ?_, hapart, hout, fun i => ?_⟩
  · rw [redactSpans, hwidened]
    exact hout
  · rw [hcovers]
    constructor
    · rintro ⟨w, hw, hi⟩
      obtain ⟨s, hs, heq, -⟩ := hright w hw
      exact ⟨s, hs, w, heq, hi⟩
    · rintro ⟨s, hs, w, heq, hi⟩
      obtain ⟨w', hw', heq', -⟩ := hleft s hs
      rw [heq] at heq'
      cases heq'
      exact ⟨w, hw', hi⟩

/-! ### A pass -/

variable {sanitizer : Sanitizer} {pattern : Pattern}

/-- A match that no allow-list entry excuses. -/
def Exposed (sanitizer : Sanitizer) (text : Text) (pattern : Pattern) (m : Span) : Prop :=
  m ∈ pattern.matches text ∧ ∃ matched, slice text m.1 m.2 = some matched ∧
    sanitizer.allowlisted pattern.label matched = false

lemma aligned_of_mem_matches {m : Span} (h : m ∈ pattern.matches text) : Aligned text m := by
  have hwhole : ∀ c ∈ pattern.re.captures text, Aligned text c.whole :=
    pattern.re.aligned text
  rw [Pattern.matches] at h
  split at h
  · obtain ⟨c, hc, rfl⟩ := mem_map.mp h
    cases hsecret : c.secret with
    | none => exact hwhole c hc
    | some g =>
      obtain ⟨hstart, hstop, -, hle, -⟩ := pattern.re.group text c hc g hsecret
      exact ⟨hstart, hstop, hle⟩
  · obtain ⟨c, hc, rfl⟩ := mem_map.mp h
    exact hwhole c hc

lemma exposed_spec (sanitizer : Sanitizer) (text : Text) (pattern : Pattern) :
    ∃ found, sanitizer.exposed text pattern = some found ∧
      ∀ m, m ∈ found ↔ Exposed sanitizer text pattern m := by
  obtain ⟨judged, hjudged, hleft, hright⟩ := exists_mapM (l := pattern.matches text)
    (f := fun m => do
      let matched ← slice text m.1 m.2
      some (m, sanitizer.allowlisted pattern.label matched))
    (P := fun m judgment => ∃ matched, slice text m.1 m.2 = some matched ∧
      judgment = (m, sanitizer.allowlisted pattern.label matched)) (by
      intro m hm
      obtain ⟨hstart, hstop, hle⟩ := aligned_of_mem_matches hm
      obtain ⟨matched, hmatched⟩ := exists_slice hstart hstop hle
      exact ⟨_, by rw [hmatched]; rfl, matched, hmatched, rfl⟩)
  refine ⟨(judged.filter fun m => !m.2).map (·.1), by rw [Sanitizer.exposed, hjudged]; rfl, ?_⟩
  intro m
  simp only [mem_map, mem_filter, Bool.not_eq_true']
  constructor
  · rintro ⟨judgment, ⟨hmem, hnot⟩, rfl⟩
    obtain ⟨m, hm, -, matched, hmatched, rfl⟩ := hright judgment hmem
    exact ⟨hm, matched, hmatched, hnot⟩
  · rintro ⟨hm, matched, hmatched, hnot⟩
    obtain ⟨judgment, hmem, -, matched', hmatched', rfl⟩ := hleft m hm
    rw [hmatched] at hmatched'
    cases hmatched'
    exact ⟨_, ⟨hmem, hnot⟩, rfl⟩

def Overlap (a b : Span) : Prop := a.1 < b.2 ∧ b.1 < a.2

lemma overlapping_subset {sorted : List Span} {s : Span} (h : s ∈ overlapping sorted span) :
    s ∈ sorted := by
  rw [overlapping] at h
  split at h
  · exact mem_of_mem_drop (mem_of_mem_take h)
  · cases h

lemma overlapping_eq_nil {sorted : List Span} (h : ∀ s ∈ sorted, ¬Overlap s span) :
    overlapping sorted span = [] := by
  rw [overlapping]
  split
  · rename_i hle
    rcases Nat.eq_or_lt_of_le hle with heq | hlt
    · rw [heq, Nat.sub_self, take_zero]
    · -- the first of them ends after the span starts, and starts before it ends
      exfalso
      obtain ⟨s, hs, hstart⟩ := getElem?_before_partitionPoint hlt
      have hstop := getElem?_partitionPoint (p := fun s : Span => decide (s.2 ≤ span.1)) hs
      simp only [decide_eq_true_eq, decide_eq_false_iff_not] at hstart hstop
      exact h s (mem_of_getElem? hs) ⟨hstart, by omega⟩
  · rfl

lemma keptSpans_spec {view : List Span}
    (hview : ∀ s ∈ view, Aligned text s) (hspan : Aligned text span) :
    ∃ kept, keptSpans isJson text view span = some kept ∧ (∀ s ∈ kept, Aligned text s) ∧
      ((∀ s ∈ view, ¬Overlap s span) ∨ jsonLine isJson text span.1 = some false → span ∈ kept) := by
  have hself : ∀ s ∈ [span], Aligned text s := by
    intro s hs
    rwa [mem_singleton.mp hs]
  obtain ⟨json, hjson⟩ := jsonLine_spec isJson hspan.1
  rw [keptSpans]
  simp only [hjson, bind_eq_bind, bind_some]
  split
  · exact ⟨[span], rfl, hself, fun _ => mem_singleton_self _⟩
  · rename_i hcovered
    cases json with
    | false => exact ⟨[span], rfl, hself, fun _ => mem_singleton_self _⟩
    | true =>
      obtain ⟨tails, htails, -, hright⟩ := exists_mapM (l := overlapping view span)
        (f := fun s => (jsonValueEnd text s.2).bind fun stop => some (s.2, min stop span.2))
        (P := fun _ tail => Boundary text tail.1 ∧ Boundary text tail.2) (by
          intro s hs
          have hs := (hview s (overlapping_subset hs)).2.1
          obtain ⟨stop, hstop, hbound⟩ := jsonValueEnd_spec hs
          refine ⟨_, by rw [hstop]; rfl, hs, ?_⟩
          dsimp only
          rcases le_total stop span.2 with hmin | hmin
          · rwa [min_eq_left hmin]
          · rw [min_eq_right hmin]
            exact hspan.2.1)
      rw [htails]
      refine ⟨tails.filter fun tail => tail.1 < tail.2, rfl, ?_, ?_⟩
      · intro tail htail
        obtain ⟨hmem, hlt⟩ := mem_filter.mp htail
        obtain ⟨-, -, -, hstart, hstop⟩ := hright tail hmem
        exact ⟨hstart, hstop, (of_decide_eq_true hlt).le⟩
      · rintro (hnone | hno)
        · rw [overlapping_eq_nil hnone] at hcovered
          exact absurd rfl hcovered
        · cases hno

lemma passSpans_spec (sanitizer : Sanitizer) (text : Text) (pattern : Pattern) :
    ∃ shadow spans, Shadow.of text = some shadow ∧
      sanitizer.passSpans isJson text pattern = some spans ∧ (∀ s ∈ spans, Aligned text s) ∧
      (∀ view ∈ shadow, ∀ m, Exposed sanitizer view.text pattern m →
        ∃ span ∈ spans, view.originalSpan text m.1 m.2 = some span) ∧
      ∀ m, Exposed sanitizer text pattern m →
        (∀ view ∈ shadow, jsonLine isJson text m.1 = some false ∨
          ∀ v, Exposed sanitizer view.text pattern v →
            ∀ s, view.originalSpan text v.1 v.2 = some s → ¬Overlap s m) →
        m ∈ spans := by
  obtain ⟨shadow, hshadow, horigins⟩ := shadow_of_spec text
  obtain ⟨plain, hplain, hmem⟩ := exposed_spec sanitizer text pattern
  have hplain' : ∀ m ∈ plain, Aligned text m := fun m hm =>
    aligned_of_mem_matches ((hmem m).mp hm).1
  cases shadow with
  | none =>
    refine ⟨none, plain, hshadow, ?_, hplain', (fun _ h => nomatch h), fun m hm _ => (hmem m).mpr hm⟩
    rw [Sanitizer.passSpans, hshadow]
    simp only [bind_eq_bind, bind_some, Sanitizer.spans, hplain]
    rfl
  | some view =>
    obtain ⟨found, hfound, hview⟩ := exposed_spec sanitizer view.text pattern
    obtain ⟨spans, hspans, hleft, hright⟩ := exists_mapM (l := found) fun m _ =>
      originalSpan_spec (horigins view rfl) m.1 m.2
    have haligned : ∀ s ∈ spans, Aligned text s := by
      intro s hs
      obtain ⟨-, -, -, hs⟩ := hright s hs
      exact hs
    obtain ⟨kept, hkept, hkeptLeft, hkeptRight⟩ := exists_mapM fun m hm =>
      keptSpans_spec isJson (fun s hs => haligned s (mem_sortedSpans.mp hs)) (hplain' m hm)
    refine ⟨some view, spans ++ kept.flatten, hshadow, ?_, ?_, ?_, ?_⟩
    · rw [Sanitizer.passSpans, hshadow]
      simp only [bind_eq_bind, bind_some, Sanitizer.spans, hfound, hspans, hplain,
        hkept]
      rfl
    · intro s hs
      rcases mem_append.mp hs with hs | hs
      · exact haligned s hs
      · obtain ⟨l, hl, hs⟩ := mem_flatten.mp hs
        obtain ⟨-, -, -, hall, -⟩ := hkeptRight l hl
        exact hall s hs
    · rintro view ⟨rfl⟩ m hm
      obtain ⟨span, hspan, heq, -⟩ := hleft m ((hview m).mpr hm)
      exact ⟨span, mem_append_left _ hspan, heq⟩
    · intro m hm hwhole
      obtain ⟨l, hl, -, -, hself⟩ := hkeptLeft m ((hmem m).mpr hm)
      refine mem_append_right _ (mem_flatten.mpr ⟨l, hl, hself ?_⟩)
      rcases hwhole view rfl with hline | hnone
      · exact .inr hline
      · left
        intro s hs
        obtain ⟨v, hv, heq, -⟩ := hright s (mem_sortedSpans.mp hs)
        exact hnone v ((hview v).mp hv) s heq

lemma pass_eq {out : Text} (hspans : sanitizer.passSpans isJson text pattern = some spans)
    (hredact : redactSpans text spans pattern.label = some out) :
    sanitizer.pass isJson text pattern = some out := by
  rw [Sanitizer.pass, hspans]
  simp only [bind_eq_bind, bind_some]
  cases spans with
  | nil =>
    -- nothing to replace: the splice of nothing is the text
    have hwhole := slice_eq [] text []
    simp only [nil_append, append_nil, byteLen_nil, Nat.zero_add] at hwhole
    rw [redactSpans] at hredact
    exact (hwhole.symm.trans hredact :)
  | cons s spans => exact hredact

/-- One pass returns; its output is the text with disjoint intervals, cut at characters,
replaced by one marker each, and every other byte once and in order.  The intervals cover
exactly the widened spans; among them what every exposed match of the view came from, and
every exposed match of the text that starts outside a JSON line or that nothing the view
found overlaps. -/
theorem redaction_law (sanitizer : Sanitizer) (isJson : Text → Bool) (text : Text)
    (pattern : Pattern) :
    ∃ shadow spans intervals out, Shadow.of text = some shadow ∧
      sanitizer.passSpans isJson text pattern = some spans ∧
      sanitizer.pass isJson text pattern = some out ∧
      Apart text intervals ∧
      bytes out = (layout (byteLen text) 0 intervals).flatMap
        (place text (redactedMarker pattern.label)) ∧
      (layout (byteLen text) 0 intervals).count none = intervals.length ∧
      (layout (byteLen text) 0 intervals).filterMap id =
        (List.range (byteLen text)).filter (uncovered intervals) ∧
      (∀ i, uncovered intervals i = false ↔
        ∃ s ∈ spans, ∃ w, wholeEscapes text s = some w ∧ w.1 ≤ i ∧ i < w.2) ∧
      (∀ view ∈ shadow, ∀ m, Exposed sanitizer view.text pattern m →
        ∃ span, view.originalSpan text m.1 m.2 = some span ∧
          ∀ i, span.1 ≤ i → i < span.2 → uncovered intervals i = false) ∧
      ∀ m, Exposed sanitizer text pattern m →
        (∀ view ∈ shadow, jsonLine isJson text m.1 = some false ∨
          ∀ v, Exposed sanitizer view.text pattern v →
            ∀ s, view.originalSpan text v.1 v.2 = some s → ¬Overlap s m) →
        ∀ i, m.1 ≤ i → i < m.2 → uncovered intervals i = false := by
  obtain ⟨shadow, spans, hshadow, hspans, haligned, hview, hplain⟩ :=
    passSpans_spec isJson sanitizer text pattern
  obtain ⟨intervals, out, hredact, hapart, hsplice, hcovers⟩ :=
    redactSpans_spec haligned pattern.label
  have hfirst : ∀ span ∈ intervals, 0 ≤ span.1 := fun _ _ => Nat.zero_le _
  have hcovered : ∀ s ∈ spans, ∀ i, s.1 ≤ i → i < s.2 → uncovered intervals i = false := by
    intro s hs i hi hlt
    obtain ⟨w, hw, -, hbefore, hafter⟩ := wholeEscapes_spec (haligned s hs)
    exact uncovered_eq_false.mpr ((hcovers i).mpr ⟨s, hs, w, hw, by omega, by omega⟩)
  obtain ⟨out', hsplice', hbytes⟩ := exists_splice (redactedMarker pattern.label) hapart
    (boundary_zero text) hfirst
  rw [hsplice] at hsplice'
  obtain rfl := Option.some.inj hsplice'
  refine ⟨shadow, spans, intervals, out, hshadow, hspans, pass_eq isJson hspans hredact, hapart,
    hbytes, count_layout _ _ _, ?_, fun i => uncovered_eq_false.trans (hcovers i), ?_, ?_⟩
  · rw [kept_layout hapart hfirst, range_eq_range', Nat.sub_zero]
  · intro view hmem m hm
    obtain ⟨span, hspan, heq⟩ := hview view hmem m hm
    exact ⟨span, heq, hcovered span hspan⟩
  · intro m hm hwhole
    exact hcovered m (hplain m hm hwhole)

section Leaving

def twoLines : Text := "\"KEY=a\\u0020b\"\ntail".toList

def twoLinesView : Text := "\"KEY=a b\"\ntail".toList

/-- What the pattern `KEY=[^ ]*` finds in the two. -/
def keyCaptures (text : Text) : List Captures :=
  if text = twoLines then [⟨(1, 19), none⟩]
  else if text = twoLinesView then [⟨(1, 6), none⟩]
  else []

lemma mem_keyCaptures {text : Text} {m : Captures} (h : m ∈ keyCaptures text) :
    text = twoLines ∧ m = ⟨(1, 19), none⟩ ∨ text = twoLinesView ∧ m = ⟨(1, 6), none⟩ := by
  rw [keyCaptures] at h
  split at h
  · exact .inl ⟨‹_›, mem_singleton.mp h⟩
  · split at h
    · exact .inr ⟨‹_›, mem_singleton.mp h⟩
    · cases h

def keyPattern : Pattern where
  re :=
    { captures := keyCaptures
      aligned := by
        intro text m hm
        rcases mem_keyCaptures hm with ⟨rfl, rfl⟩ | ⟨rfl, rfl⟩ <;> decide
      group := by
        intro text m hm g hg
        rcases mem_keyCaptures hm with ⟨rfl, rfl⟩ | ⟨rfl, rfl⟩ <;> cases hg
      ordered := by
        intro text
        rw [keyCaptures]
        split
        · exact pairwise_singleton _ _
        · split
          · exact pairwise_singleton _ _
          · exact .nil }
  label := "custom".toList
  secretGroup := false

def keySanitizer : Sanitizer where
  patterns := [keyPattern]
  allowlist := []
  escapes := ⟨fun _ => [], (fun _ _ h => nomatch h), (fun _ _ h => nomatch h), fun _ => .nil⟩

def isFirstLine (line : Text) : Bool := line = "\"KEY=a\\u0020b\"".toList

/-- The match runs to the end of the text, and the second line is no JSON; but the match
starts in a JSON line that the view covers, and the second line stays. -/
theorem keeps_tail_after_json_line :
    Exposed keySanitizer twoLines keyPattern (1, 19) ∧
      (∀ i, 15 ≤ i → i < 19 → jsonLine isFirstLine twoLines i = some false) ∧
      keySanitizer.passSpans isFirstLine twoLines keyPattern = some [(1, 6), (6, 13)] ∧
      keySanitizer.pass isFirstLine twoLines keyPattern =
        some "\"[REDACTED:custom][REDACTED:custom]\"\ntail".toList := by
  refine ⟨⟨by decide, _, rfl, rfl⟩, ?_, by decide +kernel, by decide +kernel⟩
  intro i hi hlt
  have hcases : i = 15 ∨ i = 16 ∨ i = 17 ∨ i = 18 := by omega
  rcases hcases with rfl | rfl | rfl | rfl <;> decide +kernel

end Leaving

end Sanitize
