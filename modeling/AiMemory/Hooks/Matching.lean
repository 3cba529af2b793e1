/-
What a glob match says about the beginning of a path.

A pattern that starts with literal text only matches paths that start with it, so a path is
matched below the pattern's literal prefix.  A glob with a `**` reaches every prefix of a path
that it agrees with up to there.
-/
import AiMemory.Hooks.Globs
import Mathlib

open Strings List

namespace Capture

open Option (some.inj map_eq_some_iff isSome_map)

def SameText (insensitive : Bool) : Text → Text → Prop :=
  List.Forall₂ fun expected c => charEqual expected c insensitive = true

lemma charEqual_comm (a b : Char) (insensitive : Bool) :
    charEqual a b insensitive = charEqual b a insensitive := by
  unfold charEqual
  by_cases hascii : (insensitive && a.toNat < 128 && b.toNat < 128)
  · have hascii' : (insensitive && b.toNat < 128 && a.toNat < 128) := by
      rw [Bool.and_assoc, Bool.and_comm (decide (b.toNat < 128)), ← Bool.and_assoc]
      exact hascii
    rw [if_pos hascii, if_pos hascii', decide_eq_decide, eq_comm]
  · have hascii' : ¬(insensitive && b.toNat < 128 && a.toNat < 128) := by
      rw [Bool.and_assoc, Bool.and_comm (decide (b.toNat < 128)), ← Bool.and_assoc]
      exact hascii
    rw [if_neg hascii, if_neg hascii', decide_eq_decide, eq_comm]

lemma eq_of_charEqual {a b : Char} {insensitive : Bool} (h : charEqual a b insensitive)
    (hb : b.isAlpha = false) : a = b := by
  unfold charEqual at h
  split at h
  · have hlower : a.toLower = b.toLower := of_decide_eq_true h
    have hbupper : ¬b.isUpper := by
      intro hupper
      simp [Char.isAlpha, hupper] at hb
    rw [Char.toLower_eq_of_not_isUpper hbupper] at hlower
    by_cases hupper : a.isUpper
    · have halpha : a.toLower.isAlpha := by simp [Char.isAlpha, hupper]
      rw [hlower, hb] at halpha
      cases halpha
    · rwa [Char.toLower_eq_of_not_isUpper hupper] at hlower
  · exact of_decide_eq_true h

lemma charEqual_refl (c : Char) (insensitive : Bool) : charEqual c c insensitive := by
  unfold charEqual
  split
  · exact decide_eq_true rfl
  · exact decide_eq_true rfl

/-- No wildcard. -/
def GlobFree (text : Text) : Prop := ∀ c ∈ text, isGlobChar c = false

namespace SameText

variable {insensitive : Bool} {a b : Text}

lemma symm (h : SameText insensitive a b) : SameText insensitive b a := by
  refine List.Forall₂.flip (List.Forall₂.imp (fun x y hxy => ?_) h)
  exact (charEqual_comm y x insensitive).trans hxy

lemma globFree (h : SameText insensitive a b) (ha : GlobFree a) : GlobFree b := by
  induction h with
  | nil => exact ha
  | @cons x y a b hxy _ ih =>
    obtain ⟨hx, hrest⟩ := forall_mem_cons.mp ha
    refine forall_mem_cons.mpr ⟨?_, ih hrest⟩
    cases hy : isGlobChar y with
    | false => rfl
    | true =>
      have halpha : y.isAlpha = false := by
        rcases Bool.or_eq_true_iff.mp hy with heq | heq
        all_goals
          rw [of_decide_eq_true heq]
          rfl
      rw [eq_of_charEqual hxy halpha, hy] at hx
      cases hx

lemma append_inv {c : Text} (h : SameText insensitive (a ++ b) c) :
    ∃ c₁ c₂, c = c₁ ++ c₂ ∧ SameText insensitive a c₁ ∧ SameText insensitive b c₂ := by
  induction a generalizing c with
  | nil => exact ⟨[], c, rfl, .nil, h⟩
  | cons x a ih =>
    cases h with
    | @cons _ y _ c hxy h =>
      obtain ⟨c₁, c₂, rfl, h₁, h₂⟩ := ih h
      exact ⟨y :: c₁, c₂, rfl, .cons hxy h₁, h₂⟩

end SameText

section
variable {pattern : Text} {insensitive : Bool}

lemma globStates_snoc (pattern text : Text) (c : Char) (insensitive : Bool) :
    globStates pattern (text ++ [c]) insensitive =
      nextRow pattern insensitive c (globStates pattern text insensitive) := by
  rw [globStates, foldl_append]
  rfl

lemma nextRow_literal {index : ℕ} {expected : Char} (hget : pattern[index]? = some expected)
    (hfree : isGlobChar expected = false) (c : Char) (previous : ℕ → Bool) :
    nextRow pattern insensitive c previous (index + 1) =
      (charEqual expected c insensitive && previous index) := by
  have hstar : expected ≠ '*' := by
    rintro rfl
    cases hfree
  have hmark : expected ≠ '?' := by
    rintro rfl
    cases hfree
  cases index with
  | zero | succ index =>
    rw [nextRow, hget]
    split
    · rename_i heq
      cases heq
    · rename_i heq
      exact absurd (some.inj heq) hstar
    · rename_i heq
      exact absurd (some.inj heq) hmark
    · rename_i heq
      rw [some.inj heq]

lemma nextRow_inv {index : ℕ} {c : Char} {previous : ℕ → Bool}
    (h : nextRow pattern insensitive c previous (index + 1)) :
    previous index ∨ previous (index + 1) ∨
      ∃ earlier ≤ index, pattern[earlier]? = some '*' ∧
        nextRow pattern insensitive c previous earlier := by
  cases index with
  | zero =>
    rw [nextRow] at h
    split at h
    · cases h
    · split at h
      · cases h
      · exact .inr (.inl (Bool.and_eq_true_iff.mp h).2)
    all_goals exact .inl (Bool.and_eq_true_iff.mp h).2
  | succ index =>
    rw [nextRow] at h
    split at h
    · cases h
    · rename_i hstar
      split at h
      · cases h
      · split at h
        · rename_i hdouble
          rcases Bool.or_eq_true_iff.mp h with h | h
          · exact .inr (.inr ⟨index, Nat.le_succ _, hdouble, h⟩)
          · exact .inr (.inl h)
        · rcases Bool.or_eq_true_iff.mp h with h | h
          · exact .inr (.inr ⟨index + 1, le_rfl, hstar, h⟩)
          · exact .inr (.inl (Bool.and_eq_true_iff.mp h).2)
    all_goals exact .inl (Bool.and_eq_true_iff.mp h).2

variable {literal rest text : Text} (hfree : GlobFree literal)
include hfree

lemma getElem?_literal {index : ℕ} (h : index < literal.length) (rest : Text) :
    ∃ expected, (literal ++ rest)[index]? = some expected ∧ isGlobChar expected = false ∧
      literal.take (index + 1) = literal.take index ++ [expected] := by
  refine ⟨literal[index], ?_, hfree _ (getElem_mem h), ?_⟩
  · rw [getElem?_append_left h, getElem?_eq_getElem h]
  · exact (take_append_getElem h).symm

lemma globStates_literal {index : ℕ} (h : index ≤ literal.length) :
    globStates (literal ++ rest) text insensitive index ↔
      SameText insensitive (literal.take index) text := by
  induction text using List.reverseRecOn generalizing index with
  | nil =>
    cases index with
    | zero => exact ⟨fun _ => .nil, fun _ => rfl⟩
    | succ index =>
      obtain ⟨expected, hget, hno, htake⟩ := getElem?_literal hfree h rest
      rw [htake]
      refine ⟨fun hrow => ?_, fun hsame => ?_⟩
      · change firstRow (literal ++ rest) (index + 1) = true at hrow
        rw [firstRow, hget] at hrow
        split at hrow
        · rename_i heq
          cases heq
          cases hno
        · cases hrow
      · have := hsame.length_eq
        simp at this
  | append_singleton text c ih =>
    rw [globStates_snoc]
    cases index with
    | zero =>
      refine ⟨fun hrow => ?_, fun hsame => ?_⟩
      · rw [nextRow] at hrow
        cases hrow
      · have := hsame.length_eq
        simp at this
    | succ index =>
      obtain ⟨expected, hget, hno, htake⟩ := getElem?_literal hfree h rest
      rw [nextRow_literal hget hno, Bool.and_eq_true_iff, ih (Nat.le_of_succ_le h), htake]
      constructor
      · rintro ⟨hc, hsame⟩
        exact rel_append hsame (.cons hc .nil)
      · intro hsame
        obtain ⟨text₁, text₂, heq, h₁, h₂⟩ := SameText.append_inv hsame
        cases h₂ with
        | cons hc hnil =>
          cases hnil
          obtain ⟨rfl, hlast⟩ := append_inj' heq rfl
          obtain rfl := (List.cons.inj hlast).1
          exact ⟨hc, h₁⟩

lemma globStates_starts {index : ℕ} (h : literal.length ≤ index)
    (hrow : globStates (literal ++ rest) text insensitive index) :
    ∃ first more, text = first ++ more ∧ SameText insensitive literal first := by
  -- at the end of the literal text all of it was read
  have hexact : ∀ text, globStates (literal ++ rest) text insensitive literal.length = true →
      ∃ first more, text = first ++ more ∧ SameText insensitive literal first := by
    intro text hrow
    have hsame := (globStates_literal hfree le_rfl).mp hrow
    rw [take_length] at hsame
    exact ⟨text, [], (append_nil _).symm, hsame⟩
  induction text using List.reverseRecOn generalizing index with
  | nil =>
    induction index, h using Nat.le_induction with
    | base => exact hexact [] hrow
    | succ index _ ih =>
      change firstRow (literal ++ rest) (index + 1) = true at hrow
      rw [firstRow] at hrow
      split at hrow
      · split at hrow
        · cases hrow
        · exact ih hrow
      · cases hrow
  | append_singleton text c ih =>
    have hlonger : (∃ first more, text = first ++ more ∧ SameText insensitive literal first) →
        ∃ first more, text ++ [c] = first ++ more ∧ SameText insensitive literal first := by
      rintro ⟨first, more, rfl, hsame⟩
      exact ⟨first, more ++ [c], append_assoc .., hsame⟩
    -- an entry across a star comes from an earlier one of the same row
    induction index using Nat.strong_induction_on with
    | _ index ihrow =>
      rcases h.eq_or_lt with rfl | hlt
      · exact hexact _ hrow
      obtain ⟨index, rfl⟩ := Nat.exists_eq_add_one_of_ne_zero (Nat.ne_zero_of_lt hlt)
      have hle := Nat.le_of_lt_succ hlt
      rw [globStates_snoc] at hrow
      rcases nextRow_inv hrow with hprev | hprev | ⟨earlier, hearlier, hstar, hsame⟩
      · exact hlonger (ih hle hprev)
      · exact hlonger (ih h hprev)
      · refine ihrow earlier (Nat.lt_succ_of_le hearlier) ?_ (by rwa [globStates_snoc])
        by_contra hbefore
        obtain ⟨expected, hget, hno, -⟩ := getElem?_literal hfree (Nat.lt_of_not_le hbefore) rest
        obtain rfl := some.inj (hget.symm.trans hstar)
        cases hno

lemma globStatesMatch_starts (h : globStatesMatch (literal ++ rest) text insensitive) :
    ∃ first more, text = first ++ more ∧ SameText insensitive literal first :=
  globStates_starts hfree (by simp) h

lemma globStatesMatch_literal :
    globStatesMatch literal text insensitive ↔ SameText insensitive literal text := by
  have hrow : globStates (literal ++ []) text insensitive literal.length ↔
      SameText insensitive (literal.take literal.length) text := globStates_literal hfree le_rfl
  rwa [append_nil, take_length] at hrow


end

/-! ### The literal prefix -/

/-- What is behind a beginning of a path is the rest of the path, from a separator on. -/
def Boundary (first more : Text) : Prop :=
  more = [] ∨ more.head? = some '/' ∨ first.getLast? = some '/'

lemma literalPrefix_spec (path : Text) :
    GlobFree (literalPrefix path) ∧ ∃ more, path = literalPrefix path ++ more ∧
      (literalPrefix path = [] ∨ Boundary (literalPrefix path) more) := by
  unfold literalPrefix
  by_cases hglob : path.any isGlobChar
  · rw [if_pos hglob]
    have hsplit := takeWhile_append_dropWhile (p := fun c => !isGlobChar c) (l := path)
    have hfree : GlobFree (path.takeWhile fun c => !isGlobChar c) := by
      intro c hc
      have hno := of_mem_takeWhile hc
      rwa [Bool.not_eq_true'] at hno
    generalize path.takeWhile (fun c => !isGlobChar c) = before at hsplit hfree
    dsimp only
    by_cases hslash : before.contains '/'
    · have hlast := beforeLast_append (contains_iff_mem.mp hslash)
      rw [if_pos hslash]
      generalize beforeLast '/' before = trimmed at hlast
      generalize afterLast '/' before = tail at hlast
      subst hlast
      rw [append_assoc] at hsplit
      by_cases htrim : trimmed ≠ [] ∧ trimmed.getLast? ≠ some ':'
      · rw [if_pos htrim]
        refine ⟨fun c hc => hfree c (mem_append_left _ hc), _, hsplit.symm, .inr ?_⟩
        exact .inr (.inl rfl)
      · rw [if_neg htrim]
        refine ⟨fun c hc => hfree c ?_, tail ++ path.dropWhile fun c => !isGlobChar c, ?_, .inr ?_⟩
        · rcases mem_append.mp hc with hc | hc
          · exact mem_append_left _ hc
          · rw [mem_singleton.mp hc]
            exact mem_append_right _ mem_cons_self
        · rw [append_assoc]
          exact hsplit.symm
        · exact .inr (.inr (by rw [getLast?_append]; rfl))
    · rw [if_neg hslash]
      exact ⟨fun _ hc => (nomatch hc), path, rfl, .inl rfl⟩
  · rw [if_neg hglob]
    refine ⟨fun c hc => ?_, [], (append_nil _).symm, .inr (.inl rfl)⟩
    exact (Bool.not_eq_true _).mp fun hc' => hglob (any_eq_true.mpr ⟨c, hc, hc'⟩)

lemma any_directory (base : Text) : (base ++ ['/', '*', '*']).any isGlobChar := by
  rw [any_append, Bool.or_eq_true_iff]
  exact .inr rfl

/-- The literal part of a directory's pattern runs up to its last separator. -/
lemma directory_literal {base : Text} (hfree : GlobFree base) :
    (base ++ ['/', '*', '*']).takeWhile (fun c => !isGlobChar c) = base ++ ['/'] ∧
      (base ++ ['/']).contains '/' ∧ beforeLast '/' (base ++ ['/']) = base := by
  refine ⟨?_, by simp, by simp [beforeLast]⟩
  rw [takeWhile_append_of_pos fun c hc => by rw [hfree c hc]; rfl]
  rfl

lemma literalPrefix_directory {base : Text} (hne : base ≠ [])
    (hcolon : GlobFree base → base.getLast? ≠ some ':') :
    literalPrefix (base ++ ['/', '*', '*']) = literalPrefix base := by
  unfold literalPrefix
  rw [if_pos (any_directory base)]
  by_cases hglob : base.any isGlobChar
  · obtain ⟨c, hc, hc'⟩ := any_eq_true.mp hglob
    have hshort : (base.takeWhile fun c => !isGlobChar c).length ≠ base.length := by
      intro hlen
      have hall := of_mem_takeWhile (( List.takeWhile_prefix _).eq_of_length hlen ▸ hc)
      rw [hc'] at hall
      cases hall
    rw [takeWhile_append, if_neg hshort, if_pos hglob]
  · have hfree : GlobFree base := fun c hc =>
      (Bool.not_eq_true _).mp fun hc' => hglob (any_eq_true.mpr ⟨c, hc, hc'⟩)
    obtain ⟨htake, hslash, hbefore⟩ := directory_literal hfree
    rw [if_neg hglob, htake, if_pos hslash, hbefore]
    exact if_pos ⟨hne, hcolon hfree⟩

lemma literalPrefix_colon {base : Text} (hfree : GlobFree base)
    (hcolon : base.getLast? = some ':') :
    literalPrefix (base ++ ['/', '*', '*']) = base ++ ['/'] := by
  obtain ⟨htake, hslash, hbefore⟩ := directory_literal hfree
  rw [literalPrefix, if_pos (any_directory base), htake]
  dsimp only
  rw [if_pos hslash, hbefore]
  exact if_neg fun h => h.2 hcolon

/-- A path that starts with a text the matcher takes for this one, up to a separator. -/
def Anchors (insensitive : Bool) (text path : Text) : Prop :=
  ∃ first more, path = first ++ more ∧ SameText insensitive text first ∧
    (more = [] ∨ more.head? = some '/' ∨ text.getLast? = some '/')

lemma anchors_of_match {pattern path : Text} {insensitive : Bool}
    (hstart : literalPrefix pattern = [] → path = [] ∨ path.head? = some '/')
    (h : globStatesMatch pattern path insensitive) :
    Anchors insensitive (literalPrefix pattern) path := by
  obtain ⟨hfree, more, hpattern, hbound⟩ := literalPrefix_spec pattern
  generalize literalPrefix pattern = literal at *
  subst hpattern
  have hslash : isGlobChar '/' = false := rfl
  rcases hbound with rfl | rfl | hmore | hlast
  · exact ⟨[], path, rfl, .nil, (hstart rfl).imp_right .inl⟩
  · rw [append_nil, globStatesMatch_literal hfree] at h
    exact ⟨path, [], (append_nil _).symm, h, .inl rfl⟩
  · -- the separator behind the prefix is matched too
    obtain ⟨tail, rfl⟩ := head?_eq_some_iff.mp hmore
    rw [append_cons] at h
    have hfree' : GlobFree (literal ++ ['/']) := fun c hc => by
      rcases mem_append.mp hc with hc | hc
      · exact hfree c hc
      · rwa [mem_singleton.mp hc]
    obtain ⟨first, more, rfl, hsame⟩ := globStatesMatch_starts hfree' h
    obtain ⟨first, last, rfl, hfirst, hlast⟩ := hsame.append_inv
    cases hlast with
    | @cons _ c _ _ hc hnil =>
      cases hnil
      have hc' : c = '/' := eq_of_charEqual ((charEqual_comm ..).trans hc) rfl
      refine ⟨first, c :: more, by simp, hfirst, .inr (.inl ?_)⟩
      rw [hc']
      rfl
  · obtain ⟨first, more, rfl, hsame⟩ := globStatesMatch_starts hfree h
    exact ⟨first, more, rfl, hsame, .inr (.inr hlast)⟩

lemma startsWithChars_of_anchors {insensitive : Bool} {text path : Text}
    (h : Anchors insensitive text path) : startsWithChars path text insensitive := by
  obtain ⟨first, more, rfl, hsame, -⟩ := h
  induction hsame with
  | nil =>
    unfold startsWithChars
    rfl
  | cons hc _ ih =>
    rw [cons_append, startsWithChars, hc, ih]
    rfl

lemma firstParts_cons (depth : ℕ) (part : Text) (parts : List Text) :
    firstParts (depth + 1) (part :: parts) =
      (firstParts (if part = [] then depth + 1 else depth) parts).map (part :: ·) := by
  rw [firstParts]
  split
  · rfl
  · rfl

lemma firstParts_mono {depth : ℕ} {parts head : List Text}
    (h : firstParts depth parts = some head) (more : List Text) :
    firstParts depth (parts ++ more) = some head := by
  induction parts generalizing depth head with
  | nil =>
    cases depth with
    | zero => rw [← h, firstParts, firstParts]
    | succ depth => cases h
  | cons part parts ih =>
    cases depth with
    | zero => exact h
    | succ depth =>
      rw [firstParts_cons] at h
      obtain ⟨rest, hrest, rfl⟩ := map_eq_some_iff.mp h
      rw [cons_append, firstParts_cons, ih hrest]
      rfl

lemma firstParts_snoc_nil {depth : ℕ} {parts head : List Text}
    (h : firstParts depth (parts ++ [[]]) = some head) : firstParts depth parts = some head := by
  induction parts generalizing depth head with
  | nil =>
    cases depth with
    | zero => exact h
    | succ depth => cases h
  | cons part parts ih =>
    cases depth with
    | zero => exact h
    | succ depth =>
      rw [cons_append, firstParts_cons] at h
      obtain ⟨rest, hrest, rfl⟩ := map_eq_some_iff.mp h
      rw [firstParts_cons, ih hrest]
      rfl

lemma firstParts_isSome {depth : ℕ} {parts : List Text} :
    (firstParts depth parts).isSome ↔ depth ≤ (parts.filter (· ≠ [])).length := by
  induction parts generalizing depth with
  | nil =>
    cases depth with
    | zero | succ depth => simp [firstParts]
  | cons part parts ih =>
    cases depth with
    | zero => simp [firstParts]
    | succ depth =>
      rw [firstParts_cons, isSome_map, ih]
      by_cases hempty : part = []
      · rw [if_pos hempty, filter_cons_of_neg (by simp [hempty])]
      · rw [if_neg hempty, filter_cons_of_pos (by simp [hempty]), length_cons,
          Nat.add_le_add_iff_right]

lemma firstParts_same {depth : ℕ} {insensitive : Bool} {parts parts' head : List Text}
    (hsame : List.Forall₂ (SameText insensitive) parts parts')
    (h : firstParts depth parts = some head) :
    ∃ head', firstParts depth parts' = some head' ∧
      List.Forall₂ (SameText insensitive) head head' := by
  induction hsame generalizing depth head with
  | nil =>
    cases depth with
    | zero =>
      cases h
      exact ⟨[], rfl, .nil⟩
    | succ depth => cases h
  | @cons part part' parts parts' hpart _ ih =>
    cases depth with
    | zero =>
      cases h
      exact ⟨[], rfl, .nil⟩
    | succ depth =>
      have hempty : part = [] ↔ part' = [] := by
        rw [← length_eq_zero_iff, hpart.length_eq, length_eq_zero_iff]
      rw [firstParts_cons] at h
      obtain ⟨rest, hrest, rfl⟩ := map_eq_some_iff.mp h
      obtain ⟨rest', hrest', hall⟩ := ih hrest
      simp only [hempty] at hrest'
      exact ⟨part' :: rest', by rw [firstParts_cons, hrest']; rfl, .cons hpart hall⟩

lemma firstParts_self {parts : List Text} (h : parts.getLast? ≠ some []) :
    firstParts (parts.filter (· ≠ [])).length parts = some parts := by
  induction parts with
  | nil => rfl
  | cons part parts ih =>
    cases parts with
    | nil =>
      have hpart : part ≠ [] := fun hempty => h (by rw [hempty]; rfl)
      rw [filter_cons_of_pos (by simp [hpart])]
      show firstParts (0 + 1) [part] = some [part]
      rw [firstParts_cons, if_neg hpart]
      rfl
    | cons second parts =>
      have hrest := ih (by rwa [getLast?_cons_cons] at h)
      by_cases hpart : part = []
      · -- the last segment is counted
        have hpos : ((second :: parts).filter (· ≠ [])).length ≠ 0 := by
          intro hzero
          rw [hzero] at hrest
          cases hrest
        obtain ⟨depth, hdepth⟩ := Nat.exists_eq_add_one_of_ne_zero hpos
        rw [filter_cons_of_neg (by simp [hpart]), hdepth, firstParts_cons, if_pos hpart, ← hdepth,
          hrest]
        rfl
      · rw [filter_cons_of_pos (by simp [hpart]), length_cons, firstParts_cons, if_neg hpart, hrest]
        rfl

/-! ### The beginning of a path -/

section
variable {insensitive : Bool} {depth : ℕ} {text path head : Text}

lemma splitOn_same {a b : Text} (h : SameText insensitive a b) :
    List.Forall₂ (SameText insensitive) (a.splitOn '/') (b.splitOn '/') := by
  induction h with
  | nil => exact .cons .nil .nil
  | @cons x y a b hxy hrest ih =>
    have hslash : x = '/' ↔ y = '/' := by
      constructor
      · rintro rfl
        exact eq_of_charEqual ((charEqual_comm ..).trans hxy) rfl
      · rintro rfl
        exact eq_of_charEqual hxy rfl
    rw [splitOn_cons, splitOn_cons]
    by_cases hx : x = '/'
    · rw [if_pos hx, if_pos (hslash.mp hx)]
      exact .cons .nil ih
    · rw [if_neg hx, if_neg fun h => hx (hslash.mpr h)]
      generalize a.splitOn '/' = parts at ih
      generalize b.splitOn '/' = parts' at ih
      cases ih with
      | nil => exact .nil
      | cons hfirst hmore => exact .cons (.cons hxy hfirst) hmore

lemma intercalate_same {parts parts' : List Text}
    (h : List.Forall₂ (SameText insensitive) parts parts') :
    SameText insensitive (['/'].intercalate parts) (['/'].intercalate parts') := by
  induction h with
  | nil => exact .nil
  | cons hfirst hrest ih =>
    cases hrest with
    | nil => simpa using hfirst
    | cons hsecond hmore =>
      rw [intercalate_cons_cons, intercalate_cons_cons]
      exact rel_append (rel_append hfirst (.cons (charEqual_refl ..) .nil)) ih

lemma pathHead_boundary {more : Text} (hmore : more = [] ∨ more.head? = some '/')
    (h : pathHead depth text = some head) : pathHead depth (text ++ more) = some head := by
  obtain ⟨parts, hparts, rfl⟩ := map_eq_some_iff.mp h
  rcases hmore with rfl | hmore
  · rw [append_nil]
    exact h
  · obtain ⟨tail, rfl⟩ := head?_eq_some_iff.mp hmore
    rw [pathHead, splitOn_append_cons_self, firstParts_mono hparts]
    rfl

lemma pathHead_anchors (hanchor : Anchors insensitive text path)
    (h : pathHead depth text = some head) :
    ∃ head', pathHead depth path = some head' ∧ SameText insensitive head head' := by
  obtain ⟨first, more, rfl, hsame, hbound⟩ := hanchor
  obtain ⟨parts, hparts, rfl⟩ := map_eq_some_iff.mp h
  obtain ⟨parts', hparts', hall⟩ := firstParts_same (splitOn_same hsame) hparts
  have hfirst : pathHead depth first = some (['/'].intercalate parts') := by
    rw [pathHead, hparts']
    rfl
  refine ⟨_, ?_, intercalate_same hall⟩
  rcases or_assoc.mpr hbound with hmore | hlast
  · exact pathHead_boundary hmore hfirst
  · -- the anchor ends in a separator of the path
    obtain ⟨front, rfl⟩ := getLast?_eq_some_iff.mp hlast
    obtain ⟨first, slash, rfl, -, hslash⟩ := hsame.append_inv
    cases hslash with
    | @cons _ c _ _ hc hnil =>
      cases hnil
      obtain rfl : c = '/' := eq_of_charEqual ((charEqual_comm ..).trans hc) rfl
      rw [splitOn_append_cons_self] at hparts'
      rw [← append_cons]
      refine pathHead_boundary (.inr rfl) ?_
      rw [pathHead, firstParts_snoc_nil hparts']
      rfl

lemma getLast?_splitOn (h : (text.splitOn '/').getLast? = some []) :
    text = [] ∨ text.getLast? = some '/' := by
  induction text with
  | nil => exact .inl rfl
  | cons c text ih =>
    right
    obtain ⟨first, rest, heq⟩ := exists_splitOn '/' text
    rw [splitOn_cons, heq] at h
    rw [heq] at ih
    by_cases hc : c = '/'
    · rw [if_pos hc, getLast?_cons_cons] at h
      rcases ih h with rfl | hlast
      · rw [hc]
        rfl
      · rw [getLast?_cons, hlast]
        rfl
    · rw [if_neg hc, modifyHead_cons] at h
      cases rest with
      | nil => cases h
      | cons second rest =>
        rw [getLast?_cons_cons] at h ih
        rcases ih h with rfl | hlast
        · cases heq
        · rw [getLast?_cons, hlast]
          rfl

lemma pathHead_self (h : text.getLast? ≠ some '/') : pathHead (depthOf text) text = some text := by
  by_cases hempty : text = []
  · rw [hempty]
    rfl
  · have hlast : (text.splitOn '/').getLast? ≠ some [] := fun hlast =>
      (getLast?_splitOn hlast).elim hempty h
    rw [pathHead, depthOf, firstParts_self hlast, Option.map_some, intercalate_splitOn]

lemma pathHead_isSome : (pathHead depth text).isSome ↔ depth ≤ depthOf text := by
  rw [pathHead, isSome_map, firstParts_isSome, depthOf]

lemma trimEnd_getLast? (text : Text) :
    (trimEndBy (· = '/') text).getLast? ≠ some '/' := by
  intro hlast
  have hno := getLast?_trimEndBy '/' hlast
  simp at hno

lemma depthOf_trimEnd (text : Text) : depthOf (trimEndBy (· = '/') text) ≤ depthOf text := by
  obtain ⟨slashes, hslashes, hall⟩ := trimEndBy_append (· = '/') text
  have hbound : slashes = [] ∨ slashes.head? = some '/' := by
    cases slashes with
    | nil => exact .inl rfl
    | cons c slashes => exact .inr (congrArg some (of_decide_eq_true (hall c mem_cons_self)))
  have hhead := pathHead_boundary hbound (pathHead_self (trimEnd_getLast? text))
  rw [← hslashes] at hhead
  exact pathHead_isSome.mp (by rw [hhead]; rfl)

end

lemma mem_of_mem_firstParts {depth : ℕ} {parts head : List Text}
    (h : firstParts depth parts = some head) {part : Text} (hpart : part ∈ head) :
    part ∈ parts := by
  induction parts generalizing depth head with
  | nil =>
    cases depth with
    | zero =>
      cases h
      exact hpart
    | succ depth => cases h
  | cons first parts ih =>
    cases depth with
    | zero =>
      cases h
      cases hpart
    | succ depth =>
      rw [firstParts_cons] at h
      obtain ⟨rest, hrest, rfl⟩ := map_eq_some_iff.mp h
      rcases mem_cons.mp hpart with rfl | hpart
      · exact mem_cons_self
      · exact mem_cons_of_mem _ (ih hrest hpart)

lemma globFree_intercalate {parts : List Text} (h : ∀ part ∈ parts, GlobFree part) :
    GlobFree (['/'].intercalate parts) := by
  induction parts with
  | nil => exact fun _ hmem => (nomatch hmem)
  | cons part parts ih =>
    obtain ⟨hpart, hrest⟩ := forall_mem_cons.mp h
    cases parts with
    | nil => rwa [intercalate_singleton]
    | cons second parts =>
      rw [intercalate_cons_cons]
      intro c hc
      rcases mem_append.mp hc with hc | hc
      · rcases mem_append.mp hc with hc | hc
        · exact hpart c hc
        · rw [mem_singleton.mp hc]
          rfl
      · exact ih hrest c hc

lemma globFree_pathHead {depth : ℕ} {text head : Text} (hfree : GlobFree text)
    (h : pathHead depth text = some head) : GlobFree head := by
  obtain ⟨parts, hparts, rfl⟩ := map_eq_some_iff.mp h
  refine globFree_intercalate fun part hpart c hc => hfree c ?_
  exact mem_of_mem_segment (mem_of_mem_firstParts hparts hpart) hc

lemma globMatch_same {insensitive : Bool} {text head : Text} (hfree : GlobFree text)
    (h : SameText insensitive text head) : globMatch head text none insensitive := by
  have hmatch := (globStatesMatch_literal (h.globFree hfree)).mpr h.symm
  rw [globMatch, hmatch, Bool.or_true]

lemma Anchors.trimEnd {insensitive : Bool} {text path : Text}
    (h : Anchors insensitive text path) : Anchors insensitive (trimEndBy (· = '/') text) path := by
  obtain ⟨first, more, rfl, hsame, hbound⟩ := h
  obtain ⟨cut, hcut, hslashes⟩ := trimEndBy_append (· = '/') text
  rw [hcut] at hsame
  obtain ⟨first, cut', rfl, hfirst, hcut'⟩ := hsame.append_inv
  refine ⟨first, cut' ++ more, append_assoc .., hfirst, ?_⟩
  cases hcut' with
  | nil =>
    rw [append_nil] at hcut
    rw [← hcut]
    exact hbound
  | @cons x y _ _ hxy _ =>
    obtain rfl : x = '/' := of_decide_eq_true (hslashes x mem_cons_self)
    obtain rfl : y = '/' := eq_of_charEqual ((charEqual_comm ..).trans hxy) rfl
    exact .inr (.inl rfl)

lemma before_globstar {front before : Text} (behind : Text)
    (habs : front.head? = some '/' ∨ front = []) (hbefore : '/' ∉ before) :
    ∃ found after more,
      splitOnce ['*', '*'] (front ++ '/' :: (before ++ '*' :: '*' :: behind)) = some (found, after) ∧
      front = beforeLast '/' found ++ more ∧ (more = [] ∨ more.head? = some '/') := by
  obtain ⟨found, after, hfound, ⟨rest, hrest⟩⟩ :=
    splitOnce_first ['*', '*'] (front ++ '/' :: before) behind
  have hglob : front ++ '/' :: before ++ (['*', '*'] ++ behind) =
      front ++ '/' :: (before ++ '*' :: '*' :: behind) := by simp
  have hhead : (front ++ '/' :: before).head? = some '/' := by
    rcases habs with habs | rfl
    · rw [head?_append, habs]
      rfl
    · rfl
  -- a separator stands before it
  have hslash : '/' ∈ found := by
    have hwhole := splitOnce_some hfound
    cases found with
    | nil =>
      have := congrArg List.head? hwhole
      rw [head?_append, hhead] at this
      cases this
    | cons c found =>
      rw [← hrest] at hhead
      cases hhead
      exact mem_cons_self
  have hsplit := beforeLast_append hslash
  refine ⟨found, after, ?_⟩
  rw [hglob] at hfound
  generalize beforeLast '/' found = head at hsplit ⊢
  generalize afterLast '/' found = tail at hsplit
  subst hsplit
  rw [append_assoc, cons_append] at hrest
  rcases append_eq_append_iff.mp hrest with ⟨more, hfront, hmore⟩ | ⟨more, hhead, hmore⟩
  · refine ⟨more, hfound, hfront, ?_⟩
    cases more with
    | nil => exact .inl rfl
    | cons c more =>
      obtain rfl := (List.cons.inj hmore).1
      exact .inr rfl
  · cases more with
    | nil => exact ⟨[], hfound, by rw [hhead, append_nil, append_nil], .inl rfl⟩
    | cons c more =>
      have hin := (List.cons.inj hmore).2
      exact absurd (hin ▸ mem_append_right _ mem_cons_self) hbefore

/-- A glob that agrees with a path up to a `**` reaches it. -/
theorem globstarReaches_of_anchors {insensitive : Bool} {text front before behind more : Text}
    (habs : front.head? = some '/' ∨ front = []) (hbefore : '/' ∉ before)
    (hmore : more = [] ∨ more.head? = some '/')
    (hdense : ∀ segment ∈ (front.splitOn '/').tail, segment ≠ [])
    (hfree : GlobFree text) (hanchor : Anchors insensitive text (front ++ more)) :
    globstarReaches (front ++ '/' :: (before ++ '*' :: '*' :: behind)) text insensitive := by
  obtain ⟨found, after, cut, hfound, hfront, hcut⟩ := before_globstar behind habs hbefore
  rw [globstarReaches, hfound]
  dsimp only
  generalize beforeLast '/' found = head at hfront ⊢
  subst hfront
  have hlast : head.getLast? ≠ some '/' := by
    intro hlast
    obtain ⟨lead, rfl⟩ := getLast?_eq_some_iff.mp hlast
    have hempty : [] ∈ cut.splitOn '/' := by
      rcases hcut with rfl | hcut
      · exact mem_singleton.mpr rfl
      · obtain ⟨tail, rfl⟩ := head?_eq_some_iff.mp hcut
        rw [splitOn_cons, if_pos rfl]
        exact mem_cons_self
    obtain ⟨first, rest, heq⟩ := exists_splitOn '/' lead
    rw [← append_cons, splitOn_append_cons_self, heq] at hdense
    exact hdense [] (mem_append_right _ hempty) rfl
  have hself := pathHead_self hlast
  have hbound : ∀ more : Text, more = [] ∨ more.head? = some '/' →
      cut ++ more = [] ∨ (cut ++ more).head? = some '/' := by
    intro more hmore
    rcases hcut with rfl | hcut
    · exact hmore
    · exact .inr (by rw [head?_append, hcut]; rfl)
  rw [append_assoc] at hanchor
  cases htext : pathHead (depthOf head) text with
  | some first =>
    obtain ⟨head', hhead', hsame⟩ := pathHead_anchors hanchor htext
    rw [pathHead_boundary (hbound more hmore) hself] at hhead'
    cases hhead'
    exact globMatch_same (globFree_pathHead hfree htext) hsame
  | none =>
    -- the anchor is shorter, and compared with as many segments of the glob
    dsimp only
    rw [globReaches]
    have htrim := hanchor.trimEnd
    have hshort : depthOf (trimEndBy (· = '/') text) ≤ depthOf head := by
      have hless : ¬depthOf head ≤ depthOf text := by
        rw [← pathHead_isSome, htext]
        exact Bool.false_ne_true
      exact (depthOf_trimEnd text).trans (Nat.le_of_not_le hless)
    have hfree' : GlobFree (trimEndBy (· = '/') text) := by
      obtain ⟨slashes, hslashes, -⟩ := trimEndBy_append (· = '/') text
      exact fun c hc => hfree c (hslashes ▸ mem_append_left _ hc)
    obtain ⟨first, hfirst, hsame⟩ := pathHead_anchors htrim (pathHead_self (trimEnd_getLast? text))
    obtain ⟨first', hfirst'⟩ := Option.isSome_iff_exists.mp (pathHead_isSome.mpr hshort)
    rw [pathHead_boundary (hbound more hmore) hfirst'] at hfirst
    cases hfirst
    split
    · rfl
    · rw [append_assoc, pathHead_boundary (hbound _ (.inr rfl)) hfirst']
      exact globMatch_same hfree' hsame

end Capture
