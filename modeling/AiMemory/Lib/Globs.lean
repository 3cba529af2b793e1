/-
What a glob means: which texts a sequence of tokens matches.

A token is one element, any one element that is no separator, a run of those, or any text.
The elements are compared by a relation that may ignore case.
-/
import Mathlib.Data.List.Forall2

open List

namespace Globs

variable {α : Type}

inductive Token (α : Type)
  | lit (a : α)
  | one
  | run
  | deep

/-- The texts a glob matches; only `deep` spans separators. -/
inductive Matches (sep : α) (same : α → α → Prop) : List (Token α) → List α → Prop
  | nil : Matches sep same [] []
  | lit {a b : α} {glob : List (Token α)} {text : List α} (hsame : same a b)
    (h : Matches sep same glob text) : Matches sep same (.lit a :: glob) (b :: text)
  | one {b : α} {glob : List (Token α)} {text : List α} (hsep : b ≠ sep)
    (h : Matches sep same glob text) : Matches sep same (.one :: glob) (b :: text)
  | run {skipped : List α} {glob : List (Token α)} {text : List α} (hsep : sep ∉ skipped)
    (h : Matches sep same glob text) : Matches sep same (.run :: glob) (skipped ++ text)
  | deep (skipped : List α) {glob : List (Token α)} {text : List α}
    (h : Matches sep same glob text) : Matches sep same (.deep :: glob) (skipped ++ text)

variable {sep : α} {same : α → α → Prop} {glob more : List (Token α)} {text : List α}

/-! ### Parts of a glob -/

theorem Matches.append {text' : List α} (h : Matches sep same glob text)
    (h' : Matches sep same more text') : Matches sep same (glob ++ more) (text ++ text') := by
  induction h with
  | nil => exact h'
  | lit hsame _ ih => exact .lit hsame ih
  | one hsep _ ih => exact .one hsep ih
  | run hsep _ ih =>
    rw [append_assoc]
    exact .run hsep ih
  | deep skipped _ ih =>
    rw [append_assoc]
    exact .deep skipped ih

lemma Matches.append_inv (h : Matches sep same (glob ++ more) text) :
    ∃ first second, text = first ++ second ∧ Matches sep same glob first ∧
      Matches sep same more second := by
  induction glob generalizing text with
  | nil => exact ⟨[], text, rfl, .nil, h⟩
  | cons token glob ih =>
    cases h with
    | @lit _ b _ _ hsame h =>
      obtain ⟨first, second, rfl, hfirst, hsecond⟩ := ih h
      exact ⟨b :: first, second, rfl, .lit hsame hfirst, hsecond⟩
    | @one b _ _ hsep h =>
      obtain ⟨first, second, rfl, hfirst, hsecond⟩ := ih h
      exact ⟨b :: first, second, rfl, .one hsep hfirst, hsecond⟩
    | @run skipped _ _ hsep h =>
      obtain ⟨first, second, rfl, hfirst, hsecond⟩ := ih h
      exact ⟨skipped ++ first, second, (append_assoc ..).symm, .run hsep hfirst, hsecond⟩
    | @deep skipped _ _ h =>
      obtain ⟨first, second, rfl, hfirst, hsecond⟩ := ih h
      exact ⟨skipped ++ first, second, (append_assoc ..).symm, .deep skipped hfirst, hsecond⟩

lemma matches_nil_iff : Matches sep same [] text ↔ text = [] := by
  constructor
  · intro h
    cases h
    rfl
  · rintro rfl
    exact .nil

lemma matches_lit_iff {a : α} {c : List α} :
    Matches sep same [.lit a] c ↔ ∃ b, c = [b] ∧ same a b := by
  constructor
  · intro h
    cases h with
    | @lit _ b _ _ hsame h =>
      obtain rfl := matches_nil_iff.mp h
      exact ⟨b, rfl, hsame⟩
  · rintro ⟨b, rfl, hsame⟩
    exact .lit hsame .nil

lemma matches_one_iff {c : List α} :
    Matches sep same [.one] c ↔ ∃ b, c = [b] ∧ b ≠ sep := by
  constructor
  · intro h
    cases h with
    | @one b _ _ hsep h =>
      obtain rfl := matches_nil_iff.mp h
      exact ⟨b, rfl, hsep⟩
  · rintro ⟨b, rfl, hsep⟩
    exact .one hsep .nil

lemma matches_run_iff {c : List α} : Matches sep same [.run] c ↔ sep ∉ c := by
  constructor
  · intro h
    cases h with
    | run hsep h =>
      obtain rfl := matches_nil_iff.mp h
      rwa [append_nil]
  · intro hsep
    have h : Matches sep same [.run] (c ++ []) := .run hsep .nil
    rwa [append_nil] at h

lemma matches_deep (c : List α) : Matches sep same [.deep] c := by
  have h : Matches sep same [.deep] (c ++ []) := .deep c .nil
  rwa [append_nil] at h

section
variable {c : α}

/-- A token that reads exactly one character reads the last one of a text. -/
lemma matches_snoc {t : Token α} {P : α → Prop}
    (htok : ∀ {text}, Matches sep same [t] text ↔ ∃ b, text = [b] ∧ P b) :
    Matches sep same (glob ++ [t]) (text ++ [c]) ↔ P c ∧ Matches sep same glob text := by
  constructor
  · intro h
    obtain ⟨first, second, heq, hfirst, hsecond⟩ := h.append_inv
    obtain ⟨b, rfl, hb⟩ := htok.mp hsecond
    obtain ⟨rfl, hlast⟩ := append_inj' heq rfl
    obtain rfl := singleton_inj.mp hlast
    exact ⟨hb, hfirst⟩
  · rintro ⟨hc, h⟩
    exact h.append (htok.mpr ⟨c, rfl, hc⟩)

lemma matches_snoc_lit {a : α} :
    Matches sep same (glob ++ [.lit a]) (text ++ [c]) ↔ same a c ∧ Matches sep same glob text :=
  matches_snoc matches_lit_iff

lemma matches_snoc_one :
    Matches sep same (glob ++ [.one]) (text ++ [c]) ↔ c ≠ sep ∧ Matches sep same glob text :=
  matches_snoc matches_one_iff

lemma append_eq_snoc {first second : List α} (h : text ++ [c] = first ++ second) :
    (first = text ++ [c] ∧ second = []) ∨ ∃ rest, second = rest ++ [c] ∧ text = first ++ rest := by
  rcases eq_nil_or_concat' second with rfl | ⟨rest, last, rfl⟩
  · exact .inl ⟨by rw [h, append_nil], rfl⟩
  · rw [← append_assoc] at h
    obtain ⟨rfl, hlast⟩ := append_inj' h rfl
    obtain rfl := singleton_inj.mp hlast
    exact .inr ⟨rest, rfl, rfl⟩

lemma matches_snoc_run :
    Matches sep same (glob ++ [.run]) (text ++ [c]) ↔
      Matches sep same glob (text ++ [c]) ∨ (c ≠ sep ∧ Matches sep same (glob ++ [.run]) text) := by
  constructor
  · intro h
    obtain ⟨first, second, heq, hfirst, hsecond⟩ := h.append_inv
    have hsep := matches_run_iff.mp hsecond
    rcases append_eq_snoc heq with ⟨rfl, rfl⟩ | ⟨rest, rfl, rfl⟩
    · exact .inl hfirst
    · have hlast : c ≠ sep := fun heq => hsep (by simp [heq])
      have hrest : sep ∉ rest := fun hmem => hsep (mem_append_left _ hmem)
      exact .inr ⟨hlast, hfirst.append (matches_run_iff.mpr hrest)⟩
  · rintro (h | ⟨hc, h⟩)
    · have hnone : sep ∉ ([] : List α) := not_mem_nil
      have hmatch := h.append (matches_run_iff.mpr hnone)
      rwa [append_nil] at hmatch
    · obtain ⟨first, second, rfl, hfirst, hsecond⟩ := h.append_inv
      have hsep : sep ∉ second ++ [c] := by
        rw [mem_append, mem_singleton, not_or]
        exact ⟨matches_run_iff.mp hsecond, Ne.symm hc⟩
      rw [append_assoc]
      exact hfirst.append (matches_run_iff.mpr hsep)

lemma matches_snoc_deep :
    Matches sep same (glob ++ [.deep]) (text ++ [c]) ↔
      Matches sep same glob (text ++ [c]) ∨ Matches sep same (glob ++ [.deep]) text := by
  constructor
  · intro h
    obtain ⟨first, second, heq, hfirst, -⟩ := h.append_inv
    rcases append_eq_snoc heq with ⟨rfl, rfl⟩ | ⟨rest, rfl, rfl⟩
    · exact .inl hfirst
    · exact .inr (hfirst.append (matches_deep rest))
  · rintro (h | h)
    · have hnone : Matches sep same [.deep] [] := matches_deep []
      have hmatch := h.append hnone
      rwa [append_nil] at hmatch
    · obtain ⟨first, second, rfl, hfirst, -⟩ := h.append_inv
      rw [append_assoc]
      exact hfirst.append (matches_deep _)

end

def InSegment (sep : α) (same : α → α → Prop) (glob : List (Token α)) : Prop :=
  .deep ∉ glob ∧ ∀ a, .lit a ∈ glob → ∀ b, same a b → b ≠ sep

lemma Matches.notMem (h : Matches sep same glob text) (hglob : InSegment sep same glob) :
    sep ∉ text := by
  induction h with
  | nil => exact not_mem_nil
  | @lit a b glob text hsame _ ih =>
    have hb : b ≠ sep := hglob.2 a mem_cons_self b hsame
    have hrest : InSegment sep same glob :=
      ⟨fun hmem => hglob.1 (mem_cons_of_mem _ hmem), fun x hx => hglob.2 x (mem_cons_of_mem _ hx)⟩
    exact not_mem_cons_of_ne_of_not_mem hb.symm (ih hrest)
  | @one b glob text hsep _ ih =>
    have hrest : InSegment sep same glob :=
      ⟨fun hmem => hglob.1 (mem_cons_of_mem _ hmem), fun x hx => hglob.2 x (mem_cons_of_mem _ hx)⟩
    exact not_mem_cons_of_ne_of_not_mem hsep.symm (ih hrest)
  | @run skipped glob text hsep _ ih =>
    have hrest : InSegment sep same glob :=
      ⟨fun hmem => hglob.1 (mem_cons_of_mem _ hmem), fun x hx => hglob.2 x (mem_cons_of_mem _ hx)⟩
    rw [mem_append, not_or]
    exact ⟨hsep, ih hrest⟩
  | deep => exact absurd mem_cons_self hglob.1

variable [DecidableEq α]

lemma Matches.segments (hsep : ∀ b, same sep b → b = sep) {parts : List (List (Token α))}
    (hne : parts ≠ []) (hparts : ∀ part ∈ parts, InSegment sep same part)
    (h : Matches sep same ([.lit sep].intercalate parts) text) :
    List.Forall₂ (Matches sep same) parts (text.splitOn sep) := by
  induction parts generalizing text with
  | nil => exact absurd rfl hne
  | cons part parts ih =>
    obtain ⟨hpart, hrest⟩ := forall_mem_cons.mp hparts
    cases parts with
    | nil =>
      rw [intercalate_singleton] at h
      have hno := h.notMem hpart
      rw [splitOn_eq_singleton hno]
      exact .cons h .nil
    | cons second parts =>
      rw [intercalate_cons_cons, append_assoc] at h
      obtain ⟨first, more, rfl, hfirst, hmore⟩ := h.append_inv
      obtain ⟨slash, behind, rfl, hslash, hbehind⟩ := hmore.append_inv
      obtain ⟨b, rfl, hb⟩ := matches_lit_iff.mp hslash
      obtain rfl := hsep b hb
      have hno := hfirst.notMem hpart
      rw [singleton_append, splitOn_append_cons_self, splitOn_eq_singleton hno]
      exact .cons hfirst (ih (by simp) hrest hbehind)

omit [DecidableEq α] in
lemma Matches.intercalate (hsep : same sep sep) {parts : List (List (Token α))}
    {texts : List (List α)} (h : List.Forall₂ (Matches sep same) parts texts) :
    Matches sep same ([.lit sep].intercalate parts) ([sep].intercalate texts) := by
  induction h with
  | nil => exact .nil
  | cons hfirst hrest ih =>
    cases hrest with
    | nil => simpa using hfirst
    | cons hsecond hmore =>
      rw [intercalate_cons_cons, intercalate_cons_cons]
      exact (hfirst.append (matches_lit_iff.mpr ⟨sep, rfl, hsep⟩)).append ih

omit [DecidableEq α] in
/-- A literal text may take the place of the text a glob matches. -/
theorem Matches.trans (htrans : ∀ a b c, same a b → same c b → same a c)
    (hsep : ∀ b c, same c b → c = sep → b = sep) {other : List α}
    (h : Matches sep same glob text) (hother : List.Forall₂ same other text) :
    Matches sep same glob other := by
  induction h generalizing other with
  | nil =>
    cases hother
    exact .nil
  | lit hsame _ ih =>
    cases hother with
    | cons hc hrest => exact .lit (htrans _ _ _ hsame hc) (ih hrest)
  | one hne _ ih =>
    cases hother with
    | cons hc hrest => exact .one (fun heq => hne (hsep _ _ hc heq)) (ih hrest)
  | @run skipped _ _ hno _ ih =>
    rw [← take_append_drop skipped.length other]
    have hfirst := forall₂_take_append _ _ _ hother
    refine .run (fun hmem => ?_) (ih (forall₂_drop_append _ _ _ hother))
    obtain ⟨index, hindex, heq⟩ := mem_iff_getElem.mp hmem
    have hbound : index < skipped.length := hfirst.length_eq ▸ hindex
    have hb := hsep _ _ (hfirst.get hindex hbound) heq
    exact hno (hb ▸ getElem_mem hbound)
  | @deep skipped _ _ _ ih =>
    rw [← take_append_drop skipped.length other]
    exact .deep _ (ih (forall₂_drop_append _ _ _ hother))

end Globs
