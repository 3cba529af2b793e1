/-
Sequences with a wildcard that stands for any list of plain elements.
-/
import Mathlib.Data.List.Basic

open List

namespace Wildcards

variable {α : Type}

inductive Expands (star : α) (Plain : α → Prop) : List α → List α → Prop
  | nil : Expands star Plain [] []
  | star {l out items : List α} (hitems : ∀ s ∈ items, Plain s) (h : Expands star Plain l out) :
    Expands star Plain (star :: l) (items ++ out)
  | other {l out : List α} {s : α} (hs : s ≠ star) (h : Expands star Plain l out) :
    Expands star Plain (s :: l) (s :: out)

variable {star : α} {Plain : α → Prop} {s : α} {l m out : List α}

lemma Expands.append {out' : List α} (h : Expands star Plain l out)
    (h' : Expands star Plain m out') : Expands star Plain (l ++ m) (out ++ out') := by
  induction h with
  | nil => exact h'
  | star hitems _ ih =>
    rw [append_assoc]
    exact .star hitems ih
  | other hs _ ih => exact .other hs ih

lemma Expands.append_inv (h : Expands star Plain (l ++ m) out) :
    ∃ first second, out = first ++ second ∧ Expands star Plain l first ∧
      Expands star Plain m second := by
  induction l generalizing out with
  | nil => exact ⟨[], out, rfl, .nil, h⟩
  | cons a l ih =>
    cases h with
    | star hitems h =>
      obtain ⟨first, second, rfl, hfirst, hsecond⟩ := ih h
      exact ⟨_, second, (append_assoc ..).symm, .star hitems hfirst, hsecond⟩
    | other hs h =>
      obtain ⟨first, second, rfl, hfirst, hsecond⟩ := ih h
      exact ⟨_, second, rfl, .other hs hfirst, hsecond⟩

lemma expands_snoc_star : Expands star Plain (l ++ [star]) out ↔
    ∃ first items, out = first ++ items ∧ (∀ s ∈ items, Plain s) ∧ Expands star Plain l first := by
  constructor
  · intro h
    obtain ⟨first, second, rfl, hfirst, hsecond⟩ := h.append_inv
    cases hsecond with
    | star hitems hnil =>
      cases hnil
      exact ⟨first, _, by rw [append_nil], hitems, hfirst⟩
    | other hs _ => exact absurd rfl hs
  · rintro ⟨first, items, rfl, hitems, hfirst⟩
    have hstar : Expands star Plain [star] items := by
      have h : Expands star Plain [star] (items ++ []) := .star hitems .nil
      rwa [append_nil] at h
    exact hfirst.append hstar

lemma expands_snoc (hs : s ≠ star) : Expands star Plain (l ++ [s]) out ↔
    ∃ first, out = first ++ [s] ∧ Expands star Plain l first := by
  constructor
  · intro h
    obtain ⟨first, second, rfl, hfirst, hsecond⟩ := h.append_inv
    cases hsecond with
    | star _ _ => exact absurd rfl hs
    | other _ hnil =>
      cases hnil
      exact ⟨first, rfl, hfirst⟩
  · rintro ⟨first, rfl, hfirst⟩
    exact hfirst.append (.other hs .nil)

/-- Elements may be left out of a sequence and of its expansion. -/
theorem Expands.filter {p : α → Bool} (hstar : p star) (hplain : ∀ s, Plain s → p s)
    (h : Expands star Plain l out) : Expands star Plain (l.filter p) (out.filter p) := by
  induction h with
  | nil => exact .nil
  | @star l out items hitems _ ih =>
    have hkeep : items.filter p = items :=
      filter_eq_self.mpr fun s hs => hplain s (hitems s hs)
    rw [filter_cons_of_pos hstar, filter_append, hkeep]
    exact .star hitems ih
  | @other l out s hs _ ih =>
    by_cases hp : p s
    · rw [filter_cons_of_pos hp, filter_cons_of_pos hp]
      exact .other hs ih
    · rw [filter_cons_of_neg hp, filter_cons_of_neg hp]
      exact ih

lemma Expands.cons_inv (hs : s ≠ star) (h : Expands star Plain (s :: l) out) :
    ∃ rest, out = s :: rest ∧ Expands star Plain l rest := by
  cases h with
  | star _ _ => exact absurd rfl hs
  | other _ h => exact ⟨_, rfl, h⟩

lemma Expands.plain (h : Expands star Plain l out) (hplain : ∀ s ∈ l, Plain s) :
    ∀ s ∈ out, Plain s := by
  induction h with
  | nil => exact hplain
  | star hitems _ ih =>
    intro s hs
    rcases mem_append.mp hs with hs | hs
    · exact hitems s hs
    · exact ih (fun s hs => hplain s (mem_cons_of_mem _ hs)) s hs
  | other _ _ ih =>
    obtain ⟨hfirst, hrest⟩ := forall_mem_cons.mp hplain
    exact forall_mem_cons.mpr ⟨hfirst, ih hrest⟩

/-- Wildcards alone stand for every list of plain elements. -/
theorem expands_stars (hl : ∀ s ∈ l, s = star) (hout : ∀ s ∈ out, Plain s) (hne : l ≠ []) :
    Expands star Plain l out := by
  induction l generalizing out with
  | nil => exact absurd rfl hne
  | cons a l ih =>
    obtain ⟨rfl, hrest⟩ := forall_mem_cons.mp hl
    have hnothing : Expands a Plain l [] := by
      by_cases hempty : l = []
      · rw [hempty]
        exact .nil
      · exact ih hrest (fun _ hmem => nomatch hmem) hempty
    have h : Expands a Plain (a :: l) (out ++ []) := .star hout hnothing
    rwa [append_nil] at h

end Wildcards
