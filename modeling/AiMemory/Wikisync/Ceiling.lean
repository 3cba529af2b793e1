/-
How much one sync run may change.

The bounds are on what the run asks for, so they hold whatever the others do in
between, whichever requests fail or take effect unanswered, and wherever the run
is cut off.
-/
import AiMemory.Wikisync.Planning

open Programs List

namespace Wikisync

/-- The requests that `max_deletes` is about, on either side. -/
def Call.deletes : Call → ℕ
  | .deletePage .. | .removeFile _ => 1
  | _ => 0

variable {x : Externals} {srv : Server} {args : SyncArgs} {mode : SyncMode} {old : SyncState}
  {plan : Plan} {g : Progress}

lemma deletes_le_writes (e : Call) : e.deletes ≤ e.writes := by
  cases e <;> first | exact le_rfl | exact Nat.zero_le _

lemma free_stop {α : Type} (f : Failure) : Free Call.deletes (stop g f : Io α) :=
  (spends_request (e := Call.saveState g.state) le_rfl).next fun _ _ => trivial

lemma free_applyImport (i : Import) : Free Call.deletes (applyImport x g i) := by
  have hone : Free Call.deletes (importOne x i) := by
    refine (free_ofExcept _).next fun pre _ => ?_
    refine (spends_request (e := Call.writePage i.path i.m i.body pre) le_rfl).next
      fun written _ => ?_
    refine (spends_request (e := Call.readPage i.path none) le_rfl).next fun read _ => ?_
    cases read.page with
    | none => trivial
    | some page =>
      show Free _ (if _ then _ else _)
      split
      · trivial
      · refine (free_ofExcept _).next fun file _ => Spends.next (Q := fun _ => True) ?_ ?_
        · rw [rewriteFile]
          split
          · trivial
          · exact (spends_request (e := Call.writeIfUnchanged _ _ _) le_rfl).next fun _ _ => trivial
        · exact fun _ _ => trivial
  refine hone.attempt.next fun result _ => ?_
  split
  · trivial
  · trivial
  · trivial
  · exact free_stop _

lemma free_applyExport (e : Export) : Free Call.deletes (applyExport x g e) := by
  refine (spends_request (e := Call.writeIfUnchanged _ _ _) le_rfl).attempt.next fun result _ => ?_
  split
  · trivial
  · trivial
  · exact free_stop _

lemma spends_applyServerDelete (d : ServerDelete) :
    Spends Call.deletes (applyServerDelete g d) 1 fun _ => True := by
  have hone : Spends Call.deletes (deleteServerPage d) 1 fun _ => True := by
    refine (spends_request (e := Call.inspect d.path) le_rfl).next fun here _ => ?_
    show Spends _ (if _ then _ else _) _ _
    split
    · trivial
    · cases d.expectedPageId with
      | none => trivial
      | some expected =>
        exact (spends_request (e := Call.deletePage d.path expected) le_rfl).bind (n := 0)
          fun _ _ => trivial
  refine hone.attempt.bind (n := 0) fun result _ => ?_
  split
  · trivial
  · trivial
  · trivial
  · exact free_stop _

lemma spends_applyFileDelete (d : FileDelete) :
    Spends Call.deletes (applyFileDelete x g d) 1 fun _ => True := by
  have hone : Spends Call.deletes (deleteFile x d) 1 fun _ => True := by
    refine (spends_request (e := Call.inspect d.path) le_rfl).next fun here _ => ?_
    split
    · trivial
    · trivial
    · refine (spends_request (e := Call.readFile d.path) le_rfl).next fun bytes _ => ?_
      show Spends _ (if _ then _ else _) _ _
      split
      · trivial
      · exact (spends_request (e := Call.removeFile d.path) le_rfl).bind (n := 0)
          fun _ _ => trivial
  refine hone.attempt.bind (n := 0) fun result _ => ?_
  split
  · trivial
  · trivial
  · exact free_stop _

lemma spends_applyPlan :
    Spends Call.deletes (applyPlan x args old plan) plan.deletes fun _ => True := by
  rw [Plan.deletes]
  refine Spends.next (spends_foldlM (n := 0) (fun g i => free_applyImport i) _ _) fun g _ => ?_
  refine Spends.next (spends_foldlM (n := 0) (fun g e => free_applyExport e) _ _) fun g _ => ?_
  have hserver := spends_foldlM (fun g d => spends_applyServerDelete (g := g) d)
    plan.serverDeletes g
  have hfile (g : Progress) := spends_foldlM (fun g d => spends_applyFileDelete (x := x) (g := g) d)
    plan.fileDeletes g
  simp only [Nat.mul_one] at hserver hfile
  refine hserver.bind fun g _ => (hfile g).bind (n := 0) fun g _ => ?_
  exact (spends_request (e := Call.saveState g.state) le_rfl).next fun _ _ => trivial

lemma spends_performPlan (h : plan.Ceiled args.maxDeletes) :
    Spends Call.deletes (performPlan x args old plan) args.maxDeletes fun _ => True := by
  rw [performPlan]
  cases hbatch : plan.batchRefusal with
  | some deletes => trivial
  | none =>
    show Spends _ (if _ then _ else _) _ _
    split
    · refine (free_ensureIfWriting.mono deletes_le_writes le_rfl fun _ h => h).next fun _ _ => ?_
      have happly : Spends Call.deletes (applyPlan x args old plan) plan.deletes fun _ => True :=
        spends_applyPlan
      refine (happly.bind (n := 0) fun g _ => ?_).mono (fun _ => le_rfl) (h hbatch) fun _ h => h
      show Spends _ (if _ then _ else _) _ _
      split <;> trivial
    · trivial

/-- However the run goes, it asks for at most `max_deletes` deletes of pages and
files together. -/
theorem sync_within_ceiling (x : Externals) (srv : Server) (args : SyncArgs) (mode : SyncMode)
    (w : World) (sched : List (List Edit × Fate)) :
    spent Call.deletes (sync x srv args mode w sched).trace ≤ args.maxDeletes := by
  refine exec_spends (Q := fun _ => True) ?_ w sched
  have hplan : Spends Call.writes (planRun x args mode w.state) 0 fun r =>
      r.2.Ceiled args.maxDeletes := spends_planRun
  refine (hplan.mono deletes_le_writes le_rfl fun _ h => h).next fun r hr => ?_
  show Spends _ (if _ then _ else _) _ _
  split
  · exact spends_performPlan hr
  · trivial

/-- A check or a dry run writes nothing, and leaves the world as the others do. -/
theorem sync_only_reads (x : Externals) (srv : Server) (args : SyncArgs) (mode : SyncMode)
    (w : World) (sched : List (List Edit × Fate)) :
    mode = .apply ∨ spent Call.writes (sync x srv args mode w sched).trace = 0 ∧
      ∃ k, (sync x srv args mode w sched).final =
        moved (act srv) w ((sched.take k).flatMap (·.1)) := by
  by_cases hmode : mode = .apply
  · exact .inl hmode
  have hrun : Free Call.writes (run x args mode w.state) := by
    refine spends_planRun.next fun r _ => ?_
    show Free _ (if _ then _ else _)
    rw [if_neg hmode]
    trivial
  refine .inr ⟨Nat.le_zero.mp (exec_spends hrun w sched), exec_final_of_free hrun ?_ w sched⟩
  intro i e w he
  cases i with
  | served | lost => exact serve_of_writes_eq_zero e w he
  | refused => rfl
  | torn seen => cases e <;> first | rfl | cases he

end Wikisync
