/-
Claim fencing of session consolidation.

A run interleaves any number of workers' claims, completions, failures and
releases with enqueues, checkpoints, manual reconciles and whatever other
writers do to the sessions and observations the queue reads.  The jobs handed
out so far are kept in order beside the store.
-/
import Mathlib.Order.Nat
import AiMemory.Lib.Runs
import AiMemory.Store.Consolidation

open Runs Table List

namespace Store

structure Workers where
  store : Store
  issued : List ClaimedJob

inductive JobAct
  | enqueue (ws : WorkspaceId) (proj : ProjectId) (sid : SessionId) (now : ℤ)
  | enqueueCheckpoint (ws : WorkspaceId) (proj : ProjectId) (sid : SessionId) (now : ℤ)
  | claimNext (now staleBefore : ℤ) (claimId : ClaimId) (tie : ℕ)
  | complete (c : ClaimedJob) (now : ℤ)
  | fail (c : ClaimedJob) (error : String) (retryAt : Option ℤ) (now : ℤ)
  | release (c : ClaimedJob) (now : ℤ)
  | reconcile (sid : SessionId) (now : ℤ)
  /-- Other writers: the sessions and observations become anything. -/
  | capture (sessions : List SessionRow) (observations : List ObservationRow)

def Workers.step (w : Workers) : JobAct → Workers
  | .enqueue ws proj sid now => { w with store := (w.store.enqueue ws proj sid now).2 }
  | .enqueueCheckpoint ws proj sid now =>
    { w with store := (w.store.enqueueCheckpoint ws proj sid now).2 }
  | .claimNext now staleBefore claimId tie =>
    match w.store.claimNext now staleBefore claimId tie with
    | .ok (some c, s) => ⟨s, w.issued ++ [c]⟩
    | .ok (none, s) => { w with store := s }
    | .error _ => w
  | .complete c now => { w with store := (w.store.complete c now).2 }
  | .fail c error retryAt now => { w with store := (w.store.fail c error retryAt now).2 }
  | .release c now => { w with store := (w.store.release c now).2 }
  | .reconcile sid now => { w with store := (w.store.reconcileCompleted sid now).2 }
  | .capture sessions observations =>
    { w with store := { w.store with
      sessions := sessions
      observations := observations } }

/-- Claim ids are fresh, and a worker presents only jobs it was handed: the
fields of a claimed job are private to the queue. -/
def Workers.Allowed (w : Workers) : JobAct → Prop
  | .claimNext _ _ claimId _ => claimId ∉ w.issued.map (·.claimId)
  | .complete c _ => c ∈ w.issued
  | .fail c _ _ _ => c ∈ w.issued
  | .release c _ => c ∈ w.issued
  | _ => True

instance (w : Workers) : (a : JobAct) → Decidable (w.Allowed a)
  | .claimNext _ _ claimId _ => inferInstanceAs (Decidable (claimId ∉ w.issued.map (·.claimId)))
  | .complete c _ => inferInstanceAs (Decidable (c ∈ w.issued))
  | .fail c _ _ _ => inferInstanceAs (Decidable (c ∈ w.issued))
  | .release c _ => inferInstanceAs (Decidable (c ∈ w.issued))
  | .enqueue _ _ _ _ => isTrue trivial
  | .enqueueCheckpoint _ _ _ _ => isTrue trivial
  | .reconcile _ _ => isTrue trivial
  | .capture _ _ => isTrue trivial

/-- The last job handed out under this key is `c`. -/
def LastIssued (issued : List ClaimedJob) (c : ClaimedJob) : Prop :=
  ∃ earlier later, issued = earlier ++ c :: later ∧ ∀ c' ∈ later, c'.key ≠ c.key

structure RowInv (issued : List ClaimedJob) (j : JobRow) : Prop where
  running : j.claimId.isSome ↔ j.state = .running
  attempts : j.attempts ≤ maxAttempts
  holder : ∀ id, j.claimId = some id →
    ∃ c, LastIssued issued c ∧ c.claimId = id ∧ c.key = j.key ∧ c.attempts = j.attempts

structure Workers.Inv (w : Workers) : Prop where
  keys : KeyUnique JobRow.key w.store.jobs
  rows : ∀ j ∈ w.store.jobs, RowInv w.issued j
  fresh : (w.issued.map (·.claimId)).Nodup

variable {issued : List ClaimedJob} {j row : JobRow} {w : Workers} {now staleBefore : ℤ}
  {claimId : ClaimId} {c : ClaimedJob}

lemma rowInv_of_free (hclaim : j.claimId = none)
    (hstate : j.state ≠ .running) (hattempts : j.attempts ≤ maxAttempts) : RowInv issued j where
  running := by simp [hclaim, hstate]
  attempts := hattempts
  holder := by simp [hclaim]

lemma Workers.Inv.update (h : w.Inv) {p : JobRow → Bool} {f : JobRow → JobRow}
    {s : Store} (hs : s.jobs = Table.update p f w.store.jobs) (hkey : ∀ j, (f j).key = j.key)
    (hrow : ∀ j ∈ w.store.jobs, p j → RowInv w.issued (f j)) :
    (⟨s, w.issued⟩ : Workers).Inv := by
  refine ⟨?_, ?_, h.fresh⟩
  · show KeyUnique JobRow.key s.jobs
    rw [hs]
    exact h.keys.update hkey
  · intro j' hj'
    change j' ∈ s.jobs at hj'
    rw [hs] at hj'
    obtain ⟨j, hj, rfl⟩ := mem_update.mp hj'
    by_cases hp : p j
    · rw [if_pos hp]
      exact hrow j hj hp
    · rw [if_neg hp]
      exact h.rows j hj

variable (s : Store)

lemma insertJob_cases (ws : WorkspaceId) (proj : ProjectId) (sid : SessionId)
    (el : Eligibility) (now : ℤ) :
    s.insertJob ws proj sid el now = (false, s.jobs) ∨ (s.insertJob ws proj sid el now =
          (true, s.jobs ++ [newJob ws proj sid (s.observationCount sid) now]) ∧
        (s.eligibleSession ws proj sid el).isSome ∧ 0 < s.observationCount sid ∧
        ∀ j ∈ s.jobs, j.key ≠ (sid, s.observationCount sid)) := by
  unfold insertJob
  cases hel : s.eligibleSession ws proj sid el with
  | none => exact .inl rfl
  | some row =>
    by_cases hskip : s.observationCount sid = 0
        ∨ s.jobs.any (fun j => j.key = (sid, s.observationCount sid))
    · exact .inl (if_pos hskip)
    · rw [not_or, any_eq_true] at hskip
      refine .inr ⟨if_neg ?_, rfl, Nat.pos_of_ne_zero hskip.1, fun j hj hkey => hskip.2 ⟨j, hj, ?_⟩⟩
      · rw [not_or, any_eq_true]
        exact hskip
      · simpa using hkey

lemma insertJob_subset (ws : WorkspaceId) (proj : ProjectId) (sid : SessionId)
    (el : Eligibility) (now : ℤ) : s.jobs ⊆ (s.insertJob ws proj sid el now).2 := by
  rcases insertJob_cases s ws proj sid el now with heq | ⟨heq, -⟩
  · rw [heq]
    exact fun _ hj => hj
  · rw [heq]
    exact fun _ hj => mem_append_left _ hj

lemma insertJob_inv (h : w.Inv) (ws : WorkspaceId) (proj : ProjectId)
    (sid : SessionId) (el : Eligibility) (now : ℤ) :
    KeyUnique JobRow.key (w.store.insertJob ws proj sid el now).2 ∧
      ∀ j ∈ (w.store.insertJob ws proj sid el now).2, RowInv w.issued j := by
  rcases insertJob_cases w.store ws proj sid el now with heq | ⟨heq, -, -, hnew⟩
  · rw [heq]
    exact ⟨h.keys, h.rows⟩
  · rw [heq]
    refine ⟨keyUnique_append_singleton.mpr ⟨h.keys, hnew⟩, fun j hj => ?_⟩
    rcases mem_append.mp hj with hj | hj
    · exact h.rows j hj
    · rw [mem_singleton.mp hj]
      exact rowInv_of_free rfl (by simp [newJob]) (Nat.zero_le _)

lemma enqueueEligible_inv (h : w.Inv) (ws : WorkspaceId) (proj : ProjectId)
    (sid : SessionId) (el : Eligibility) (now : ℤ) :
    (⟨(w.store.enqueueEligible ws proj sid el now).2, w.issued⟩ : Workers).Inv := by
  obtain ⟨hkeys, hrows⟩ := insertJob_inv h ws proj sid el now
  have hmid : (⟨{ w.store with jobs := (w.store.insertJob ws proj sid el now).2 }, w.issued⟩ :
      Workers).Inv := ⟨hkeys, hrows, h.fresh⟩
  refine hmid.update rfl (fun _ => rfl) fun j hj _ => ?_
  exact rowInv_of_free rfl (by simp [superseded]) (hrows j hj).attempts

lemma reconcileCompleted_inv (h : w.Inv) (sid : SessionId) (now : ℤ) :
    (⟨(w.store.reconcileCompleted sid now).2, w.issued⟩ : Workers).Inv := by
  refine h.update rfl (fun _ => rfl) fun j hj _ => ?_
  exact rowInv_of_free rfl (by simp) (h.rows j hj).attempts

lemma leaseGuard_iff {row j : JobRow} :
    leaseGuard now staleBefore row j ↔ j.key = row.key ∧ j.attempts = row.attempts ∧
      ((j.state = .pending ∧ j.nextAttemptAt ≤ now) ∨
        (j.state = .running ∧ j.startedAt.any (fun t => decide (t ≤ staleBefore)))) := by
  simp [leaseGuard, and_assoc]

lemma leaseGuard_self
    (h : claimable now staleBefore row) : leaseGuard now staleBefore row row := by
  simp only [claimable, Bool.or_eq_true, Bool.and_eq_true, decide_eq_true_eq] at h
  rw [leaseGuard_iff]
  refine ⟨rfl, rfl, ?_⟩
  rcases h with ⟨⟨hs, -⟩, hdue⟩ | ⟨⟨hs, -⟩, hstale⟩
  · exact .inl ⟨hs, hdue⟩
  · exact .inr ⟨hs, hstale⟩

lemma claimNext_ok {s s' : Store} {tie : ℕ}
    {c : Option ClaimedJob} (h : s.claimNext now staleBefore claimId tie = .ok (c, s')) :
    (c = none ∧ s' = s) ∨
      ∃ row ∈ s.jobs, claimable now staleBefore row = true ∧ c = some (claimed row claimId) ∧
        s' = { s with
          jobs := update (leaseGuard now staleBefore row) (lease now claimId) s.jobs } := by
  unfold claimNext at h
  cases hrow : (firstDue now staleBefore s.jobs)[tie % (firstDue now staleBefore s.jobs).length]? with
  | none =>
    rw [hrow, Except.ok.injEq, Prod.mk.injEq] at h
    exact .inl ⟨h.1.symm, h.2.symm⟩
  | some row =>
    simp only [hrow] at h
    by_cases hcount : s.jobs.countP (leaseGuard now staleBefore row) ≠ 1
    · rw [if_pos hcount] at h
      cases h
    · rw [if_neg hcount, Except.ok.injEq, Prod.mk.injEq] at h
      obtain ⟨hmem, hclaim⟩ :=
        mem_filter.mp (mem_filter.mp (mem_of_getElem? hrow)).1
      exact .inr ⟨row, hmem, hclaim, h.1.symm, h.2.symm⟩

lemma LastIssued.snoc {c c' : ClaimedJob} (h : LastIssued issued c)
    (hne : c'.key ≠ c.key) : LastIssued (issued ++ [c']) c := by
  obtain ⟨earlier, later, rfl, hlater⟩ := h
  refine ⟨earlier, later ++ [c'], by simp, fun d hd => ?_⟩
  rcases mem_append.mp hd with hd | hd
  · exact hlater d hd
  · rw [mem_singleton.mp hd]
    exact hne

lemma lease_attempts_le
    (h : claimable now staleBefore row) (hle : row.attempts ≤ maxAttempts) :
    (lease now claimId row).attempts ≤ maxAttempts := by
  simp only [claimable, Bool.or_eq_true, Bool.and_eq_true, decide_eq_true_eq] at h
  show (if row.state = .pending then row.attempts + 1 else row.attempts) ≤ maxAttempts
  by_cases hp : row.state = .pending
  · rw [if_pos hp]
    rcases h with ⟨⟨-, hlt⟩, -⟩ | ⟨⟨hrun, -⟩, -⟩
    · exact hlt
    · exact absurd (hp.symm.trans hrun) (by simp)
  · rw [if_neg hp]
    exact hle

lemma claimNext_inv (h : w.Inv)
    (hfresh : claimId ∉ w.issued.map (·.claimId)) (hrow : row ∈ w.store.jobs)
    (hclaim : claimable now staleBefore row) :
    (⟨{ w.store with
        jobs := update (leaseGuard now staleBefore row) (lease now claimId) w.store.jobs },
      w.issued ++ [claimed row claimId]⟩ : Workers).Inv := by
  refine ⟨h.keys.update fun _ => rfl, fun j' hj' => ?_, ?_⟩
  · obtain ⟨j, hj, rfl⟩ := mem_update.mp hj'
    by_cases hg : leaseGuard now staleBefore row j
    · obtain rfl := h.keys.eq hj hrow (leaseGuard_iff.mp hg).1
      rw [if_pos hg]
      refine ⟨by simp [lease], lease_attempts_le hclaim (h.rows j hj).attempts, fun id hid => ?_⟩
      exact ⟨claimed j claimId, ⟨w.issued, [], rfl, by simp⟩, Option.some.inj hid, rfl, rfl⟩
    · -- another row: its key differs, so the new job is not handed out for it
      rw [if_neg hg]
      have hne : j.key ≠ row.key := by
        intro heq
        obtain rfl := h.keys.eq hj hrow heq
        exact hg (leaseGuard_self hclaim)
      obtain ⟨hrun, hle, hholder⟩ := h.rows j hj
      refine ⟨hrun, hle, fun id hclaimed => ?_⟩
      obtain ⟨d, hlast, hdid, hdkey, hdatt⟩ := hholder id hclaimed
      refine ⟨d, hlast.snoc ?_, hdid, hdkey, hdatt⟩
      rw [hdkey]
      exact Ne.symm hne
  · rw [map_append, map_singleton, nodup_append]
    refine ⟨h.fresh, nodup_singleton _, fun x hx y hy heq => ?_⟩
    rw [mem_singleton] at hy
    rw [heq, hy] at hx
    exact hfresh hx

lemma heldBy_iff :
    heldBy c j ↔ j.key = c.key ∧ j.state = .running ∧ j.claimId = some c.claimId := by
  simp [heldBy, and_assoc]

lemma endClaim_inv (h : w.Inv) (c : ClaimedJob) {f : JobRow → JobRow}
    (hkey : ∀ j, (f j).key = j.key) (hclaim : ∀ j, (f j).claimId = none)
    (hstate : ∀ j, (f j).state ≠ .running) (hatt : ∀ j, (f j).attempts ≤ j.attempts) :
    (⟨(w.store.endClaim c f).2, w.issued⟩ : Workers).Inv :=
  h.update rfl hkey fun j hj _ =>
    rowInv_of_free (hclaim j) (hstate j) ((hatt j).trans (h.rows j hj).attempts)

lemma fail_eq_endClaim (c : ClaimedJob) (error : String) (retryAt : Option ℤ)
    (now : ℤ) : ∃ f : JobRow → JobRow, (∀ j, (f j).key = j.key) ∧ (∀ j, (f j).claimId = none) ∧
      (∀ j, (f j).state ≠ .running) ∧ (∀ j, (f j).attempts = j.attempts) ∧
      s.fail c error retryAt now = s.endClaim c f := by
  cases retryAt with
  | none =>
    refine ⟨_, ?_, ?_, ?_, ?_, rfl⟩
    all_goals simp [JobRow.key]
  | some t =>
    rw [fail]
    by_cases hmax : maxAttempts ≤ c.attempts
    · rw [if_pos hmax]
      refine ⟨_, ?_, ?_, ?_, ?_, rfl⟩
      all_goals simp [JobRow.key]
    · rw [if_neg hmax]
      refine ⟨_, ?_, ?_, ?_, ?_, rfl⟩
      all_goals simp [JobRow.key]

lemma step_inv (h : w.Inv) {a : JobAct} (ha : w.Allowed a) : (w.step a).Inv := by
  cases a with
  | enqueue ws proj sid now | enqueueCheckpoint ws proj sid now =>
    exact enqueueEligible_inv h ws proj sid _ now
  | claimNext now staleBefore claimId tie =>
    rw [Workers.step]
    cases hok : w.store.claimNext now staleBefore claimId tie with
    | error e => exact h
    | ok res =>
      obtain ⟨c, s'⟩ := res
      rcases claimNext_ok hok with ⟨rfl, rfl⟩ | ⟨row, hrow, hclaim, rfl, rfl⟩
      · exact h
      · exact claimNext_inv h ha hrow hclaim
  | complete c now =>
    exact endClaim_inv h c (fun _ => rfl) (fun _ => rfl) (fun _ => by simp) fun _ => le_rfl
  | fail c error retryAt now =>
    obtain ⟨f, hkey, hclaim, hstate, hatt, heq⟩ := fail_eq_endClaim w.store c error retryAt now
    rw [Workers.step, heq]
    exact endClaim_inv h c hkey hclaim hstate fun j => (hatt j).le
  | release c now =>
    refine endClaim_inv h c (fun _ => rfl) (fun _ => rfl) (fun _ => by simp) fun j => ?_
    by_cases hspent : c.attemptSpent ∧ 0 < j.attempts
    · exact (if_pos hspent).trans_le (Nat.sub_le _ _)
    · exact (if_neg hspent).le
  | reconcile sid now => exact reconcileCompleted_inv h sid now
  | capture sessions observations => exact ⟨h.keys, h.rows, h.fresh⟩

/-! ### What fencing gives -/

/-- The same key was claimed again later. -/
def Replaced (issued : List ClaimedJob) (c : ClaimedJob) : Prop :=
  ∃ earlier later, issued = earlier ++ c :: later ∧ ∃ c' ∈ later, c'.key = c.key

lemma later_unique (hfresh : (issued.map (·.claimId)).Nodup)
    {c d : ClaimedJob} {e₁ l₁ e₂ l₂ : List ClaimedJob} (h₁ : issued = e₁ ++ c :: l₁)
    (h₂ : issued = e₂ ++ d :: l₂) (hid : c.claimId = d.claimId) : c = d ∧ l₁ = l₂ := by
  induction e₁ generalizing issued e₂ with
  | nil =>
    cases e₂ with
    | nil =>
      rw [nil_append] at h₁ h₂
      exact List.cons.inj (h₁.symm.trans h₂)
    | cons x e₂ =>
      rw [h₁] at h₂
      obtain ⟨rfl, htail⟩ := List.cons.inj h₂
      rw [h₁, htail] at hfresh
      simp [hid] at hfresh
  | cons x e₁ ih =>
    cases e₂ with
    | nil =>
      rw [h₂] at h₁
      obtain ⟨rfl, htail⟩ := List.cons.inj h₁
      rw [h₂, htail] at hfresh
      simp [hid] at hfresh
    | cons y e₂ =>
      rw [h₁] at h₂ hfresh
      obtain ⟨rfl, htail⟩ := List.cons.inj h₂
      exact ih (nodup_cons.mp hfresh).2 rfl htail

lemma Workers.Inv.not_heldBy (h : w.Inv)
    (hrep : Replaced w.issued c) : ∀ j ∈ w.store.jobs, heldBy c j = false := by
  intro j hj
  by_contra hheld
  obtain ⟨hkey, -, hclaim⟩ := heldBy_iff.mp (by simpa using hheld)
  obtain ⟨d, ⟨e₂, l₂, heq₂, hlast⟩, hid, hdkey, -⟩ := (h.rows j hj).holder _ hclaim
  obtain ⟨e₁, l₁, heq₁, c', hc', hc'key⟩ := hrep
  obtain ⟨rfl, rfl⟩ := later_unique h.fresh heq₁ heq₂ hid.symm
  exact hlast c' hc' hc'key

lemma endClaim_replaced (h : w.Inv) (hrep : Replaced w.issued c) (f : JobRow → JobRow) :
    w.store.endClaim c f = (.error .invalidState, w.store) := by
  have hnone := h.not_heldBy hrep
  have hzero : w.store.jobs.countP (heldBy c) = 0 := by
    rw [countP_eq_zero]
    intro j hj
    simp [hnone j hj]
  rw [endClaim, hzero, update_eq_self hnone]
  rfl

lemma step_keeps_completed (w : Workers) (a : JobAct) (hj : j ∈ w.store.jobs)
    (hdone : j.state = .completed) : j ∈ (w.step a).store.jobs := by
  have hheld : ∀ c, heldBy c j = false := by
    intro c
    simp [heldBy, hdone]
  have hinsert : ∀ ws proj sid el now, j ∈ (w.store.enqueueEligible ws proj sid el now).2.jobs := by
    intro ws proj sid el now
    exact mem_update_of_not (insertJob_subset w.store ws proj sid el now hj)
      (by simp [stalePending, hdone])
  cases a with
  | enqueue ws proj sid now | enqueueCheckpoint ws proj sid now => exact hinsert ws proj sid _ now
  | claimNext now staleBefore claimId tie =>
    rw [Workers.step]
    cases hok : w.store.claimNext now staleBefore claimId tie with
    | error e => exact hj
    | ok res =>
      obtain ⟨c, s'⟩ := res
      rcases claimNext_ok hok with ⟨rfl, rfl⟩ | ⟨row, -, -, rfl, rfl⟩
      · exact hj
      · exact mem_update_of_not hj (by simp [leaseGuard, hdone])
  | complete c now | release c now => exact mem_update_of_not hj (hheld c)
  | fail c error retryAt now =>
    obtain ⟨f, -, -, -, -, heq⟩ := fail_eq_endClaim w.store c error retryAt now
    rw [Workers.step, heq]
    exact mem_update_of_not hj (hheld c)
  | reconcile sid now => exact mem_update_of_not hj (by simp [hdone])
  | capture sessions observations => exact hj

lemma release_attempts (h : w.Inv) (hissued : claimed row claimId ∈ w.issued) {now : ℤ} {s' : Store}
    (hok : w.store.release (claimed row claimId) now = (.ok (), s')) :
    ∃ j ∈ s'.jobs, j.key = row.key ∧ j.attempts = row.attempts := by
  obtain ⟨hcount, hs'⟩ := Prod.mk.inj hok
  have hone : w.store.jobs.countP (heldBy (claimed row claimId)) = 1 := by
    by_contra hne
    rw [if_neg hne] at hcount
    cases hcount
  obtain ⟨j, hj, hheld⟩ := countP_pos_iff.mp (by rw [hone]; exact Nat.one_pos)
  obtain ⟨hkey, -, hclaim⟩ := heldBy_iff.mp hheld
  obtain ⟨c, ⟨e₂, l₂, heq₂, -⟩, hid, -, hatt⟩ := (h.rows j hj).holder _ hclaim
  obtain ⟨e₁, l₁, heq₁⟩ := append_of_mem hissued
  obtain ⟨rfl, -⟩ := later_unique h.fresh heq₁ heq₂ hid.symm
  rw [← hs']
  refine ⟨_, mem_update_of_match hj hheld, hkey, ?_⟩
  -- the lease of a pending row added one attempt, that of a running row none
  show (if decide (row.state = .pending) = true ∧ 0 < j.attempts then j.attempts - 1
    else j.attempts) = row.attempts
  rw [← hatt]
  show (if decide (row.state = .pending) = true ∧
      0 < (if row.state = .pending then row.attempts + 1 else row.attempts)
    then (if row.state = .pending then row.attempts + 1 else row.attempts) - 1
    else (if row.state = .pending then row.attempts + 1 else row.attempts)) = row.attempts
  by_cases hp : row.state = .pending
  · simp [hp]
  · simp [hp]

lemma release_fresh (h : w.Inv) {claimId : ClaimId}
    (hrow : row ∈ w.store.jobs) (hclaim : claimable now staleBefore row)
    (now' : ℤ) : ∃ t, ({ w.store with
        jobs := update (leaseGuard now staleBefore row) (lease now claimId) w.store.jobs } :
      Store).release (claimed row claimId) now' = (.ok (), t) := by
  refine ⟨_, Prod.ext (if_pos ?_) rfl⟩
  have hkeys : KeyUnique JobRow.key
      (update (leaseGuard now staleBefore row) (lease now claimId) w.store.jobs) :=
    h.keys.update fun _ => rfl
  have hle : (update (leaseGuard now staleBefore row) (lease now claimId) w.store.jobs).countP
      (heldBy (claimed row claimId)) ≤ 1 :=
    hkeys.countP_le_one fun j _ hj => (heldBy_iff.mp hj).1
  have hpos : 0 < (update (leaseGuard now staleBefore row) (lease now claimId)
      w.store.jobs).countP (heldBy (claimed row claimId)) :=
    countP_pos_iff.mpr ⟨_, mem_update_of_match hrow (leaseGuard_self hclaim),
      heldBy_iff.mpr ⟨rfl, rfl, rfl⟩⟩
  exact Nat.le_antisymm hle hpos

lemma issued_subset_step (w : Workers) (a : JobAct) : w.issued ⊆ (w.step a).issued := by
  cases a with
  | claimNext now staleBefore claimId tie =>
    rw [Workers.step]
    cases hok : w.store.claimNext now staleBefore claimId tie with
    | error e => exact fun _ hc => hc
    | ok res =>
      obtain ⟨c, s'⟩ := res
      cases c with
      | none => exact fun _ hc => hc
      | some c => exact fun _ hc => mem_append_left _ hc
  | _ => exact fun _ hc => hc

lemma issued_subset_exec (w : Workers) (as : List JobAct) :
    w.issued ⊆ (exec Workers.step w as).issued := fun _ hc =>
  exec_invariant (I := fun w => _ ∈ w.issued) (fun w a hc => issued_subset_step w a hc) hc as

/-- What holds of the jobs and of the claims that were issued, in every reachable state. -/
structure Fenced (w : Workers) : Prop where
  oneRow : KeyUnique JobRow.key w.store.jobs
  oneClaim : ∀ j ∈ w.store.jobs, ∀ j' ∈ w.store.jobs, ∀ id,
    j.claimId = some id → j'.claimId = some id → j = j'
  replaced : ∀ c, Replaced w.issued c → ∀ now error retryAt,
    w.store.complete c now = (.error .invalidState, w.store) ∧
      w.store.fail c error retryAt now = (.error .invalidState, w.store) ∧
      w.store.release c now = (.error .invalidState, w.store)
  completed : ∀ j ∈ w.store.jobs, j.state = .completed →
    ∀ as, Guarded Workers.step Workers.Allowed w as → j ∈ (exec Workers.step w as).store.jobs
  attempts : ∀ j ∈ w.store.jobs, j.attempts ≤ maxAttempts
  released : ∀ now staleBefore claimId tie c s', claimId ∉ w.issued.map (·.claimId) →
    w.store.claimNext now staleBefore claimId tie = .ok (some c, s') →
    ∃ row ∈ w.store.jobs, row.key = c.key ∧ (∀ now', ∃ t, s'.release c now' = (.ok (), t)) ∧
      ∀ as, Guarded Workers.step Workers.Allowed ⟨s', w.issued ++ [c]⟩ as →
        ∀ now' t, (exec Workers.step ⟨s', w.issued ++ [c]⟩ as).store.release c now' = (.ok (), t) →
          ∃ j ∈ t.jobs, j.key = c.key ∧ j.attempts = row.attempts

lemma Workers.Inv.fenced (h : w.Inv) : Fenced w where
  oneRow := h.keys
  oneClaim := by
    intro j hj j' hj' id hid hid'
    obtain ⟨c, ⟨e, l, heq, -⟩, hc, hkey, -⟩ := (h.rows j hj).holder id hid
    obtain ⟨c', ⟨e', l', heq', -⟩, hc', hkey', -⟩ := (h.rows j' hj').holder id hid'
    obtain ⟨rfl, -⟩ := later_unique h.fresh heq heq' (hc.trans hc'.symm)
    exact h.keys.eq hj hj' (hkey.symm.trans hkey')
  replaced := by
    intro c hrep now error retryAt
    obtain ⟨f, -, -, -, -, heq⟩ := fail_eq_endClaim w.store c error retryAt now
    rw [heq]
    exact ⟨endClaim_replaced h hrep _, endClaim_replaced h hrep f, endClaim_replaced h hrep _⟩
  completed := by
    intro j hj hdone as _
    exact exec_invariant (I := fun w => j ∈ w.store.jobs)
      (fun w a hj => step_keeps_completed w a hj hdone) hj as
  attempts := fun j hj => (h.rows j hj).attempts
  released := by
    intro now staleBefore claimId tie c s' hfresh hok
    rcases claimNext_ok hok with ⟨hnone, -⟩ | ⟨row, hrow, hclaim, hc, rfl⟩
    · cases hnone
    cases hc
    refine ⟨row, hrow, rfl, release_fresh h hrow hclaim, fun as hgu now' t hrel => ?_⟩
    have hstart := claimNext_inv h hfresh hrow hclaim
    have hend := exec_guarded_invariant (I := Workers.Inv) (fun _ _ h ha => step_inv h ha)
      hstart hgu
    refine release_attempts hend (issued_subset_exec _ as ?_) hrel
    exact mem_append_right w.issued mem_cons_self

lemma run_inv {s : Store} (hs : s.jobs = []) {as : List JobAct}
    (h : Guarded Workers.step Workers.Allowed ⟨s, []⟩ as) :
    (exec Workers.step ⟨s, []⟩ as).Inv := by
  have hinit : (⟨s, []⟩ : Workers).Inv := by
    refine ⟨?_, ?_, nodup_nil⟩
    · simp [KeyUnique, hs]
    · simp [hs]
  exact exec_guarded_invariant (I := Workers.Inv) (fun _ _ h ha => step_inv h ha) hinit h

/-- Claims are fenced after every run that starts with an empty job table. -/
theorem claim_fencing (s : Store) (hs : s.jobs = []) (as : List JobAct)
    (h : Guarded Workers.step Workers.Allowed ⟨s, []⟩ as) :
    Fenced (exec Workers.step ⟨s, []⟩ as) :=
  (run_inv hs h).fenced

def oneSession : Store :=
  { Store.empty with
    sessions := [⟨1, 1, 1, "codex", none, 0, some 5, none, 1, none⟩]
    observations := [⟨1, 1, 1, 1, .userPrompt, none, none, "t", "b", 5, 1, none⟩] }

/-- Leased, reclaimed after its lease went stale, then finished by the second
worker. -/
def reclaimRun : List JobAct :=
  [ .enqueue 1 1 1 10, .claimNext 11 0 100 0, .claimNext 50 20 101 0,
    .complete (claimed (newJob 1 1 1 1 10) 100) 51,
    .complete { claimed (newJob 1 1 1 1 10) 101 with attemptSpent := false } 52 ]

theorem claim_fencing_reclaim :
    Guarded Workers.step Workers.Allowed ⟨oneSession, []⟩ reclaimRun ∧
      (exec Workers.step ⟨oneSession, []⟩ reclaimRun).store.jobs.map (·.state) = [.completed] ∧
      Fenced (exec Workers.step ⟨oneSession, []⟩ reclaimRun) :=
  ⟨by decide, by decide, claim_fencing oneSession rfl reclaimRun (by decide)⟩

end Store
