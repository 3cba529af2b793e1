/-
What an enqueue does to older pending generations.

The update that supersedes older pending jobs runs after every enqueue, also
when the insert before it was refused.  An enqueue for a session that is still
open, or under another scope, then retires pending work and queues nothing.
-/
import AiMemory.Store.Fencing

open Runs Table

namespace Store

def JobRow.live (j : JobRow) : Bool :=
  j.state = .pending || j.state = .running || j.state = .completed

/-- An enqueue drops no work: a pending job of the session is superseded only
beside a live job of a larger generation, and a call that finds no session to
enqueue (open, or in another scope) changes no row. -/
def KeepsWork (s : Store) (ws : WorkspaceId) (proj : ProjectId) (sid : SessionId)
    (el : Eligibility) (now : ℤ) : Prop :=
  (∀ j ∈ s.jobs, j.sessionId = sid → j.state = .pending →
    (∃ j' ∈ (s.enqueueEligible ws proj sid el now).2.jobs,
      j'.key = j.key ∧ j'.state = .superseded) →
    ∃ k ∈ (s.enqueueEligible ws proj sid el now).2.jobs,
      k.sessionId = sid ∧ j.generation < k.generation ∧ k.live = true) ∧
  (s.eligibleSession ws proj sid el = none →
    (s.enqueueEligible ws proj sid el now).2.jobs = s.jobs)

instance (s : Store) (ws : WorkspaceId) (proj : ProjectId) (sid : SessionId) (el : Eligibility)
    (now : ℤ) : Decidable (KeepsWork s ws proj sid el now) :=
  inferInstanceAs (Decidable (_ ∧ _))

/-- The state of the queue before the call decides: nothing pending is older
than the session's observation count; or the call finds its session, and the
generation it would insert is new or stays covered by a later live job. -/
def SafeToEnqueue (s : Store) (ws : WorkspaceId) (proj : ProjectId) (sid : SessionId)
    (el : Eligibility) : Prop :=
  (∀ j ∈ s.jobs, stalePending sid (s.observationCount sid) j = false) ∨
  ((s.eligibleSession ws proj sid el).isSome ∧
    ((∀ k ∈ s.jobs, k.key ≠ (sid, s.observationCount sid)) ∨
      ∀ j ∈ s.jobs, stalePending sid (s.observationCount sid) j = true →
        ∃ k ∈ s.jobs, k.sessionId = sid ∧ j.generation < k.generation ∧ k.live = true ∧
          stalePending sid (s.observationCount sid) k = false))

lemma enqueueEligible_jobs (s : Store) (ws : WorkspaceId) (proj : ProjectId) (sid : SessionId)
    (el : Eligibility) (now : ℤ) :
    (s.enqueueEligible ws proj sid el now).2.jobs =
      update (stalePending sid (s.observationCount sid)) (superseded now)
        (s.insertJob ws proj sid el now).2 := rfl

variable {sid : SessionId} {ws : WorkspaceId} {proj : ProjectId} {el : Eligibility} {s : Store}
  {now : ℤ}

lemma stalePending_iff {n : ℕ} {j : JobRow} :
    stalePending sid n j ↔ j.sessionId = sid ∧ j.state = .pending ∧ j.generation < n := by
  simp [stalePending, and_assoc]

lemma newJob_not_stale (ws : WorkspaceId) (proj : ProjectId) (sid : SessionId) (n : ℕ)
    (now : ℤ) : stalePending sid n (newJob ws proj sid n now) = false := by
  simp [stalePending, newJob]

lemma mem_enqueue_iff {k : JobRow} :
    k ∈ (s.enqueueEligible ws proj sid el now).2.jobs ↔
      (k ∈ s.jobs ∧ stalePending sid (s.observationCount sid) k = false) ∨
      (∃ j ∈ s.jobs, stalePending sid (s.observationCount sid) j = true ∧ k = superseded now j) ∨
      ((s.insertJob ws proj sid el now).1 ∧
        k = newJob ws proj sid (s.observationCount sid) now) := by
  rw [enqueueEligible_jobs, mem_update]
  have hold : ∀ j ∈ s.jobs, (if stalePending sid (s.observationCount sid) j then superseded now j
      else j) = k → (k ∈ s.jobs ∧ stalePending sid (s.observationCount sid) k = false) ∨
      ∃ j ∈ s.jobs, stalePending sid (s.observationCount sid) j = true ∧ k = superseded now j := by
    intro j hj heq
    by_cases hp : stalePending sid (s.observationCount sid) j
    · rw [if_pos hp] at heq
      exact .inr ⟨j, hj, hp, heq.symm⟩
    · rw [if_neg hp] at heq
      exact .inl (heq ▸ ⟨hj, by simpa using hp⟩)
  have hback : (k ∈ s.jobs ∧ stalePending sid (s.observationCount sid) k = false) ∨
      (∃ j ∈ s.jobs, stalePending sid (s.observationCount sid) j = true ∧ k = superseded now j) →
      ∃ j ∈ s.jobs, (if stalePending sid (s.observationCount sid) j then superseded now j
        else j) = k := by
    rintro (⟨hk, hns⟩ | ⟨j, hj, hp, rfl⟩)
    · exact ⟨k, hk, by rw [hns]; rfl⟩
    · exact ⟨j, hj, by rw [hp]; rfl⟩
  rcases insertJob_cases s ws proj sid el now with heq | ⟨heq, -⟩
  · rw [heq]
    simp only [Bool.false_eq_true, false_and, or_false]
    exact ⟨fun ⟨j, hj, hk⟩ => hold j hj hk, hback⟩
  · rw [heq]
    simp only [true_and, List.mem_append, List.mem_singleton]
    constructor
    · rintro ⟨j, hj | rfl, hk⟩
      · exact (hold j hj hk).elim .inl fun h => .inr (.inl h)
      · rw [newJob_not_stale] at hk
        exact .inr (.inr hk.symm)
    · intro h
      rcases h with h | h | rfl
      · obtain ⟨j, hj, hk⟩ := hback (.inl h)
        exact ⟨j, .inl hj, hk⟩
      · obtain ⟨j, hj, hk⟩ := hback (.inr h)
        exact ⟨j, .inl hj, hk⟩
      · exact ⟨_, .inr rfl, by rw [newJob_not_stale]; rfl⟩

lemma insertJob_of_not_eligible (now : ℤ) (h : s.eligibleSession ws proj sid el = none) :
    s.insertJob ws proj sid el now = (false, s.jobs) := by
  rw [insertJob, h]

lemma update_superseded_ne {n : ℕ} (now : ℤ) {jobs : List JobRow} {j : JobRow}
    (hj : j ∈ jobs) (hp : stalePending sid n j) :
    update (stalePending sid n) (superseded now) jobs ≠ jobs := by
  intro heq
  rw [update] at heq
  nth_rewrite 2 [← List.map_id jobs] at heq
  have hsame := List.map_inj_left.mp heq j hj
  rw [if_pos hp, id] at hsame
  have hstate : JobState.superseded = j.state := congrArg JobRow.state hsame
  rw [(stalePending_iff.mp hp).2.1] at hstate
  cases hstate

lemma keepsWork_of_no_stale
    (h : ∀ j ∈ s.jobs, stalePending sid (s.observationCount sid) j = false)
    (hkeys : KeyUnique JobRow.key s.jobs) : KeepsWork s ws proj sid el now := by
  refine ⟨fun j hj hsess hpend hsup => ?_, fun hel => ?_⟩
  · obtain ⟨j', hj', hkey, hstate⟩ := hsup
    rcases mem_enqueue_iff.mp hj' with ⟨hj', -⟩ | ⟨j₀, hj₀, hp, -⟩ | ⟨-, rfl⟩
    · obtain rfl := hkeys.eq hj' hj hkey
      exact absurd (hpend.symm.trans hstate) (by simp)
    · rw [h j₀ hj₀] at hp
      cases hp
    · exact absurd hstate (by simp [newJob])
  · rw [enqueueEligible_jobs, insertJob_of_not_eligible now hel]
    exact update_eq_self h

lemma keepsWork_of_covered (hel : (s.eligibleSession ws proj sid el).isSome)
    (hkeys : KeyUnique JobRow.key s.jobs)
    (hcov : (∀ k ∈ s.jobs, k.key ≠ (sid, s.observationCount sid)) ∨
      ∀ j ∈ s.jobs, stalePending sid (s.observationCount sid) j = true →
        ∃ k ∈ s.jobs, k.sessionId = sid ∧ j.generation < k.generation ∧ k.live ∧
          stalePending sid (s.observationCount sid) k = false) :
    KeepsWork s ws proj sid el now := by
  refine ⟨fun j hj hsess hpend hsup => ?_, fun hnone => ?_⟩
  · -- the row that became superseded is `j` itself, so `j` was stale
    have hstale : stalePending sid (s.observationCount sid) j := by
      obtain ⟨j', hj', hkey, hstate⟩ := hsup
      rcases mem_enqueue_iff.mp hj' with ⟨hj', -⟩ | ⟨j₀, hj₀, hp, rfl⟩ | ⟨-, rfl⟩
      · obtain rfl := hkeys.eq hj' hj hkey
        exact absurd (hpend.symm.trans hstate) (by simp)
      · obtain rfl := hkeys.eq hj₀ hj hkey
        exact hp
      · exact absurd hstate (by simp [newJob])
    have hlt := (stalePending_iff.mp hstale).2.2
    rcases hcov with hnew | hcov
    · refine ⟨newJob ws proj sid (s.observationCount sid) now,
        mem_enqueue_iff.mpr (.inr (.inr ⟨?_, rfl⟩)), rfl, hlt, rfl⟩
      obtain ⟨row, hrow⟩ := Option.isSome_iff_exists.mp hel
      have hskip : ¬(s.observationCount sid = 0 ∨
          s.jobs.any (fun k => k.key = (sid, s.observationCount sid))) := by
        rw [not_or, List.any_eq_true]
        refine ⟨by omega, ?_⟩
        rintro ⟨k, hk, hkey⟩
        exact hnew k hk (by simpa using hkey)
      simp only [insertJob, hrow, hskip, if_false]
    · obtain ⟨k, hk, hks, hgt, hlive, hns⟩ := hcov j hj hstale
      exact ⟨k, mem_enqueue_iff.mpr (.inl ⟨hk, hns⟩), hks, hgt, hlive⟩
  · rw [hnone] at hel
    cases hel

lemma keepsWork_iff (s : Store) (hkeys : KeyUnique JobRow.key s.jobs)
    (ws : WorkspaceId) (proj : ProjectId) (sid : SessionId) (el : Eligibility) (now : ℤ) :
    KeepsWork s ws proj sid el now ↔ SafeToEnqueue s ws proj sid el := by
  constructor
  · rintro ⟨hcover, hsame⟩
    by_cases hstale : ∀ j ∈ s.jobs, stalePending sid (s.observationCount sid) j = false
    · exact .inl hstale
    push Not at hstale
    obtain ⟨j₀, hj₀, hp₀⟩ := hstale
    have hp₀ : stalePending sid (s.observationCount sid) j₀ := by simpa using hp₀
    refine .inr ⟨?_, ?_⟩
    · -- a refused call would have left `j₀` pending
      by_contra hel
      rw [Option.not_isSome_iff_eq_none] at hel
      refine update_superseded_ne now hj₀ hp₀ ?_
      have h := hsame hel
      rwa [enqueueEligible_jobs, insertJob_of_not_eligible now hel] at h
    · by_cases hnew : ∀ k ∈ s.jobs, k.key ≠ (sid, s.observationCount sid)
      · exact .inl hnew
      refine .inr fun j hj hp => ?_
      obtain ⟨hsess, hpend, -⟩ := stalePending_iff.mp hp
      obtain ⟨k, hk, hks, hgt, hlive⟩ := hcover j hj hsess hpend
        ⟨superseded now j, mem_enqueue_iff.mpr (.inr (.inl ⟨j, hj, hp, rfl⟩)), rfl, rfl⟩
      rcases mem_enqueue_iff.mp hk with ⟨hk, hns⟩ | ⟨j', -, -, rfl⟩ | ⟨hins, rfl⟩
      · exact ⟨k, hk, hks, hgt, hlive, hns⟩
      · exact absurd hlive (by simp [JobRow.live, superseded])
      · -- nothing was inserted: the generation was already there
        rcases insertJob_cases s ws proj sid el now with heq | ⟨-, -, -, habs⟩
        · rw [heq] at hins
          cases hins
        · exact absurd habs hnew
  · rintro (hstale | ⟨hel, hcov⟩)
    · exact keepsWork_of_no_stale hstale hkeys
    · exact keepsWork_of_covered hel hkeys hcov

/-- In every reachable state: an enqueue drops no work exactly when the queue
before it is safe for it. -/
theorem enqueue_keeps_work_iff (s : Store) (hs : s.jobs = []) (as : List JobAct)
    (h : Guarded Workers.step Workers.Allowed ⟨s, []⟩ as) (ws : WorkspaceId) (proj : ProjectId)
    (sid : SessionId) (el : Eligibility) (now : ℤ) :
    KeepsWork (exec Workers.step ⟨s, []⟩ as).store ws proj sid el now ↔
      SafeToEnqueue (exec Workers.step ⟨s, []⟩ as).store ws proj sid el :=
  keepsWork_iff _ (run_inv hs h).keys ws proj sid el now

def openSession : SessionRow := ⟨1, 1, 1, "codex", none, 0, none, none, 0, none⟩

def promptRow (id : ObservationId) : ObservationRow :=
  ⟨id, 1, 1, 1, .userPrompt, none, none, "t", "b", 5, 1, none⟩

def checkpointRun : List JobAct :=
  [ .capture [openSession] [promptRow 1], .enqueueCheckpoint 1 1 1 10,
    .capture [openSession] [promptRow 1, promptRow 2] ]

theorem enqueue_keeps_work_checkpoint :
    Guarded Workers.step Workers.Allowed ⟨Store.empty, []⟩ checkpointRun ∧
      (KeepsWork (exec Workers.step ⟨Store.empty, []⟩ checkpointRun).store 1 1 1 .anySession 20 ↔
        SafeToEnqueue (exec Workers.step ⟨Store.empty, []⟩ checkpointRun).store 1 1 1
          .anySession) :=
  ⟨by decide, enqueue_keeps_work_iff Store.empty rfl checkpointRun (by decide) 1 1 1 .anySession 20⟩

/-- The end enqueue returns `false`, its session being open, and retires the
checkpoint's job: the session is left without queued work. -/
theorem enqueue_open_drops_checkpoint :
    ¬ KeepsWork (exec Workers.step ⟨Store.empty, []⟩ checkpointRun).store 1 1 1
      .endedSession 20 := by
  decide

end Store
