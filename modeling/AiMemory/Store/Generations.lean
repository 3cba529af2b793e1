/-
Whether an end enqueue queues new work.

A generation is a session's live observation count, and a job is inserted only
if its generation has none yet.  Deleted observations lower the count, so a run
carries for each session how many observations were captured and how many
removed, and for each job both numbers at its enqueue.
-/
import AiMemory.Store.Ops
import AiMemory.Store.Supersede

open Runs Table

namespace Store

structure Counted where
  store : Store
  captured : SessionId → ℕ
  removed : SessionId → ℕ
  /-- What was captured and removed when the job of a key was enqueued. -/
  marks : SessionId × ℕ → ℕ × ℕ

def Counted.init : Counted := ⟨empty, fun _ => 0, fun _ => 0, fun _ => (0, 0)⟩

/-- No operation both adds and removes observations of a session, so the counts
before and after tell which it did.  A key without a job is marked afresh. -/
def Counted.step (E : Env) (t : Counted) (op : StoreOp) : Counted :=
  let s := t.store.step E op
  let captured sid := t.captured sid + (s.observationCount sid - t.store.observationCount sid)
  let removed sid := t.removed sid + (t.store.observationCount sid - s.observationCount sid)
  { store := s
    captured := captured
    removed := removed
    marks := fun k => if t.store.jobs.any fun j => j.key = k then t.marks k
      else (captured k.1, removed k.1) }

structure JobMarked (captured removed : SessionId → ℕ) (mark : ℕ × ℕ) (j : JobRow) : Prop where
  generation : j.generation + mark.2 = mark.1
  captured_le : mark.1 ≤ captured j.sessionId
  removed_le : mark.2 ≤ removed j.sessionId
  superseded : j.state = .superseded → mark.1 < captured j.sessionId

structure Counted.Inv (t : Counted) : Prop where
  count : ∀ sid, t.store.observationCount sid + t.removed sid = t.captured sid
  jobs : ∀ j ∈ t.store.jobs, JobMarked t.captured t.removed (t.marks j.key) j

lemma init_countedInv : Counted.init.Inv := ⟨fun _ => rfl, fun _ hj => absurd hj List.not_mem_nil⟩

/-- A row after an operation is an old one, superseded only if it was so before
or is older than the session's count, or the job of the current count. -/
def JobFrom (s s' : Store) (j' : JobRow) : Prop :=
  (∃ j ∈ s.jobs, j.key = j'.key ∧ (j'.state = .superseded → j.state = .superseded ∨
      j.generation < s.observationCount j.sessionId)) ∨
    ((∀ j ∈ s.jobs, j.key ≠ j'.key) ∧ j'.generation = s'.observationCount j'.sessionId ∧
      j'.state ≠ .superseded)

lemma jobFrom_old {s s' : Store} {j : JobRow} (h : j ∈ s.jobs) : JobFrom s s' j :=
  .inl ⟨j, h, rfl, .inl⟩

lemma jobFrom_update {s s' : Store} {p : JobRow → Bool} {f : JobRow → JobRow} {j' : JobRow}
    (hj' : j' ∈ update p f s.jobs) (hkey : ∀ j, (f j).key = j.key)
    (hstate : ∀ j, (f j).state ≠ .superseded) : JobFrom s s' j' := by
  obtain ⟨j, hj, rfl⟩ := mem_update.mp hj'
  by_cases hp : p j
  · rw [if_pos hp]
    exact .inl ⟨j, hj, (hkey j).symm, fun hs => absurd hs (hstate j)⟩
  · rw [if_neg hp]
    exact jobFrom_old hj

lemma jobFrom_enqueue {s : Store} {ws : WorkspaceId} {proj : ProjectId} {sid : SessionId}
    {el : Eligibility} {now : ℤ} {j' : JobRow}
    (hj' : j' ∈ (s.enqueueEligible ws proj sid el now).2.jobs) :
    JobFrom s (s.enqueueEligible ws proj sid el now).2 j' := by
  rcases mem_enqueue_iff.mp hj' with ⟨hj, -⟩ | ⟨j, hj, hstale, rfl⟩ | ⟨hins, rfl⟩
  · exact jobFrom_old hj
  · obtain ⟨hsid, -, hlt⟩ := stalePending_iff.mp hstale
    exact .inl ⟨j, hj, rfl, fun _ => .inr (hsid ▸ hlt)⟩
  · rcases insertJob_cases s ws proj sid el now with heq | ⟨-, -, -, hnew⟩
    · rw [heq] at hins
      cases hins
    · exact .inr ⟨hnew, rfl, by simp [newJob]⟩

lemma queueStep_jobs (s : Store) (op : QueueOp) {j' : JobRow}
    (hj' : j' ∈ (s.queueStep op).jobs) : JobFrom s (s.queueStep op) j' := by
  cases op with
  | enqueue ws proj sid now | enqueueCheckpoint ws proj sid now => exact jobFrom_enqueue hj'
  | claimNext now staleBefore claimId tie =>
    revert hj'
    refine settle_rec (P := fun s' => j' ∈ s'.jobs → JobFrom s s' j') jobFrom_old
      fun s' hok hj' => ?_
    obtain ⟨⟨c, s₁⟩, hclaim, rfl⟩ := map_ok.mp hok
    rcases claimNext_ok hclaim with ⟨-, rfl⟩ | ⟨row, -, -, -, rfl⟩
    · exact jobFrom_old hj'
    · exact jobFrom_update hj' (fun _ => rfl) fun _ => by simp [lease]
  | complete c now | release c now | reconcile sid now =>
    exact jobFrom_update hj' (fun _ => rfl) fun _ => by simp
  | fail c error retryAt now =>
    change j' ∈ (s.fail c error retryAt now).2.jobs at hj'
    unfold fail at hj'
    split at hj'
    · split at hj'
      all_goals exact jobFrom_update hj' (fun _ => rfl) fun _ => by simp
    · exact jobFrom_update hj' (fun _ => rfl) fun _ => by simp

lemma Ingested.jobs {s s' : Store} {obs : NewObservation} {out : IngestOutcome}
    (h : Ingested s obs out s') : s'.jobs = s.jobs := by
  cases h with
  | known keys hout => rfl
  | inserted id keys o hcap => rfl

lemma admitHookSessionEvent_jobs {v : String → Bool}
    {f : NewObservation → Option String → String} {s s' : Store} {session : NewSession}
    {obs : NewObservation} {filter : OwnerFilter} {key movedFrom : Option String}
    {id : ObservationId} {now : ℤ} {adm : Admission}
    (h : admitHookSessionEvent v f s session obs filter key movedFrom id now = .ok (adm, s')) :
    s'.jobs = s.jobs := by
  obtain ⟨-, ⟨r, -, hknown⟩ | ⟨-, ⟨-, rfl⟩ | ⟨-, -, ingest, -, hin⟩⟩⟩ := admitHookSessionEvent_ok h
  · obtain ⟨-, -, ⟨-, rfl⟩ | ⟨-, ingest, s₁, -, hin, rfl | ⟨-, hmove⟩⟩⟩ := admitToSession_ok hknown
    · rfl
    · exact (ingestEvent_ok hin).1.jobs
    · rw [rebind_ok hmove]
      exact (ingestEvent_ok hin).1.jobs
  · rfl
  · exact (ingestEvent_ok hin).1.jobs

lemma step_jobs (E : Env) (s : Store) (op : StoreOp) {j' : JobRow}
    (hj' : j' ∈ (s.step E op).jobs) : JobFrom s (s.step E op) j' := by
  have hrolled : ∀ {x : Except StoreError Store}, j' ∈ (s.settle x).jobs →
      (∀ s', x = .ok s' → s'.jobs ⊆ s.jobs) → ∀ s', JobFrom s s' j' := by
    intro x hx hok s''
    cases x with
    | ok s' => exact jobFrom_old (hok s' rfl hx)
    | error e => exact jobFrom_old hx
  cases op with
  | createProject p =>
    refine hrolled hj' (fun s' hok => ?_) _
    rw [createProject_ok hok]
    exact fun _ h => h
  | beginSession session now =>
    refine hrolled hj' (fun s' hok => ?_) _
    rcases beginSession_ok hok with rfl | ⟨-, -, rfl⟩
    · exact fun _ h => h
    · exact fun _ h => h
  | endSession sid page now =>
    refine hrolled hj' (fun s' hok => ?_) _
    rw [endSession_ok hok]
    exact fun _ h => h
  | endLifecycleOnly sid now =>
    rw [step_endLifecycleOnly] at hj'
    split at hj'
    · exact jobFrom_old hj'
    · exact jobFrom_old hj'
  | closeAbandoned cutoff | prune ws proj cutoff batch tie | writePages pages =>
    exact jobFrom_old hj'
  | insertObservation obs id now =>
    refine hrolled hj' (fun s' hok => ?_) _
    obtain ⟨o, rfl, -⟩ := insertObservation_ok hok
    exact fun _ h => h
  | insertObservationKeyed obs key id now =>
    refine hrolled hj' (fun s' hok => ?_) _
    obtain ⟨⟨out, s₁⟩, hins, rfl⟩ := map_ok.mp hok
    exact ((insertObservationKeyed_ok hins).jobs ▸ fun _ h => h)
  | admitEvent session obs filter key movedFrom id now =>
    refine hrolled hj' (fun s' hok => ?_) _
    obtain ⟨⟨adm, s₁⟩, hadm, rfl⟩ := map_ok.mp hok
    exact (admitHookSessionEvent_jobs hadm ▸ fun _ h => h)
  | purgeSession ws proj sid owner mode now =>
    refine hrolled hj' (fun s' hok => ?_) _
    rcases purgeSession_ok hok with ⟨-, rfl⟩ | ⟨p, tombstones, -, -, rfl⟩
    · exact fun _ h => h
    · exact delete_subset
  | purgeProject ws proj runsActive force mode =>
    refine hrolled hj' (fun s' hok => ?_) _
    rcases purgeProject_ok hok with rfl | ⟨-, -, rfl⟩
    · exact fun _ h => h
    · unfold deleteProject
      split
      · exact fun _ h => delete_subset (delete_subset h)
      · exact fun _ h => h
  | queue op => exact queueStep_jobs s op hj'

lemma step_countedInv (E : Env) (t : Counted) (op : StoreOp) (h : t.Inv) : (t.step E op).Inv := by
  have hcount : ∀ sid, (t.store.step E op).observationCount sid + (t.step E op).removed sid
      = (t.step E op).captured sid := by
    intro sid
    have hold := h.count sid
    show (t.store.step E op).observationCount sid + (t.removed sid + _) = t.captured sid + _
    omega
  refine ⟨hcount, fun j' hj' => ?_⟩
  have hmarks : (t.step E op).marks j'.key = if t.store.jobs.any fun j => j.key = j'.key
      then t.marks j'.key else ((t.step E op).captured j'.sessionId,
        (t.step E op).removed j'.sessionId) := rfl
  rcases step_jobs E t.store op hj' with ⟨j, hj, hkey, hsup⟩ | ⟨hnew, hgen, hstate⟩
  · -- A row that was there keeps its mark.
    rw [hmarks, if_pos (List.any_eq_true.mpr ⟨j, hj, by simpa using hkey⟩), ← hkey]
    have hsid : j.sessionId = j'.sessionId := congrArg Prod.fst hkey
    have hgen : j.generation = j'.generation := congrArg Prod.snd hkey
    obtain ⟨hg, hc, hr, hs⟩ := h.jobs j hj
    have hold := h.count j.sessionId
    have hgrow : t.captured j.sessionId ≤ (t.step E op).captured j.sessionId := Nat.le_add_right _ _
    have hloss : t.removed j.sessionId ≤ (t.step E op).removed j.sessionId := Nat.le_add_right _ _
    rw [hsid] at hc hr hs hold hgrow hloss
    refine ⟨hgen ▸ hg, hc.trans hgrow, hr.trans hloss, fun hstate => ?_⟩
    rcases hsup hstate with hstate | hlt
    · exact (hs hstate).trans_le hgrow
    · -- The count it was superseded at is above its generation.
      rw [hsid] at hlt
      omega
  · have hfresh : ¬ (t.store.jobs.any (fun j => j.key = j'.key) = true) := by
      rw [List.any_eq_true]
      rintro ⟨j, hj, hjk⟩
      exact hnew j hj (of_decide_eq_true hjk)
    rw [hmarks, if_neg hfresh]
    exact ⟨by rw [hgen]; exact hcount j'.sessionId, le_rfl, le_rfl, fun hs => absurd hs hstate⟩

lemma insertJob_refused {s : Store} {ws : WorkspaceId} {proj : ProjectId} {sid : SessionId}
    {el : Eligibility} {now : ℤ} (h : (s.insertJob ws proj sid el now).1 = false)
    (hel : (s.eligibleSession ws proj sid el).isSome) (hobs : 0 < s.observationCount sid) :
    ∃ j ∈ s.jobs, j.key = (sid, s.observationCount sid) := by
  obtain ⟨r, hr⟩ := Option.isSome_iff_exists.mp hel
  unfold insertJob at h
  simp only [hr] at h
  split at h
  · rename_i hskip
    rcases hskip with hzero | hany
    · omega
    · obtain ⟨j, hj, hkey⟩ := List.any_eq_true.mp hany
      exact ⟨j, hj, of_decide_eq_true hkey⟩
  · cases h

/-- After an end enqueue of an ended session that captured since the last
completed generation, and that lost nothing since a job of its current count
was enqueued, the session has a pending or running job, or the job of the
current count has failed. -/
theorem new_work_is_queued (E : Env) (ops : List StoreOp) (ws : WorkspaceId) (proj : ProjectId)
    (sid : SessionId) (now : ℤ)
    (hended : ((exec (Counted.step E) Counted.init ops).store.eligibleSession ws proj sid
      .endedSession).isSome)
    (hobs : 0 < (exec (Counted.step E) Counted.init ops).store.observationCount sid)
    (hnew : ∀ j ∈ (exec (Counted.step E) Counted.init ops).store.jobs, j.sessionId = sid →
      j.state = .completed → ((exec (Counted.step E) Counted.init ops).marks j.key).1
        < (exec (Counted.step E) Counted.init ops).captured sid)
    (hkept : ∀ j ∈ (exec (Counted.step E) Counted.init ops).store.jobs,
      j.key = (sid, (exec (Counted.step E) Counted.init ops).store.observationCount sid) →
        ((exec (Counted.step E) Counted.init ops).marks j.key).2
          = (exec (Counted.step E) Counted.init ops).removed sid) :
    ∃ j ∈ ((exec (Counted.step E) Counted.init ops).store.enqueue ws proj sid now).2.jobs,
      j.sessionId = sid ∧ (j.state = .pending ∨ j.state = .running ∨ (j.state = .failed ∧
        j.generation = (exec (Counted.step E) Counted.init ops).store.observationCount sid)) := by
  have hinv : (exec (Counted.step E) Counted.init ops).Inv :=
    exec_invariant (step_countedInv E) init_countedInv ops
  generalize exec (Counted.step E) Counted.init ops = t at *
  rcases insertJob_cases t.store ws proj sid .endedSession now with heq | ⟨heq, -⟩
  · -- The generation has a job already.
    obtain ⟨j, hj, hkey⟩ := insertJob_refused (by rw [heq]) hended hobs
    have hsid : j.sessionId = sid := congrArg Prod.fst hkey
    have hgen : j.generation = t.store.observationCount sid := congrArg Prod.snd hkey
    have hstale : stalePending sid (t.store.observationCount sid) j = false := by
      simp [stalePending, hgen]
    refine ⟨j, mem_enqueue_iff.mpr (.inl ⟨hj, hstale⟩), hsid, ?_⟩
    -- Nothing was captured or removed since it was enqueued.
    obtain ⟨hg, -, -, hsup⟩ := hinv.jobs j hj
    have hcount := hinv.count sid
    have hlost := hkept j hj hkey
    have hmark : (t.marks j.key).1 = t.captured sid := by omega
    cases hstate : j.state with
    | pending => exact .inl rfl
    | running => exact .inr (.inl rfl)
    | failed => exact .inr (.inr ⟨rfl, hgen⟩)
    | completed =>
      have hlt := hnew j hj hsid hstate
      omega
    | superseded =>
      have hlt := hsup hstate
      rw [hsid] at hlt
      omega
  · exact ⟨_, mem_enqueue_iff.mpr (.inr (.inr ⟨by rw [heq], rfl⟩)), rfl, .inl rfl⟩

def claimedRun : List StoreOp :=
  [.createProject ⟨1, 0⟩, .beginSession (sampleSession 7 1) 0,
    .insertObservation (sampleObservation 7 1 .userPrompt) 10 1, .endSession 7 none 2,
    .queue (.enqueue 0 1 7 3), .queue (.claimNext 4 0 100 0)]

def claimedRunJob : ClaimedJob := ⟨7, 0, 1, 1, 1, 100, true⟩

/-- The job completes, and a second prompt is captured before the next end. -/
theorem new_work_is_queued_resumed :
    ∃ j ∈ ((exec (Counted.step plainEnv) Counted.init (claimedRun ++
        [.queue (.complete claimedRunJob 5),
          .insertObservation (sampleObservation 7 1 .userPrompt) 11 6,
          .endSession 7 none 7])).store.enqueue 0 1 7 8).2.jobs,
      j.sessionId = 7 ∧ (j.state = .pending ∨ j.state = .running ∨ (j.state = .failed ∧
        j.generation = (exec (Counted.step plainEnv) Counted.init (claimedRun ++
          [.queue (.complete claimedRunJob 5),
            .insertObservation (sampleObservation 7 1 .userPrompt) 11 6,
            .endSession 7 none 7])).store.observationCount 7)) := by
  refine new_work_is_queued plainEnv _ 0 1 7 8 ?_ ?_ ?_ ?_
  · decide
  · decide
  · decide
  · decide

/-- A job that failed for good keeps its generation: no generation was ever
completed for this ended session, and the next end enqueue queues nothing. -/
theorem failed_generation_absorbs_enqueue :
    let t := exec (Counted.step plainEnv) Counted.init
      (claimedRun ++ [.queue (.fail claimedRunJob "refused" none 5)])
    (t.store.eligibleSession 0 1 7 .endedSession).isSome ∧
      0 < t.captured 7 ∧ (∀ j ∈ t.store.jobs, j.state ≠ .completed) ∧
      ∀ j ∈ (t.store.enqueue 0 1 7 6).2.jobs, j.state ≠ .pending ∧ j.state ≠ .running := by
  decide

end Store
