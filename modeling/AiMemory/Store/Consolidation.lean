/-
The durable queue of session-consolidation jobs
(`ai-memory-store/src/session_consolidation.rs`).

Each function is one statement or transaction of the source.  The functions
that end a claim run their `UPDATE` first and then check its row count, so they
return the store they leave behind together with the result.
-/
import AiMemory.Store.Schema

open Table

namespace Store

def maxAttempts : ℕ := 5

structure ClaimedJob where
  sessionId : SessionId
  workspaceId : WorkspaceId
  projectId : ProjectId
  generation : ℕ
  attempts : ℕ
  claimId : ClaimId
  attemptSpent : Bool
  deriving DecidableEq

variable (c : ClaimedJob)

def ClaimedJob.key : SessionId × ℕ := (c.sessionId, c.generation)

inductive Eligibility
  | endedSession
  | anySession
  deriving DecidableEq

variable (s : Store) (ws : WorkspaceId) (proj : ProjectId) (sid : SessionId) (el : Eligibility)

def eligibleSession
    : Option SessionRow :=
  s.sessions.find? fun r => r.id = sid && r.workspaceId = ws && r.projectId = proj
    && (el = .anySession || r.endedAt.isSome)

def newJob (generation : ℕ) (now : ℤ) :
    JobRow where
  sessionId := sid
  workspaceId := ws
  projectId := proj
  generation := generation
  state := .pending
  requestedAt := now
  nextAttemptAt := now
  startedAt := none
  completedAt := none
  attempts := 0
  claimId := none
  lastError := none

/-- `INSERT OR IGNORE … SELECT … HAVING COUNT(o.id) > 0`. -/
def insertJob
    (now : ℤ) : Bool × List JobRow :=
  match s.eligibleSession ws proj sid el with
  | none => (false, s.jobs)
  | some _ =>
    let n := s.observationCount sid
    if n = 0 ∨ s.jobs.any (fun j => j.key = (sid, n)) then (false, s.jobs)
    else (true, s.jobs ++ [newJob ws proj sid n now])

def stalePending (n : ℕ) (j : JobRow) : Bool :=
  j.sessionId = sid && j.state = .pending && decide (j.generation < n)

def superseded (now : ℤ) (j : JobRow) : JobRow :=
  { j with
    state := .superseded
    completedAt := some now
    claimId := none
    lastError := some "superseded by a newer observation generation" }

def supersede (n : ℕ) (now : ℤ) (jobs : List JobRow) : List JobRow :=
  update (stalePending sid n) (superseded now) jobs

def enqueueEligible
    (now : ℤ) : Bool × Store :=
  let (inserted, jobs) := s.insertJob ws proj sid el now
  (inserted, { s with jobs := supersede sid (s.observationCount sid) now jobs })

variable (now : ℤ)

def enqueue :
    Bool × Store :=
  s.enqueueEligible ws proj sid .endedSession now

def enqueueCheckpoint
    : Bool × Store :=
  s.enqueueEligible ws proj sid .anySession now

/-- A job `claim_next` may lease. -/
def claimable (now staleBefore : ℤ) (j : JobRow) : Bool :=
  (j.state = .pending && decide (j.attempts < maxAttempts) && decide (j.nextAttemptAt ≤ now))
    || (j.state = .running && decide (j.attempts ≤ maxAttempts)
      && j.startedAt.any (fun t => decide (t ≤ staleBefore)))

/-- `ORDER BY requested_at ASC, generation ASC`. -/
def dueBefore (a b : JobRow) : Bool :=
  decide (a.requestedAt < b.requestedAt)
    || (a.requestedAt = b.requestedAt && decide (a.generation ≤ b.generation))

/-- The rows `LIMIT 1` can return: claimable, with no claimable row before
them.  The order leaves ties open. -/
def firstDue (now staleBefore : ℤ) (jobs : List JobRow) : List JobRow :=
  (jobs.filter (claimable now staleBefore)).filter fun j =>
    (jobs.filter (claimable now staleBefore)).all (dueBefore j)

def claimed (row : JobRow) (claimId : ClaimId) : ClaimedJob where
  sessionId := row.sessionId
  workspaceId := row.workspaceId
  projectId := row.projectId
  generation := row.generation
  attempts := if row.state = .pending then row.attempts + 1 else row.attempts
  claimId := claimId
  attemptSpent := row.state = .pending

/-- The `WHERE` of the lease: the row selected, still due. -/
def leaseGuard (now staleBefore : ℤ) (row j : JobRow) : Bool :=
  j.key = row.key && j.attempts = row.attempts
    && ((j.state = .pending && decide (j.nextAttemptAt ≤ now))
      || (j.state = .running && j.startedAt.any (fun t => decide (t ≤ staleBefore))))

/-- The `SET` of the lease; reclaiming a running job spends no attempt. -/
def lease (claimId : ClaimId) (j : JobRow) : JobRow :=
  { j with
    state := .running
    startedAt := some now
    completedAt := none
    attempts := if j.state = .pending then j.attempts + 1 else j.attempts
    claimId := some claimId
    lastError := none }

/-- Lease the oldest due job under a new claim id; `tie` picks among rows the
order does not separate. -/
def claimNext (now staleBefore : ℤ) (claimId : ClaimId) (tie : ℕ) :
    Except StoreError (Option ClaimedJob × Store) :=
  match (firstDue now staleBefore s.jobs)[tie % (firstDue now staleBefore s.jobs).length]? with
  | none => .ok (none, s)
  | some row =>
    if s.jobs.countP (leaseGuard now staleBefore row) ≠ 1 then .error .invalidState
    else .ok (some (claimed row claimId),
      { s with jobs := update (leaseGuard now staleBefore row) (lease now claimId) s.jobs })

def heldBy (j : JobRow) : Bool :=
  j.key = c.key && j.state = .running && j.claimId = some c.claimId

/-- A claim-guarded `UPDATE` and `require_claim_update`. -/
def endClaim (f : JobRow → JobRow) : Except StoreError Unit × Store :=
  (if s.jobs.countP (heldBy c) = 1 then .ok () else .error .invalidState,
    { s with jobs := update (heldBy c) f s.jobs })

def complete : Except StoreError Unit × Store :=
  s.endClaim c fun j => { j with
    state := .completed
    completedAt := some now
    claimId := none
    lastError := none }

def truncateError (error : String) : String := String.ofList (error.toList.take 1024)

def fail (error : String) (retryAt : Option ℤ) (now : ℤ) :
    Except StoreError Unit × Store :=
  match retryAt with
  | some retryAt =>
    if maxAttempts ≤ c.attempts then
      s.endClaim c fun j => { j with
        state := .failed
        completedAt := some now
        claimId := none
        lastError := some (truncateError error) }
    else
      s.endClaim c fun j => { j with
        state := .pending
        nextAttemptAt := retryAt
        startedAt := none
        claimId := none
        lastError := some (truncateError error) }
  | none =>
    s.endClaim c fun j => { j with
      state := .failed
      completedAt := some now
      claimId := none
      lastError := some (truncateError error) }

def release : Except StoreError Unit × Store :=
  s.endClaim c fun j => { j with
    state := .pending
    nextAttemptAt := now
    startedAt := none
    attempts := if c.attemptSpent ∧ 0 < j.attempts then j.attempts - 1 else j.attempts
    claimId := none }

/-- A session's jobs are settled after a manual consolidation. -/
def reconcileCompleted : ℕ × Store :=
  let settled (j : JobRow) : Bool :=
    j.sessionId = sid && (j.state = .failed || j.state = .pending || j.state = .superseded)
  (s.jobs.countP settled,
    { s with
      jobs := update settled
        (fun j => { j with
          state := .completed
          completedAt := some now
          claimId := none
          lastError := none }) s.jobs })

end Store
