/-
Sessions and their observations (`ai-memory-store/src/ops.rs`): begin, end,
capture, hook admission, the observation prune and the purges.

Every function is one transaction of the source; an error is its rollback.
Two pieces of the source are parameters: `validOwner`, whether
`IdentityKey::from_storage_key` reads an owner back, and `eventIdentity`, the
digest of a recovery event.  Tables that none of these functions read
(handoffs, audit, search indexes, purged scopes) are left out.

* `pruneConsolidatedObservations`, `purgeSession`, `purgeProject`.
-/
import Mathlib.Data.List.Sort
import AiMemory.Store.Consolidation
import AiMemory.Lib.Text

open Table

namespace Store

structure NewSession where
  id : SessionId
  workspaceId : WorkspaceId
  projectId : ProjectId
  agentKind : String
  cwd : Option String
  occurredAt : Option ℤ
  actorUser : Option String

structure NewObservation where
  sessionId : SessionId
  workspaceId : WorkspaceId
  projectId : ProjectId
  kind : ObservationKind
  «extension» : Option String
  sourceEvent : Option String
  title : String
  body : String
  importance : ℕ
  occurredAt : Option ℤ
  filePath : Option String
  deriving DecidableEq

inductive OwnerFilter
  | user (me : String)
  | unattributed
  | any

def OwnerFilter.admits : OwnerFilter → Option String → Bool
  | _, none => true
  | .any, some _ => true
  | .user me, some owner => me = owner
  | .unattributed, some _ => false

def isWindowsStylePath : Text → Bool
  | c :: ':' :: _ => c.isAlpha
  | '/' :: '/' :: _ => true
  | _ => false

/-- One spelling per directory: forward slashes, no trailing slash, ASCII
lower case on Windows paths. -/
def normalizeCwd (p : String) : Text :=
  let replaced := p.toList.map fun c => if c = '\\' then '/' else c
  let trimmed := (replaced.reverse.dropWhile (· = '/')).reverse
  let core := if trimmed = [] then ['/'] else trimmed
  if isWindowsStylePath core then core.map Char.toLower else core

def sameCwd : Option String → Option String → Bool
  | some stored, some event => normalizeCwd stored = normalizeCwd event
  | _, _ => false

/-! ### Begin and end -/

def sessionIsPurged (s : Store) (session : NewSession) : Bool :=
  s.purgedSessions.any fun t => t.sessionId = session.id && t.workspaceId = session.workspaceId
    && t.projectId = session.projectId

def NewSession.row (session : NewSession) (now : ℤ) : SessionRow where
  id := session.id
  workspaceId := session.workspaceId
  projectId := session.projectId
  agentKind := session.agentKind
  cwd := session.cwd
  startedAt := session.occurredAt.getD now
  endedAt := none
  summaryPageId := none
  endedObservationCount := 0
  actorUser := session.actorUser

def findSession (s : Store) (sid : SessionId) : Option SessionRow :=
  s.sessions.find? fun r => r.id = sid

section Owners

variable (validOwner : String → Bool) (eventIdentity : NewObservation → Option String → String)

variable (s : Store) (session : NewSession)

/-- Begin (or re-affirm) a session.  The pairing trigger runs before the
conflict on the id is looked at. -/
def beginSession (now : ℤ) : Except StoreError Store :=
  if !session.actorUser.all validOwner then .error .invalidOwner
  else if s.sessionIsPurged session then .error (.sessionPurged session.id)
  else if !s.paired session.workspaceId session.projectId then .error .constraint
  else if (s.findSession session.id).isSome then .ok s
  else .ok { s with sessions := s.sessions ++ [session.row now] }

variable (sid : SessionId) (summaryPageId : Option PageId)

def endSessionRow (now : ℤ) :
    Except StoreError Store :=
  if (s.findSession sid).isSome
      && !(summaryPageId.all fun p => s.pages.any fun r => r.id = p) then .error .constraint
  else .ok { s with
    sessions := update (fun r => r.id = sid)
      (fun r => { r with
        endedAt := some now
        summaryPageId := summaryPageId
        endedObservationCount := s.observationCount sid }) s.sessions }

def endSession (now : ℤ) :
    Except StoreError Store :=
  s.endSessionRow sid summaryPageId now

def hasSubstantive : Bool :=
  s.observations.any fun o => o.sessionId = sid && o.kind.substantive

/-- End a session that captured no real work; `none` when it did. -/
def endLifecycleOnly (now : ℤ) :
    Except StoreError (Option Store) :=
  if s.hasSubstantive sid then .ok none
  else (s.endSessionRow sid none now).map some

variable (r : SessionRow)

def lastActivity : ℤ :=
  (((s.observations.filter fun o => o.sessionId = r.id).map (·.createdAt)).max?).getD r.startedAt

def closeAbandoned (cutoff : ℤ) : Store :=
  { s with
    sessions := update (fun r => r.endedAt.isNone && decide (s.lastActivity r < cutoff))
      (fun r => { r with
        endedAt := some (s.lastActivity r)
        endedObservationCount := s.observationCount r.id }) s.sessions }

/-! ### Capture -/

variable (obs : NewObservation)

/-- The observation `INSERT`, with its key, foreign key and trigger. -/
def insertObservation (id : ObservationId) (now : ℤ) :
    Except StoreError Store :=
  if !s.paired obs.workspaceId obs.projectId then .error .constraint
  else if s.observations.any (fun o => o.id = id) || (s.findSession obs.sessionId).isNone then
    .error .constraint
  else .ok { s with
    observations := s.observations ++
      [{ id := id
         sessionId := obs.sessionId
         workspaceId := obs.workspaceId
         projectId := obs.projectId
         kind := obs.kind
         «extension» := if obs.sourceEvent.isSome then obs.extension else none
         sourceEvent := if obs.extension.isSome then obs.sourceEvent else none
         title := obs.title
         body := obs.body
         importance := max 1 (min obs.importance 10)
         createdAt := obs.occurredAt.getD now
         filePath := obs.filePath }] }

inductive IngestOutcome
  | inserted (id : ObservationId)
  | alreadyComplete
  | resumePending
  deriving DecidableEq

def ingestKeyTtlMicros : ℤ := 30 * 24 * 60 * 60 * 1000000

def isHexDigit (c : Char) : Bool :=
  c.isDigit || ('a' ≤ c && c ≤ 'f') || ('A' ≤ c && c ≤ 'F')

variable (key : String)

/-- `recovery_` and 55 hexadecimal digits. -/
def recoveryIngestKey : Bool :=
  key.toList.take 9 = "recovery_".toList && (key.toList.drop 9).length = 55
    && (key.toList.drop 9).all isHexDigit

def sweepIngestKeys (now : ℤ) : Store :=
  { s with
    ingestKeys := delete (fun k => !k.recoveryRetained && decide (k.seenAt < now - ingestKeyTtlMicros))
      s.ingestKeys }

variable (agent : Option String)

def recoveryIdentity (key : String) :
    Option String :=
  if recoveryIngestKey key then some (eventIdentity obs agent) else none

def sameEvent (old : IngestKeyRow) (obs : NewObservation) (agent identity : Option String) : Bool :=
  old.sessionId = some obs.sessionId && old.agentKind = agent
    && old.observationKind = some obs.kind && old.eventIdentity = identity

/-- Claim a key and append its observation; a known key is resumed, skipped, or,
for a recovery key of another event, refused. -/
def claimIngestKey (key : String)
    (id : ObservationId) (now : ℤ) : Except StoreError (IngestOutcome × Store) :=
  let s := s.sweepIngestKeys now
  let recovery := recoveryIngestKey key
  let identity := recoveryIdentity eventIdentity obs agent key
  match s.ingestKeys.find? fun k => k.projectId = obs.projectId && k.key = key with
  | some old =>
    if recovery && !sameEvent old obs agent identity then .error .sessionCollision
    else if old.completedAt.isSome then .ok (.alreadyComplete, s)
    else .ok (.resumePending, s)
  | none => do
    let s : Store := { s with
      ingestKeys := s.ingestKeys ++
        [{ projectId := obs.projectId
           key := key
           seenAt := now
           completedAt := none
           sessionId := if recovery then some obs.sessionId else none
           agentKind := if recovery then agent else none
           observationKind := if recovery then some obs.kind else none
           eventIdentity := identity
           recoveryRetained := recovery }] }
    let s ← s.insertObservation obs id now
    return (.inserted id, s)

def recoveryAgent : Option String :=
  if recoveryIngestKey key then (s.findSession sid).map (·.agentKind) else none

def insertObservationKeyed
    (id : ObservationId) (now : ℤ) : Except StoreError (IngestOutcome × Store) :=
  let agent := s.recoveryAgent obs.sessionId key
  if recoveryIngestKey key && agent.isNone then .error .sessionCollision
  else claimIngestKey eventIdentity s obs agent key id now

/-! ### Hook admission -/

structure AdmittedSession where
  sessionId : SessionId
  workspaceId : WorkspaceId
  projectId : ProjectId
  agentKind : String
  owner : Option String
  deriving DecidableEq

inductive Admission
  | observation (session : AdmittedSession) (ingest : IngestOutcome)
  | endOpen (session : AdmittedSession) (ingest : IngestOutcome)
  | reEnd (session : AdmittedSession) (ingest : IngestOutcome)
  | alreadyEnded (session : AdmittedSession)
  | invalidScopedEnd
  | invalidMissingEnd
  deriving DecidableEq

/-- Who a session belongs to: a readable owner, the same agent, an admitted
caller. -/
def identityMatches (session : NewSession) (filter : OwnerFilter) : Bool :=
  r.actorUser.all validOwner && r.agentKind = session.agentKind && filter.admits r.actorUser

def ingestEvent (key : Option String)
    (id : ObservationId) (now : ℤ) : Except StoreError (IngestOutcome × Store) :=
  match key with
  | some key => claimIngestKey eventIdentity s obs (some session.agentKind) key id now
  | none => do
    let s ← s.insertObservation obs id now
    return (.inserted id, s)

/-- An explicit move rebinds the row, if the stored directory is still the one
moved from and this delivery is the first of its key. -/
def moveApplies (session : NewSession) (key movedFrom : Option String)
    (ingest : IngestOutcome) : Bool :=
  sameCwd r.cwd movedFrom && session.cwd.isSome && key.isSome && r.endedAt.isNone
    && match ingest with
      | .inserted _ => true
      | _ => false

/-- The rebind of a session to the scope and directory of an event; the project
is a foreign key. -/
def rebind : Except StoreError Store :=
  if s.projects.any fun p => p.id = session.projectId then
    .ok { s with
      sessions := update (fun x => x.id = session.id)
        (fun x => { x with
          workspaceId := session.workspaceId
          projectId := session.projectId
          cwd := session.cwd }) s.sessions }
  else .error .constraint

def followMove (session : NewSession)
    (key movedFrom : Option String) (ingest : IngestOutcome) : Except StoreError Store :=
  if moveApplies r session key movedFrom ingest then s.rebind session else .ok s

def admitToSession (session : NewSession) (obs : NewObservation)
    (filter : OwnerFilter) (key movedFrom : Option String) (id : ObservationId) (now : ℤ) :
    Except StoreError (Admission × Store) :=
  if !identityMatches validOwner r session filter then .error .sessionCollision
  else
    let sessionEnd := obs.kind = .sessionEnd
    let inScope := r.workspaceId = session.workspaceId ∧ r.projectId = session.projectId
    if sessionEnd ∧ ¬ inScope ∧ !sameCwd r.cwd session.cwd then .ok (.invalidScopedEnd, s)
    else
      let ws := if sessionEnd then r.workspaceId else session.workspaceId
      let proj := if sessionEnd then r.projectId else session.projectId
      let guard : AdmittedSession := ⟨session.id, ws, proj, session.agentKind, r.actorUser⟩
      if sessionEnd ∧ r.endedAt.isSome
          ∧ s.observationCount session.id ≤ r.endedObservationCount then
        .ok (.alreadyEnded guard, s)
      else do
        let obs := { obs with
          workspaceId := ws
          projectId := proj }
        let (ingest, s) ← ingestEvent eventIdentity s session obs key id now
        let s ← s.followMove r session key movedFrom ingest
        return (if ¬ sessionEnd then .observation guard ingest
          else if r.endedAt.isSome then .reEnd guard ingest else .endOpen guard ingest, s)

variable (filter : OwnerFilter)

def admitNewSession
    (key : Option String) (id : ObservationId) (now : ℤ) :
    Except StoreError (Admission × Store) :=
  if obs.kind = .sessionEnd then .ok (.invalidMissingEnd, s)
  else if !session.actorUser.all validOwner then .error .invalidOwner
  else if !filter.admits session.actorUser then .error .sessionCollision
  else if s.sessionIsPurged session then .error (.sessionPurged session.id)
  else if !s.paired session.workspaceId session.projectId then .error .constraint
  else do
    let s : Store := { s with sessions := s.sessions ++ [session.row now] }
    let (ingest, s) ← ingestEvent eventIdentity s session obs key id now
    return (.observation
      ⟨session.id, session.workspaceId, session.projectId, session.agentKind, session.actorUser⟩
      ingest, s)

/-- Find or create the hook session, validate its tuple and owner, optionally
claim an ingest key, and append the observation. -/
def admitHookSessionEvent
    (key movedFrom : Option String) (id : ObservationId) (now : ℤ) :
    Except StoreError (Admission × Store) :=
  if obs.sessionId ≠ session.id ∨ obs.workspaceId ≠ session.workspaceId
      ∨ obs.projectId ≠ session.projectId then .error .invalidState
  else match s.findSession session.id with
    | some r =>
      admitToSession validOwner eventIdentity s r session obs filter key movedFrom id now
    | none => admitNewSession validOwner eventIdentity s session obs filter key id now

end Owners

/-! ### Prune and purge -/

/-- `OBSERVATION_PRUNE_SESSION_GUARD_SQL`: a live summary page, no job a worker
can still claim, and no capture since the last end. -/
def pruneGuard (s : Store) (r : SessionRow) : Bool :=
  (s.pages.any fun pointer => r.summaryPageId = some pointer.id
      && s.pages.any fun head => head.workspaceId = pointer.workspaceId
        && head.projectId = pointer.projectId && head.path = pointer.path && head.isLatest)
    && !(s.jobs.any fun j => j.sessionId = r.id && (j.state = .pending || j.state = .running))
    && decide (s.observationCount r.id ≤ r.endedObservationCount)

/-- The batch a prune deletes: the oldest eligible observations, ties in the
order `tie` gives. -/
def pruneVictims (s : Store) (ws : WorkspaceId) (proj : ProjectId) (cutoff : ℤ) (batch : ℕ)
    (tie : ObservationId → ℕ) : List ObservationRow :=
  let eligible := s.observations.filter fun o => o.workspaceId = ws && o.projectId = proj
    && decide (o.createdAt < cutoff)
    && s.sessions.any fun r => r.id = o.sessionId && s.pruneGuard r
  (eligible.insertionSort fun a b =>
    a.createdAt < b.createdAt ∨ (a.createdAt = b.createdAt ∧ tie a.id ≤ tie b.id)).take batch

def resync (s : Store) (sids : List SessionId) : Store :=
  { s with
    sessions := update
      (fun r => decide (r.id ∈ sids) && decide (s.observationCount r.id < r.endedObservationCount))
      (fun r => { r with endedObservationCount := s.observationCount r.id }) s.sessions }

def pruneConsolidatedObservations (s : Store) (ws : WorkspaceId) (proj : ProjectId) (cutoff : ℤ)
    (batch : ℕ) (tie : ObservationId → ℕ) : Store :=
  let victims := s.pruneVictims ws proj cutoff batch tie
  resync { s with
    observations := delete (fun o => decide (o.id ∈ victims.map (·.id))) s.observations }
    (victims.map (·.sessionId))

inductive PurgeMode
  | preview
  | commit
  deriving DecidableEq

/-- What the ownership check of a self-service purge reads beyond the session:
the caller's key, the project policy, and handoffs in other projects. -/
structure PurgeOwner where
  storageKey : String
  mayWrite : Bool
  handoffsElsewhere : Bool

def sessionPagePath (sid : SessionId) : String := "sessions/" ++ toString sid ++ ".md"

def purgeRefused (s : Store) (proj : ProjectId) (r : SessionRow) :
    Option PurgeOwner → Option StoreError
  | none => none
  | some owner =>
    if !owner.mayWrite then some .forbidden
    else if r.actorUser ≠ some owner.storageKey then some .notFound
    else if owner.handoffsElsewhere
        || s.observations.any (fun o => o.sessionId = r.id && o.projectId ≠ proj) then
      some .invalidState
    else none

/-- Delete one session and what it produced, within one scope.  `names` says
that a page version's frontmatter names a session. -/
def purgeSession (names : String → SessionId → Bool) (s : Store) (ws : WorkspaceId)
    (proj : ProjectId) (sid : SessionId) (owner : Option PurgeOwner) (mode : PurgeMode)
    (now : ℤ) : Except StoreError Store :=
  match s.sessions.find? fun r => r.id = sid && r.workspaceId = ws && r.projectId = proj with
  | none => .error .notFound
  | some r =>
    match s.purgeRefused proj r owner with
    | some err => .error err
    | none =>
      if mode = .preview then .ok s
      else
        let s₁ := s.deletePages fun p => p.workspaceId = ws && p.projectId = proj
          && (r.summaryPageId = some p.id
            || (p.path = sessionPagePath sid && names p.frontmatterJson sid))
        let s₂ : Store := { s₁ with
          observations := delete (fun o => o.sessionId = sid && o.workspaceId = ws
            && o.projectId = proj) s₁.observations
          purgedSessions :=
            if s₁.purgedSessions.any (fun t => t.sessionId = sid) then
              update (fun t => t.sessionId = sid) (fun t => { t with purgedAt := now })
                s₁.purgedSessions
            else s₁.purgedSessions ++ [⟨sid, ws, proj, now⟩] }
        .ok (s₂.deleteSessions fun x => x.id = sid && x.workspaceId = ws && x.projectId = proj)

def purgeProject (s : Store) (ws : WorkspaceId) (proj : ProjectId) (runsActive force : Bool)
    (mode : PurgeMode) : Except StoreError Store :=
  if runsActive && !force then .error .managedRunActive
  else if mode = .preview then .ok s
  else .ok (s.deleteProject ws proj)

end Store
