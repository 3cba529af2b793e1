/-
The calls a managed run lives by (`ai-memory-store/src/workstream.rs`).

* `Call`, `step` — any of these, or another writer, as one step.
-/
import AiMemory.Store.Workstreams

open Table Runs
open Strings (trim)

namespace Workstreams

open Store Projects

variable (E : Env)

/-! ### Linking a native session -/

/-- A `SessionStart` that may repoint a run that holds another session. -/
inductive ClaudeSessionBoundary
  | other | clear | resume
  deriving DecidableEq

variable (m : Tables) (run : RunRow)

def foreignSession (session : String) : Bool :=
  m.sessions.any fun s => s.id = E.sessionIdOf session
    && m.workstreams.any fun w => w.id = run.workstreamId
      && (s.workspaceId ≠ w.workspaceId || s.projectId ≠ w.projectId
        || s.agentKind ≠ run.agent.asStr || s.actorUser ≠ run.ownerUser)

/-- Whether a run that is linked, or has been shown its context, may take up this
session: its own, or another at a boundary that Claude documents. -/
def admitsSession (session : String)
    (boundary : ClaudeSessionBoundary) : Bool :=
  if (run.contextDelivered || run.nativeSessionLinkedAt.isSome)
      && run.nativeSessionId.any (· ≠ session) then
    if boundary = .other || !run.scopeById || run.agent ≠ .claudeCode then false
    else if boundary = .clear then
      -- a fresh conversation: a delayed replay of a clear may not rewind the run
      !m.nativeSessions.any fun n => n.agent = run.agent && n.nativeSessionId = session
    else
      -- an earlier conversation of this workstream that no other live run holds
      (m.nativeSessions.any fun n => n.key = (run.workstreamId, run.agent, session))
        && !m.runs.any fun r => r.id ≠ run.id && r.agent = run.agent
          && r.nativeSessionId = some session && r.state = .active
  else true

variable (natives : List NativeSessionRow)

def retireSessions (stream : WorkstreamId) (agent : AgentKind)
    (session : String) (now : ℤ) : List NativeSessionRow :=
  update (fun n => n.workstreamId = stream && n.agent = agent && n.nativeSessionId ≠ session)
    (fun n => { n with
      isCurrent := false
      updatedAt := now }) natives

def deliveryCursor (natives : List NativeSessionRow) (stream : WorkstreamId) (agent : AgentKind)
    (session : String) : Option ℕ :=
  (natives.find? fun n => n.key = (stream, agent, session)).map (·.deliveryCursor)

/-- `ON CONFLICT … DO UPDATE` of a link: current again, and never shown less. -/
def relinked (old new : NativeSessionRow) : NativeSessionRow :=
  { old with
    isCurrent := true
    deliveryCursor := max old.deliveryCursor new.deliveryCursor
    updatedAt := new.updatedAt }

variable (runId : RunId)

/-- Bind a run to a session; `none` when the run may not take it up. -/
def linkNativeSessionInTransaction (agent : AgentKind)
    (identity : NativeSessionIdentity E.builtin) (now : ℤ) (boundary : ClaudeSessionBoundary) :
    Option Tables :=
  let session := identity.asStr
  match m.runs.find? fun r => r.id = runId && r.state = .active with
  | none => none
  | some run =>
    if run.agent ≠ agent || (run.scopeById && foreignSession E m run session)
        || !admitsSession m run session boundary then none
    else
      let retired := retireSessions m.nativeSessions run.workstreamId agent session now
      let initial := (deliveryCursor retired run.workstreamId agent session).getD
        (if run.contextDelivered then run.syncThrough else 0)
      some { m with
        nativeSessions := upsert NativeSessionRow.key relinked retired
          { workstreamId := run.workstreamId
            agent := agent
            nativeSessionId := session
            isCurrent := true
            sourceCursor := none
            deliveryCursor := initial
            createdAt := now
            updatedAt := now }
        runs := update (fun r => r.id = runId)
          (fun r => { r with
            nativeSessionId := some session
            syncAfter := initial
            nativeSessionLinkedAt := some now }) m.runs }

def linkNativeSession (agent : AgentKind) (session : String)
    (now : ℤ) : Bool × Tables :=
  match NativeSessionIdentity.parse E.builtin session with
  | none => (false, m)
  | some identity =>
    match linkNativeSessionInTransaction E m runId agent identity now .other with
    | none => (false, m)
    | some m' => (true, m')

inductive ManagedRunSessionLink
  | exact (run : RunId)
  | adopted (run : RunId)
  | noMatch
  | ambiguous
  | refused
  deriving DecidableEq

structure LinkOrAdoptManagedRunSession where
  suppliedRunId : RunId
  workspaceId : WorkspaceId
  projectId : ProjectId
  cwd : String
  agent : AgentKind
  nativeSessionId : String
  ownerUser : Option String

/-- The project and the operator a session may join a run from; `SessionStart` also
pins the checkout. -/
def admitsCaller (w : WorkstreamRow) (ws : WorkspaceId) (proj : ProjectId)
    (cwd : Option String) (ownerUser : Option String) : Bool :=
  w.workspaceId = ws && w.projectId = proj && cwd.all (w.cwd = ·) && run.ownerUser = ownerUser

/-- `ManagedRunBoundaryRow::read`. -/
def readBoundary : Option (RunRow × WorkstreamRow) :=
  (m.findRun runId).bind fun r => (m.findWorkstream r.workstreamId).map (r, ·)

def adoptable (input : LinkOrAdoptManagedRunSession) (now : ℤ) : List RunRow :=
  m.runs.filter fun r => r.agent = input.agent && r.ownerUser = input.ownerUser
    && r.state = .active && now < r.leaseExpiresAt && !r.contextDelivered
    && r.nativeSessionLinkedAt.isNone
    && m.workstreams.any fun w => w.id = r.workstreamId && w.workspaceId = input.workspaceId
      && w.projectId = input.projectId && w.cwd = input.cwd

/-- The run a `SessionStart` is about: the one it names, or for Codex the sole
candidate. -/
def selectRun (input : LinkOrAdoptManagedRunSession) (now : ℤ) :
    Except ManagedRunSessionLink (RunId × Bool) :=
  match (readBoundary m input.suppliedRunId).filter fun b => b.1.state = .active with
  | some (run, w) =>
    if admitsCaller run w input.workspaceId input.projectId (some input.cwd) input.ownerUser
        && run.agent = input.agent then .ok (input.suppliedRunId, false)
    else .error .refused
  | none =>
    if input.agent = .codex then
      match adoptable m input now with
      | [only] => .ok (only.id, true)
      | [] => .error .noMatch
      | _ => .error .ambiguous
    else .error .noMatch

def boundaryRefused (input : LinkOrAdoptManagedRunSession)
    (boundary : ClaudeSessionBoundary) (now : ℤ) : Bool :=
  boundary ≠ .other && (input.agent ≠ .claudeCode
    || !m.runs.any fun r => r.id = input.suppliedRunId && r.state = .active && r.scopeById
      && now < r.leaseExpiresAt)

/-- Bind a `SessionStart` to its run, or recover one stale Codex daemon id. -/
def linkOrAdoptNativeSession (input : LinkOrAdoptManagedRunSession)
    (boundary : ClaudeSessionBoundary) (now : ℤ) : ManagedRunSessionLink × Tables :=
  if isBlank input.nativeSessionId || isBlank input.cwd
      || input.ownerUser.any fun owner => !E.validOwner owner then (.refused, m)
  else match NativeSessionIdentity.parse E.builtin input.nativeSessionId with
    | none => (.refused, m)
    | some identity =>
      if boundaryRefused m input boundary now then (.refused, m)
      else match selectRun m input now with
        | .error answer => (answer, m)
        | .ok (runId, adopted) =>
          match linkNativeSessionInTransaction E m runId input.agent identity now boundary with
          | none => (.refused, m)
          | some m' => (if adopted then .adopted runId else .exact runId, m')

structure LinkManagedRunSessionInScope where
  runId : RunId
  workspaceId : WorkspaceId
  projectId : ProjectId
  agent : AgentKind
  nativeSessionId : String
  ownerUser : Option String

def linkNativeSessionInScope (input : LinkManagedRunSessionInScope) (now : ℤ) :
    ManagedRunSessionLink × Tables :=
  if input.ownerUser.any fun owner => !E.validOwner owner then (.refused, m)
  else match NativeSessionIdentity.parse E.builtin input.nativeSessionId with
    | none => (.noMatch, m)
    | some identity =>
      match (readBoundary m input.runId).filter fun b => b.1.state = .active with
      | none => (.noMatch, m)
      | some (run, w) =>
        if !admitsCaller run w input.workspaceId input.projectId none input.ownerUser then
          (if run.nativeSessionId = some identity.asStr then .noMatch else .refused, m)
        else match linkNativeSessionInTransaction E m input.runId input.agent identity now .other with
          | none => (.noMatch, m)
          | some m' => (.exact input.runId, m')

/-- Mark a run's packet delivered; `require_undelivered` claims it at most once. -/
def acceptContext (requireUndelivered : Bool) (now : ℤ) :
    Bool × Tables :=
  match m.runs.find? fun r => r.id = runId && r.state = .active
      && (!requireUndelivered || !r.contextDelivered) with
  | none => (false, m)
  | some run => (true,
      { m with
        runs := update (fun r => r.id = runId)
          (fun r => { r with
            contextDelivered := true
            leaseExpiresAt := now + leaseMicros }) m.runs
        nativeSessions := update
          (fun n => n.workstreamId = run.workstreamId && n.agent = run.agent
            && run.nativeSessionId = some n.nativeSessionId)
          (fun n => { n with
            deliveryCursor := max n.deliveryCursor run.syncThrough
            updatedAt := now }) m.nativeSessions })

structure WorkstreamEvent where
  sequence : ℕ
  eventId : String
  agent : AgentKind
  nativeSessionId : String
  kind : WorkstreamEventKind
  role : Option String
  content : String
  occurredAt : Option String

def EventRow.shown (e : EventRow) : WorkstreamEvent :=
  ⟨e.sequence, e.eventId, e.agent, e.nativeSessionId, e.kind, e.role, e.content, e.occurredAt⟩

structure ManagedRunContext where
  runId : RunId
  workstreamId : WorkstreamId
  workstreamName : String
  agent : AgentKind
  nativeSessionId : Option String
  previousNativeSession : Option ManagedNativeSessionReference
  syncAfter : ℕ
  syncThrough : ℕ
  contextDelivered : Bool
  events : List WorkstreamEvent

def assigned : List EventRow :=
  m.events.filter fun e => e.workstreamId = run.workstreamId && run.syncAfter < e.sequence
    && e.sequence ≤ run.syncThrough

def runContext (maxEvents : ℕ) : Option ManagedRunContext :=
  ((readBoundary m runId).filter fun b => b.1.state = .active).map fun (run, w) =>
    { runId := runId
      workstreamId := run.workstreamId
      workstreamName := w.name
      agent := run.agent
      nativeSessionId := run.nativeSessionId
      previousNativeSession := run.previousNativeSession
      syncAfter := run.syncAfter
      syncThrough := run.syncThrough
      contextDelivered := run.contextDelivered
      events := (((assigned m run).insertionSort (fun a b => b.sequence ≤ a.sequence)).take
        maxEvents).reverse.map EventRow.shown }

/-! ### Importing a transcript -/

def workstreamContentMaxBytes : ℕ := 16 * 1024

structure NewWorkstreamEvent where
  eventId : String
  agent : AgentKind
  nativeSessionId : String
  sourceRecordId : Option String
  kind : WorkstreamEventKind
  role : Option String
  content : String
  occurredAt : Option String
  metadata : Json.Value

structure FinishWorkstreamRun where
  /-- The configured privacy strip, `Sanitizer::scrub`. -/
  sanitizer : String → String
  runId : RunId
  nativeSessionId : Option String
  sourceCursor : Option String
  events : List NewWorkstreamEvent
  complete : Bool
  segmentPath : Option String
  exitCode : Option ℤ

structure FinishedWorkstreamRun where
  importedEvents : ℕ
  latestSequence : ℕ
  deriving DecidableEq

variable (scrub : String → String) (event : NewWorkstreamEvent)

def provenance : Option String × String :=
  let (source, metadata) := scrubWorkstreamProvenance scrub event.sourceRecordId event.metadata
  (source, E.renderJson metadata)

structure StoredEvent where
  agent : AgentKind
  nativeSessionId : String
  kind : WorkstreamEventKind
  sourceRecordId : Option String
  role : Option String
  content : String
  occurredAt : Option String
  metadataJson : String
  deriving DecidableEq

def EventRow.stored (e : EventRow) : StoredEvent :=
  ⟨e.agent, e.nativeSessionId, e.kind, e.sourceRecordId, e.role, e.content, e.occurredAt,
    e.metadataJson⟩

def expectedEvent : StoredEvent where
  agent := event.agent
  nativeSessionId := event.nativeSessionId
  kind := event.kind
  sourceRecordId := (provenance E scrub event).1
  role := event.role
  content := truncateUtf8Bytes event.content workstreamContentMaxBytes
  occurredAt := event.occurredAt
  metadataJson := (provenance E scrub event).2

variable (input : FinishWorkstreamRun)

def newEventRow (stream : WorkstreamId) (sequence : ℕ) (now : ℤ)
    (event : NewWorkstreamEvent) (session : String) : EventRow where
  workstreamId := stream
  sequence := sequence
  eventId := event.eventId
  agent := event.agent
  nativeSessionId := session
  sourceRecordId := (provenance E input.sanitizer event).1
  kind := event.kind
  role := event.role
  content := truncateUtf8Bytes (input.sanitizer event.content) workstreamContentMaxBytes
  occurredAt := event.occurredAt
  metadataJson := (provenance E input.sanitizer event).2
  segmentPath := input.segmentPath
  createdAt := now

def findEvent (events : List EventRow) (stream : WorkstreamId) (eventId : String) :
    Option EventRow :=
  events.find? fun e => e.key = (stream, eventId)

/-- The loop's variables: the highest sequence number, the count, and the table. -/
structure Import where
  latest : ℕ
  imported : ℕ
  events : List EventRow

/-- One event, under the session that was checked for it.  An id that is already there
is compared by its identity and kept.  The keys of a new row are free: its number is
past the highest, its id was looked up. -/
def importEvent (run : RunRow) (native : Option String) (now : ℤ)
    (acc : Import) (event : NewWorkstreamEvent) (session : String) : Except RunError Import :=
  if event.agent ≠ run.agent then .error (.eventAgent event.eventId event.agent run.agent)
  else match native.filter (event.nativeSessionId ≠ ·) with
    | some expected => .error (.eventSession event.eventId event.nativeSessionId expected)
    | none => match findEvent acc.events run.workstreamId event.eventId with
      | some old =>
        if old.agent ≠ event.agent || old.nativeSessionId ≠ event.nativeSessionId
            || old.kind ≠ event.kind then .error .eventReused
        else .ok acc
      | none => .ok
        { latest := acc.latest + 1
          imported := acc.imported + 1
          events := acc.events
            ++ [newEventRow E input run.workstreamId (acc.latest + 1) now event session] }

/-- `NativeSessionIdentity::parse` with the built-in patterns. -/
def validate (id : String) : Except RunError (NativeSessionIdentity E.builtin) :=
  match NativeSessionIdentity.parse E.builtin id with
  | some identity => .ok identity
  | none => .error .unknownIdentity

def isSuperseded (runs : List RunRow) (run : RunRow) : Bool :=
  ((runs.takeWhile (·.id ≠ run.id)).any fun newer =>
      newer.workstreamId = run.workstreamId && run.startedAt < newer.startedAt)
    || (runs.dropWhile (·.id ≠ run.id)).tail.any fun newer =>
      newer.workstreamId = run.workstreamId && run.startedAt ≤ newer.startedAt

def reopen (recoverExpired : Bool) (now : ℤ) :
    Except RunError Tables :=
  if run.state = .expired && recoverExpired then
    if isSuperseded m.runs run then .error (.superseded run.id)
    else do
      let runs ← checkedRuns (update (fun r => r.id = run.id && r.state = .expired)
        (fun r => { r with
          state := .active
          endedAt := none
          leaseExpiresAt := now + leaseMicros }) m.runs)
      return { m with runs := runs }
  else if run.state ≠ .active then .error (.notActive run.id run.state)
  else .ok m

/-- `ON CONFLICT … DO UPDATE` of a finished run: the source cursor is replaced. -/
def finishedSession (old new : NativeSessionRow) : NativeSessionRow :=
  { old with
    isCurrent := true
    sourceCursor := new.sourceCursor
    deliveryCursor := max old.deliveryCursor new.deliveryCursor
    updatedAt := new.updatedAt }

/-- The links after a batch: a complete one makes its session the current one. -/
def closeSessions (input : FinishWorkstreamRun) (run : RunRow)
    (native : Option String) (knownThrough : ℕ) (now : ℤ) : List NativeSessionRow :=
  match native with
  | some session =>
    if input.complete then
      upsert NativeSessionRow.key finishedSession
        (retireSessions natives run.workstreamId run.agent session now)
        { workstreamId := run.workstreamId
          agent := run.agent
          nativeSessionId := session
          isCurrent := true
          sourceCursor := input.sourceCursor
          deliveryCursor := knownThrough
          createdAt := now
          updatedAt := now }
    else natives
  | none => natives

def closeRun (native : Option String) (now : ℤ) (r : RunRow) :
    RunRow :=
  let kept := { r with
    nativeSessionId := native <|> r.nativeSessionId
    nativeSessionLinkedAt :=
      if native = none || native = r.nativeSessionId then r.nativeSessionLinkedAt else none }
  if input.complete then
    { kept with
      state := .finished
      endedAt := some now
      leaseExpiresAt := now
      exitCode := input.exitCode }
  else { kept with leaseExpiresAt := now + leaseMicros }

def importBatch (now : ℤ) :
    Except RunError (FinishedWorkstreamRun × Tables) := do
  let identity ← (input.nativeSessionId <|> run.nativeSessionId).mapM (validate E)
  let native := identity.map (·.asStr)
  let identities ← input.events.mapM fun event => validate E event.nativeSessionId
  let done ← (input.events.zip identities).foldlM
    (fun acc (event, identity) => importEvent E input run native now acc event identity.asStr)
    ⟨latestSequence m.events run.workstreamId, 0, m.events⟩
  let knownThrough :=
    if run.contextDelivered || run.syncThrough ≤ run.syncAfter then done.latest else 0
  return (⟨done.imported, done.latest⟩,
    { m with
      events := done.events
      nativeSessions := closeSessions m.nativeSessions input run native knownThrough now
      runs := update (fun r => r.id = run.id) (closeRun input native now) m.runs
      workstreams := update (fun w => w.id = run.workstreamId)
        (fun w => { w with updatedAt := now }) m.workstreams })

def replayedEvent
    : Bool :=
  (findEvent m.events run.workstreamId event.eventId).any
    (fun e => e.stored = expectedEvent E scrub event) && event.agent = run.agent

def storedCursor : Except RunError (Option String) :=
  match run.nativeSessionId with
  | none => .ok none
  | some session =>
    match m.nativeSessions.find? fun n => n.key = (run.workstreamId, run.agent, session) with
    | none => .error .noDurableSession
    | some n => .ok n.sourceCursor

def validateFinishedRecovery :
    Except RunError Unit :=
  if input.nativeSessionId ≠ run.nativeSessionId
      || (input.complete && input.exitCode ≠ run.exitCode)
      || (!input.complete && (input.sourceCursor.isSome || input.exitCode.isSome)) then
    .error .notExactReplay
  else if !input.events.all (replayedEvent E m run input.sanitizer) then .error .changedEvents
  else do
    let stored ← storedCursor m run
    if input.complete && stored ≠ input.sourceCursor then .error .cursorAdvanced else .ok ()

variable (authority : ManagedRunAuthority)

/-- `finish_run` and, with `recover_expired`, `recover_run`. -/
def finishRunInner (input : FinishWorkstreamRun)
    (recoverExpired : Bool) (now : ℤ) : Except RunError (FinishedWorkstreamRun × Tables) := do
  m.authorizeRunMutation input.runId authority
  match m.findRun input.runId with
  | none => .error .runNotFound
  | some run =>
    if run.state = .finished then do
      if recoverExpired then validateFinishedRecovery E m run input else .ok ()
      return (⟨0, latestSequence m.events run.workstreamId⟩, m)
    else do
      let m ← reopen m run recoverExpired now
      importBatch E m run input now

def recoverRun (input : FinishWorkstreamRun)
    (now : ℤ) : Except RunError (FinishedWorkstreamRun × Tables) :=
  finishRunInner E m authority input true now

inductive WorkstreamSelector
  | name (name : String)
  | id (id : WorkstreamId)

structure RenameWorkstream where
  workspaceId : WorkspaceId
  projectId : ProjectId
  repoFingerprint : String
  worktreeFingerprint : String
  selector : WorkstreamSelector
  newName : String

structure RenamedWorkstream where
  workstreamId : WorkstreamId
  «from» : String
  «to» : String

def RenameWorkstream.checkout (input : RenameWorkstream) (w : WorkstreamRow) : Bool :=
  w.workspaceId = input.workspaceId && w.projectId = input.projectId
    && w.repoFingerprint = input.repoFingerprint
    && w.worktreeFingerprint = input.worktreeFingerprint

def RenameWorkstream.find (input : RenameWorkstream) (streams : List WorkstreamRow) :
    Except RunError WorkstreamRow :=
  match input.selector with
  | .name name => match streams.find? fun w => input.checkout w && w.name = name with
    | some w => .ok w
    | none => .error (.workstreamNotFound name)
  | .id id => match streams.find? fun w => input.checkout w && w.id = id with
    | some w => .ok w
    | none => .error (.workstreamIdNotFound id)

def rename (input : RenameWorkstream) :
    Except RunError (RenamedWorkstream × Tables) := do
  validateWorkstreamName input.newName
  let newName := String.ofList (trim input.newName.toList)
  let found ← input.find m.workstreams
  if found.name = newName then return (⟨found.id, found.name, found.name⟩, m)
  else if m.workstreams.any fun w => input.checkout w && w.name = newName && w.id ≠ found.id then
    .error (.workstreamNameTaken newName)
  else return (⟨found.id, found.name, newName⟩,
    { m with
      workstreams := update (fun w => w.id = found.id) (fun w => { w with name := newName })
        m.workstreams })

/-- One call of the store.  `elsewhere` is any other writer: it may change the tables
that are only read here. -/
inductive Call
  | prepare (input : PrepareWorkstreamRun) (ownerUser : Option String) (forceUnlock : Bool)
      (newStream : WorkstreamId) (runId : RunId) (now : ℤ)
  | heartbeat (runId : RunId) (now : ℤ)
  | cancel (runId : RunId) (now : ℤ)
  | link (runId : RunId) (agent : AgentKind) (session : String) (now : ℤ)
  | linkOrAdopt (input : LinkOrAdoptManagedRunSession) (boundary : ClaudeSessionBoundary)
      (now : ℤ)
  | linkInScope (input : LinkManagedRunSessionInScope) (now : ℤ)
  | accept (runId : RunId) (requireUndelivered : Bool) (now : ℤ)
  | finish (authority : ManagedRunAuthority) (input : FinishWorkstreamRun)
      (recoverExpired : Bool) (now : ℤ)
  | rename (input : RenameWorkstream)
  | elsewhere (registry : Registry) (users : List UserId) (sessions : List SessionRow)

def committed {α : Type} : Except RunError (α × Tables) → Tables
  | .ok (_, m') => m'
  | .error _ => m

def step : Call → Tables
  | .prepare input ownerUser forceUnlock newStream runId now =>
    committed m (prepareRun E m input ownerUser forceUnlock newStream runId now)
  | .heartbeat runId now => (heartbeat m runId now).2
  | .cancel runId now => (cancelRun m runId now).2
  | .link runId agent session now => (linkNativeSession E m runId agent session now).2
  | .linkOrAdopt input boundary now => (linkOrAdoptNativeSession E m input boundary now).2
  | .linkInScope input now => (linkNativeSessionInScope E m input now).2
  | .accept runId requireUndelivered now => (acceptContext m runId requireUndelivered now).2
  | .finish authority input recoverExpired now =>
    committed m (finishRunInner E m authority input recoverExpired now)
  | .rename input => committed m (rename m input)
  | .elsewhere registry users sessions =>
    { m with
      registry := registry
      users := users
      sessions := sessions }

def Tables.empty : Tables := ⟨⟨[], [], []⟩, [], [], [], [], [], []⟩

end Workstreams
