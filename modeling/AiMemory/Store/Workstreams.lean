/-
Managed workstreams (`ai-memory-store/src/workstream.rs`).

A workstream is an append-only ledger of events that native harness sessions
share.  A managed run leases it: `prepare_run` opens the run, hooks link the
native session they see and accept the synchronization packet, and `finish_run`
imports the transcript, in one batch or several, before it closes the run.

Every function is one transaction of the source; an error is its rollback.  A
clock reading and the ids a call draws are arguments of it.  The rows of
`managed_runs` stand in `rowid` order.  A workstream's rows go only with its
project, which no function here deletes.

* `prepareRun`, `heartbeat`, `cancelRun` — the lease.

Links, packets and imports follow in `WorkstreamCalls`.
-/
import AiMemory.Store.Merge
import AiMemory.Lib.Json

open Table Runs
open Strings (isControl trim)

namespace Workstreams

open Store Projects

abbrev RunId := ℕ

inductive AgentKind
  | claudeCode | codex | openCode | cursor | geminiCli | claudeDesktop | openClaw
  | antigravityCli | omp | pi | crush | grok | zero | devin | kimiCode | kiroCli
  | commandCode | hermes | pool | zcode | copilotCli | grizzybot | droid | muse
  | codeBuddy | ibmBob | dsh | cline | qwenCode | qoder | other
  deriving DecidableEq

/-- The wire string; `from_wire` reads it back, so a column holds the kind. -/
def AgentKind.asStr : AgentKind → String
  | .claudeCode => "claude-code"
  | .codex => "codex"
  | .openCode => "open-code"
  | .cursor => "cursor"
  | .geminiCli => "gemini-cli"
  | .claudeDesktop => "claude-desktop"
  | .openClaw => "openclaw"
  | .antigravityCli => "antigravity-cli"
  | .omp => "omp"
  | .pi => "pi"
  | .crush => "crush"
  | .grok => "grok"
  | .zero => "zero"
  | .devin => "devin"
  | .kimiCode => "kimi-code"
  | .kiroCli => "kiro-cli"
  | .commandCode => "command-code"
  | .hermes => "hermes"
  | .pool => "pool"
  | .zcode => "zcode"
  | .copilotCli => "copilot-cli"
  | .grizzybot => "grizzybot"
  | .droid => "droid"
  | .muse => "muse"
  | .codeBuddy => "codebuddy"
  | .ibmBob => "ibm-bob"
  | .dsh => "dsh"
  | .cline => "cline"
  | .qwenCode => "qwen-code"
  | .qoder => "qoder"
  | .other => "other"

/-! ### Rows -/

inductive WorkstreamEventKind
  | message | toolCall | toolResult | compaction | checkpoint | annotation
  deriving DecidableEq

/-- A row of `workstream_native_sessions`. -/
structure NativeSessionRow where
  workstreamId : WorkstreamId
  agent : AgentKind
  nativeSessionId : String
  isCurrent : Bool
  sourceCursor : Option String
  deliveryCursor : ℕ
  createdAt : ℤ
  updatedAt : ℤ
  deriving DecidableEq

/-- Primary key of `workstream_native_sessions`. -/
def NativeSessionRow.key (n : NativeSessionRow) : WorkstreamId × AgentKind × String :=
  (n.workstreamId, n.agent, n.nativeSessionId)

/-- The current session of another harness, when a launch switches away from it. -/
structure ManagedNativeSessionReference where
  agent : AgentKind
  nativeSessionId : String
  deriving DecidableEq

/-- A row of `managed_runs`. -/
structure RunRow where
  id : RunId
  workstreamId : WorkstreamId
  agent : AgentKind
  leaseOwner : String
  nativeSessionId : Option String
  nativeSessionLinkedAt : Option ℤ
  ownerUser : Option String
  state : RunState
  syncAfter : ℕ
  syncThrough : ℕ
  contextDelivered : Bool
  leaseExpiresAt : ℤ
  startedAt : ℤ
  endedAt : Option ℤ
  exitCode : Option ℤ
  previousNativeSession : Option ManagedNativeSessionReference
  scopeById : Bool
  deriving DecidableEq

/-- A row of `workstream_events`. -/
structure EventRow where
  workstreamId : WorkstreamId
  sequence : ℕ
  eventId : String
  agent : AgentKind
  nativeSessionId : String
  sourceRecordId : Option String
  kind : WorkstreamEventKind
  role : Option String
  content : String
  occurredAt : Option String
  metadataJson : String
  segmentPath : Option String
  createdAt : ℤ
  deriving DecidableEq

/-- `UNIQUE (workstream_id, event_id)`. -/
def EventRow.key (e : EventRow) : WorkstreamId × String := (e.workstreamId, e.eventId)

/-- The tables managed runs read and write.  Projects, users and captured sessions
are only read here. -/
structure Tables where
  registry : Registry
  users : List UserId
  sessions : List SessionRow
  workstreams : List WorkstreamRow
  nativeSessions : List NativeSessionRow
  runs : List RunRow
  events : List EventRow
  deriving DecidableEq

inductive RunError
  /-- `invalid managed-run owner identity` -/
  | invalidOwner
  /-- `invalid workstream name '…'` -/
  | invalidName (name : String)
  /-- `workstream '…' already exists; select it with --workstream` -/
  | alreadyExists (name : String)
  /-- `managed workstream '…'` -/
  | workstreamNotFound (name : String)
  /-- `managed workstream …` -/
  | workstreamIdNotFound (id : WorkstreamId)
  /-- `owned by … until …` -/
  | workstreamBusy (owner : String) (expires : ℤ)
  | workstreamNameTaken (name : String)
  /-- `managed run not found` -/
  | runNotFound
  /-- `managed run belongs to another operator` -/
  | otherOperator
  /-- The project is not in the workspace its workstream names. -/
  | projectNotFound
  /-- `authenticated user no longer exists` -/
  | userGone
  | forbidden (refusal : AuthzError)
  /-- `managed run … was superseded and cannot be recovered` -/
  | superseded (run : RunId)
  /-- `managed run … is …` -/
  | notActive (run : RunId) (state : RunState)
  /-- `native session identity is UNKNOWN; refusing managed binding` -/
  | unknownIdentity
  /-- `event … belongs to …, managed run expects …` -/
  | eventAgent (eventId : String) (agent expected : AgentKind)
  /-- `event … belongs to native session …, managed run expects …` -/
  | eventSession (eventId session expected : String)
  /-- `workstream event id reused with different identity` -/
  | eventReused
  /-- `finished managed run recovery is not an exact replay` -/
  | notExactReplay
  /-- `finished managed run recovery contains uncommitted or changed events` -/
  | changedEvents
  /-- `finished managed run recovery has no durable native session` -/
  | noDurableSession
  /-- `finished managed run recovery cannot advance its source cursor` -/
  | cursorAdvanced
  /-- A key, unique index or trigger refused the row. -/
  | constraint
  deriving DecidableEq

/-- What the store takes from elsewhere: the built-in privacy patterns, the shape of
an owner key, the session id a native id is filed under, and the JSON writer. -/
structure Env where
  builtin : String → String
  validOwner : String → Bool
  sessionIdOf : String → SessionId
  renderJson : Json.Value → String

variable (E : Env)

def isInvisible (c : Char) : Bool :=
  let n := c.toNat
  (0x200b ≤ n && n ≤ 0x200f) || (0x202a ≤ n && n ≤ 0x202e) || (0x2060 ≤ n && n ≤ 0x2069)
    || n = 0xfeff

variable (scrub : String → String)

def isIdentity (original : String) : Bool :=
  !isBlank original && original.utf8ByteSize ≤ 512
    && !original.toList.any (fun c => isControl c || isInvisible c)
    && !(original.toList.tails.any fun t => "[REDACTED:".toList.isPrefixOf t)
    && scrub original = original

structure NativeSessionIdentity (scrub : String → String) where
  asStr : String
  accepted : isIdentity scrub asStr = true

def NativeSessionIdentity.parse (original : String) :
    Option (NativeSessionIdentity scrub) :=
  if h : isIdentity scrub original = true then some ⟨original, h⟩ else none

/-! ### What an event keeps of its source -/

def decimal? (digits : Text) : Option ℕ :=
  if digits = [] || !digits.all Char.isDigit then none
  else some (digits.foldl (fun n c => 10 * n + (c.toNat - '0'.toNat)) 0)

/-- `as_u64` of a number. -/
def asU64? : Json.Value → Option ℕ
  | .number text => (decimal? text.toList).filter (· < 2 ^ 64)
  | _ => none

/-- `as_i64` of a number, when it fits in 32 bits. -/
def asI32? : Json.Value → Option ℤ
  | .number text => match text.toList with
    | '-' :: digits => (decimal? digits).bind fun n =>
        if 0 < n && n ≤ 2 ^ 31 then some (-n : ℤ) else none
    | digits => (decimal? digits).bind fun n => if n < 2 ^ 31 then some (n : ℤ) else none
  | _ => none

def asBool? : Json.Value → Option Bool
  | .bool b => some b
  | _ => none

def scrubLabel (value : String) : String :=
  truncateUtf8Bytes (scrub value) 512

def allowedMetadata (metadata : Json.Value) :
    List (String × Json.Value) :=
  (["tool", "tool_call_id", "tool_use_id", "parent_id", "summary_type", "status"].filterMap
      fun key => ((metadata.get? key).bind Json.Value.asStr?).map
        fun value => (key, .string (scrubLabel scrub value)))
    ++ (((metadata.get? "is_error").bind asBool?).map
      fun value => ("is_error", .bool value)).toList
    ++ (((metadata.get? "exit_code").bind asI32?).map
      fun value => ("exit_code", .number (toString value))).toList
    ++ (((metadata.get? "loss_count").bind asU64?).map
      fun value => ("loss_count", .number (toString value))).toList

/-- `scrub_workstream_provenance`. -/
def scrubWorkstreamProvenance (sourceRecordId : Option String)
    (metadata : Json.Value) : Option String × Json.Value :=
  ((sourceRecordId.map (scrubLabel scrub)).filter (!isBlank ·),
    match allowedMetadata scrub metadata with
    | [] => .null
    | fields => .object fields)

inductive RunProjectPolicy
  | grants | trustedProxyLegacy
  deriving DecidableEq

structure ManagedRunAuthority where
  principal : ProjectPrincipal
  owner : OwnerFilter
  distinguishesOperators : Bool
  projectPolicy : RunProjectPolicy

namespace Tables

variable (m : Tables)

def findRun (id : RunId) : Option RunRow := m.runs.find? fun r => r.id = id

def findWorkstream (id : WorkstreamId) : Option WorkstreamRow :=
  m.workstreams.find? fun w => w.id = id

/-- The strict resolution: the project must be there, and so must the user; a server
with users tells operators apart. -/
def resolveProjectAuthzStrict (ws : WorkspaceId) (proj : ProjectId) (principal : ProjectPrincipal)
    (distinguishesOperators : Bool) : Except RunError ProjectAuthz :=
  if !m.registry.projects.any fun p => p.id = proj && p.workspaceId = ws
      && m.registry.workspaces.any fun w => w.id = p.workspaceId then .error .projectNotFound
  else if principal.userId.any (· ∉ m.users) then .error .userGone
  else .ok (resolveProjectAuthz m.registry ws proj principal
    (distinguishesOperators || m.users ≠ []))

def authorizeRunMutation (runId : RunId) (authority : ManagedRunAuthority) :
    Except RunError Unit :=
  match (m.findRun runId).bind fun r => (m.findWorkstream r.workstreamId).map (r, ·) with
  | none => .error .runNotFound
  | some (r, w) =>
    if !authority.owner.admits r.ownerUser then .error .otherOperator
    else do
      let authz ← m.resolveProjectAuthzStrict w.workspaceId w.projectId authority.principal
        authority.distinguishesOperators
      match authority.projectPolicy with
      | .trustedProxyLegacy => .ok ()
      | .grants => match authorizeProject authz .write with
        | .ok () => .ok ()
        | .error refusal => .error (.forbidden refusal)

end Tables

/-! ### Opening a run -/

def leaseMicros : ℤ := 90 * 1000000

def maxWorkstreamNameChars : ℕ := 128

inductive WorkstreamSelection
  | current
  | named (name : String)
  | new (name : String)

structure PrepareWorkstreamRun where
  workspaceId : WorkspaceId
  projectId : ProjectId
  scopeById : Bool
  repoFingerprint : String
  worktreeFingerprint : String
  cwd : String
  agent : AgentKind
  automaticHarness : Bool
  availableAgents : List AgentKind
  selection : WorkstreamSelection
  leaseOwner : String

structure PreparedWorkstreamRun where
  workstreamId : WorkstreamId
  workstreamName : String
  runId : RunId
  agent : AgentKind
  nativeSessionId : Option String
  sourceCursor : Option String
  previousNativeSession : Option ManagedNativeSessionReference
  syncAfter : ℕ
  syncThrough : ℕ
  mayAdoptExistingSession : Bool

def validateWorkstreamName (name : String) : Except RunError Unit :=
  let trimmed := trim name.toList
  if trimmed = [] || maxWorkstreamNameChars < trimmed.length || trimmed.any isControl
      || trimmed.any fun c => c = '/' || c = '\\' then .error (.invalidName name)
  else .ok ()

variable (runs : List RunRow)

/-- The workstreams of the active runs, for `idx_managed_runs_one_active`. -/
def activeStreams : List WorkstreamId :=
  (runs.filter fun r => r.state = .active).map (·.workstreamId)

/-- The keys of `managed_runs`, as a write is checked against them. -/
def checkedRuns : Except RunError (List RunRow) :=
  if KeyUnique RunRow.id runs ∧ (activeStreams runs).Nodup then .ok runs else .error .constraint

/-- `COALESCE(MAX(sequence), 0)`. -/
def latestSequence (events : List EventRow) (stream : WorkstreamId) : ℕ :=
  ((events.filter fun e => e.workstreamId = stream).map (·.sequence)).foldr max 0

def expireStale (now : ℤ) : List RunRow :=
  update (fun r => r.state = .active && r.leaseExpiresAt ≤ now)
    (fun r => { r with
      state := .expired
      endedAt := some now }) runs

/-- `SET state = 'expired', ended_at = ?1, lease_expires_at = ?1 WHERE id = ?2 AND
state = 'active'`. -/
def release (runId : RunId) (now : ℤ) : List RunRow :=
  update (fun r => r.id = runId && r.state = .active)
    (fun r => { r with
      state := .expired
      endedAt := some now
      leaseExpiresAt := now }) runs

def PrepareWorkstreamRun.checkout (input : PrepareWorkstreamRun) (w : WorkstreamRow) : Bool :=
  w.workspaceId = input.workspaceId && w.projectId = input.projectId
    && w.repoFingerprint = input.repoFingerprint
    && w.worktreeFingerprint = input.worktreeFingerprint

def findNamedWorkstream (streams : List WorkstreamRow) (input : PrepareWorkstreamRun)
    (name : String) : Option WorkstreamRow :=
  streams.find? fun w => input.checkout w && w.name = name

/-- `ORDER BY selected_at DESC, id DESC LIMIT 1`. -/
def latestSelected : List WorkstreamRow → Option WorkstreamRow
  | [] => none
  | w :: rest => match latestSelected rest with
    | none => some w
    | some v => if v.selectedAt < w.selectedAt ∨ (v.selectedAt = w.selectedAt ∧ v.id < w.id)
        then some w else some v

/-- The row of a new workstream; its keys and the pairing trigger are checked. -/
def insertWorkstream (m : Tables) (input : PrepareWorkstreamRun) (name : String)
    (id : WorkstreamId) (now : ℤ) : Except RunError (WorkstreamRow × List WorkstreamRow) :=
  let row : WorkstreamRow :=
    { id := id
      workspaceId := input.workspaceId
      projectId := input.projectId
      repoFingerprint := input.repoFingerprint
      worktreeFingerprint := input.worktreeFingerprint
      name := name
      cwd := input.cwd
      createdAt := now
      selectedAt := now
      updatedAt := now }
  if KeyUnique WorkstreamRow.id (m.workstreams ++ [row])
      ∧ KeyUnique WorkstreamRow.coordinate (m.workstreams ++ [row])
      ∧ m.registry.projects.any fun p => p.id = input.projectId && p.workspaceId = input.workspaceId
  then .ok (row, m.workstreams ++ [row])
  else .error .constraint

def selectWorkstream (m : Tables) (input : PrepareWorkstreamRun) (id : WorkstreamId) (now : ℤ) :
    Except RunError (WorkstreamRow × List WorkstreamRow) :=
  match input.selection with
  | .new name => do
    validateWorkstreamName name
    if (findNamedWorkstream m.workstreams input name).isSome then .error (.alreadyExists name)
    else insertWorkstream m input name id now
  | .named name => do
    validateWorkstreamName name
    match findNamedWorkstream m.workstreams input name with
    | some w => .ok (w, m.workstreams)
    | none => .error (.workstreamNotFound name)
  | .current => match latestSelected (m.workstreams.filter input.checkout) with
    | some w => .ok (w, m.workstreams)
    | none => insertWorkstream m input "default" id now

def unlockBusy (stream : WorkstreamId) (ownerUser : Option String)
    (forceUnlock : Bool) (now : ℤ) : Except RunError (List RunRow) :=
  match runs.find? fun r => r.workstreamId = stream && r.state = .active with
  | none => .ok runs
  | some busy =>
    if forceUnlock && busy.ownerUser = ownerUser then
      .ok (release runs busy.id now)
    else .error (.workstreamBusy busy.leaseOwner busy.leaseExpiresAt)

variable (natives : List NativeSessionRow)

/-- The sessions a harness would resume, the latest first; the source leaves ties
open when it looks for a harness. -/
def currentSessions (stream : WorkstreamId) :
    List NativeSessionRow :=
  (natives.filter fun n => n.workstreamId = stream && n.isCurrent).insertionSort
    fun a b => b.updatedAt < a.updatedAt
      ∨ (a.updatedAt = b.updatedAt ∧ a.agent.asStr ≤ b.agent.asStr)

def newestAvailableAgent (stream : WorkstreamId)
    (available : List AgentKind) : Option AgentKind :=
  ((currentSessions natives stream).map (·.agent)).find? (· ∈ available)

def previousNativeSession (stream : WorkstreamId)
    (agent : AgentKind) : Option ManagedNativeSessionReference :=
  (currentSessions natives stream).head?.bind fun n =>
    if n.agent ≠ agent then some ⟨n.agent, n.nativeSessionId⟩ else none

def established (m : Tables) (stream : WorkstreamId) : Bool :=
  (m.nativeSessions.any fun n => n.workstreamId = stream)
    || m.events.any fun e => e.workstreamId = stream
      && (e.kind = .message || e.kind = .toolCall || e.kind = .toolResult || e.kind = .compaction)

def chosenAgent (m : Tables) (input : PrepareWorkstreamRun) (stream : WorkstreamId) : AgentKind :=
  if input.automaticHarness then
    (newestAvailableAgent m.nativeSessions stream input.availableAgents).getD input.agent
  else input.agent

def currentSession (m : Tables) (stream : WorkstreamId) (agent : AgentKind) :
    Option NativeSessionRow :=
  m.nativeSessions.find? fun n => n.workstreamId = stream && n.agent = agent && n.isCurrent

/-- The row of a new run: it holds the current session, and is assigned what that
session has not been shown. -/
def openedRun (m : Tables) (input : PrepareWorkstreamRun) (ownerUser : Option String)
    (stream : WorkstreamId) (runId : RunId) (now : ℤ) : RunRow :=
  let agent := chosenAgent m input stream
  let native := currentSession m stream agent
  { id := runId
    workstreamId := stream
    agent := agent
    leaseOwner := input.leaseOwner
    nativeSessionId := native.map (·.nativeSessionId)
    nativeSessionLinkedAt := none
    ownerUser := ownerUser
    state := .active
    syncAfter := (native.map (·.deliveryCursor)).getD 0
    syncThrough := latestSequence m.events stream
    contextDelivered := false
    leaseExpiresAt := now + leaseMicros
    startedAt := now
    endedAt := none
    exitCode := none
    previousNativeSession := previousNativeSession m.nativeSessions stream agent
    scopeById := input.scopeById }

def prepareRun (m : Tables) (input : PrepareWorkstreamRun) (ownerUser : Option String)
    (forceUnlock : Bool) (newStream : WorkstreamId) (runId : RunId) (now : ℤ) :
    Except RunError (PreparedWorkstreamRun × Tables) :=
  if ownerUser.any fun owner => !E.validOwner owner then .error .invalidOwner
  else do
    let (stream, streams) ← selectWorkstream m input newStream now
    let unlocked ← unlockBusy (expireStale m.runs now) stream.id ownerUser forceUnlock now
    let run := openedRun m input ownerUser stream.id runId now
    let runs ← checkedRuns (unlocked ++ [run])
    return (
      { workstreamId := stream.id
        workstreamName := stream.name
        runId := runId
        agent := run.agent
        nativeSessionId := run.nativeSessionId
        sourceCursor := (currentSession m stream.id run.agent).bind (·.sourceCursor)
        previousNativeSession := run.previousNativeSession
        syncAfter := run.syncAfter
        syncThrough := run.syncThrough
        mayAdoptExistingSession := !established m stream.id },
      { m with
        workstreams := update (fun w => w.id = stream.id)
          (fun w => { w with
            selectedAt := now
            updatedAt := now
            cwd := input.cwd }) streams
        runs := runs })

def heartbeat (m : Tables) (runId : RunId) (now : ℤ) : Bool × Tables :=
  (m.runs.any fun r => r.id = runId && r.state = .active,
    { m with
      runs := update (fun r => r.id = runId && r.state = .active)
        (fun r => { r with leaseExpiresAt := now + leaseMicros }) m.runs })

def cancelRun (m : Tables) (runId : RunId) (now : ℤ) : Bool × Tables :=
  (m.runs.any fun r => r.id = runId && r.state = .active,
    { m with runs := release m.runs runId now })

end Workstreams
