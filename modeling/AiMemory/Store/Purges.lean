/-
The three purges of the store (`ai-memory-store/src/ops.rs`), over its whole
catalogue.

Each collects what it will report before anything is cut; a preview stops there,
a commit deletes, leaves a tombstone and writes an audit row.  An error rolls the
transaction back.

* `Purge`, `Purge.run` — one of them, and the store after it.
-/
import Mathlib.Data.List.Sort
import AiMemory.Core.PagePath
import AiMemory.Store.Catalog
import AiMemory.Store.Projects

open Catalog Catalog.Table Catalog.Column Cascade Projects Wiki

namespace Purge

inductive SqliteError
  | queryReturnedNoRows | invalidColumnType | foreignKey
  deriving DecidableEq

inductive StoreError
  | notFound (what : String)
  | forbidden (why : String)
  | invalidState (why : String)
  | malformedRecord (what : String)
  | malformedId
  | managedRunActive (count : ℕ) (workstreams : String)
  | workspaceNotEmpty (projects : ℕ)
  | invalidPagePath (e : InvalidPagePath)
  | sqlite (e : SqliteError)
  deriving DecidableEq

inductive PurgeMode
  | preview | commit
  deriving DecidableEq

inductive Compaction
  | logical | reclaim
  deriving DecidableEq

/-- `row.get::<_, Vec<u8>>`. -/
def getBlob (r : DbRow) (c : Column) : Except StoreError Uuid :=
  match r.cell c with
  | some (.blob bytes) => .ok bytes
  | _ => .error (.sqlite .invalidColumnType)

/-- `row.get::<_, String>`. -/
def getText (r : DbRow) (c : Column) : Except StoreError String :=
  match r.cell c with
  | some (.text s) => .ok s
  | _ => .error (.sqlite .invalidColumnType)

def fromSlice (raw : Uuid) : Except StoreError Uuid :=
  if raw.length = 16 then .ok raw else .error .malformedId

/-- `row.get::<_, Option<Vec<u8>>>`. -/
def getOptBlob (r : DbRow) (c : Column) : Except StoreError (Option Uuid) :=
  match r.cell c with
  | none => .ok none
  | some (.blob bytes) => .ok (some bytes)
  | some _ => .error (.sqlite .invalidColumnType)

variable (db : Db)

def audit (name : String) (ws proj : Uuid) (author : Option Uuid) (now : ℤ) :
    Except StoreError Db :=
  match db.insert auditLog (by decide) ([(.at, .int now), (.op, .text name), (workspaceId, .blob ws),
      (projectId, .blob proj)] ++ (author.map fun a => (authorId, .blob a)).toList) with
  | some db => .ok db
  | none => .error (.sqlite .foreignKey)

variable (sessionsWhere : DbRow → Bool)

/-- `last_session` is the text of the id of one of these sessions. -/
def lastSessionOf (r : DbRow) : Bool :=
  (db.table sessions).any fun s => sessionsWhere s && match s.cell .id with
    | some (.blob sid) => is r lastSession (.text (hyphenated sid))
    | _ => false

/-- Delete the query signals whose last session is one that `sessionsWhere` selects. -/
def deleteQuerySignalsOfSessions : Db :=
  (execDelete db queryPageSignals (lastSessionOf db sessionsWhere)).2

/-- `INSERT OR REPLACE INTO purged_scopes`. -/
def tombstoneScope (ws proj : Uuid) (now : ℤ) : Except StoreError Db :=
  match (execDelete db purgedScopes (inScope ws proj)).2.insert purgedScopes (by decide)
      [(workspaceId, .blob ws), (projectId, .blob proj), (purgedAt, .int now)] with
  | some db => .ok db
  | none => .error (.sqlite .foreignKey)

/-- `INSERT INTO purged_sessions … ON CONFLICT(session_id) DO UPDATE`. -/
def tombstoneSession (ws proj sid : Uuid) (now : ℤ) : Except StoreError Db :=
  if (db.table purgedSessions).any (is · sessionId (.blob sid)) then
    .ok (db.assign (fun r => r.table = purgedSessions && is r sessionId (.blob sid)) purgedAt
      (by decide) (.int now))
  else
    match db.insert purgedSessions (by decide) [(sessionId, .blob sid), (workspaceId, .blob ws),
        (projectId, .blob proj), (purgedAt, .int now)] with
    | some db => .ok db
    | none => .error (.sqlite .foreignKey)

/-! ### Purging a session -/

structure PurgeSessionSummary where
  observationsDeleted : ℕ
  handoffsDeleted : ℕ
  pagesDeleted : ℕ
  autoImproveRunsDeleted : ℕ
  removedPaths : List PagePath
  collateralObservationsDeleted : ℕ
  collateralHandoffsDenulled : ℕ
  compacted : Bool
  deriving DecidableEq

/-- `GrantLevel::from_db`. -/
def grantLevelFromDb : String → Option GrantLevel
  | "read" => some .read
  | "write" => some .write
  | _ => none

/-- `read_project_row_strict`: the mode, the creator and whether the scope is reserved. -/
def readProjectRowStrict (ws proj : Uuid) :
    Except StoreError (AccessMode × Option Uuid × Bool) :=
  let joined := (db.table projects).filterMap fun p =>
    if is p workspaceId (.blob ws) && is p .id (.blob proj) then
      ((db.table workspaces).find? fun w => w.cell .id = p.cell workspaceId).map (p, ·)
    else none
  match joined with
  | [] => .error (.sqlite .queryReturnedNoRows)
  | (p, w) :: _ => do
    let mode ← getText p accessMode
    let creator ← getOptBlob p createdBy
    let project ← getText p name
    let workspace ← getText w name
    let mode : AccessMode ← match mode with
      | "open" => .ok .open
      | "restricted" => .ok .restricted
      | _ => .error (.malformedRecord "unknown project access mode")
    let creator ← match creator with
      | none => .ok none
      | some raw => (fromSlice raw).map some
    return (mode, creator, isReservedGlobal workspace project)

/-- `resolve_project_authz_strict` for a database user, on a server that tells
operators apart. -/
def resolveProjectAuthzStrict (ws proj user : Uuid) : Except StoreError ProjectAuthz := do
  let (mode, creator, reserved) ← readProjectRowStrict db ws proj
  if !(db.table users).any (is · .id (.blob user)) then
    .error (.forbidden "authenticated user no longer exists")
  else
    let grant : Option GrantLevel ←
      if reserved || mode = .restricted then
        match (db.table projectGrants).find? fun g =>
            inScope ws proj g && is g userId (.blob user) with
        | none => pure none
        | some g => (getText g level).map grantLevelFromDb
      else pure none
    return ⟨true, mode, false, creator = some user, grant, reserved⟩

def collateralObservations (proj sid : Uuid) : ℕ :=
  count db observations fun o => is o sessionId (.blob sid) && isNot o projectId (.blob proj)

def collateralHandoffs (proj sid : Uuid) : ℕ :=
  count db handoffs fun h => isNot h projectId (.blob proj)
    && (is h fromSessionId (.blob sid) || is h acceptedBySession (.blob sid))

def checkSession (ws proj sid : Uuid) (author : Option Uuid) (owner : Option String) :
    Except StoreError Unit := do
  let here := (db.table sessions).filter fun s => is s .id (.blob sid) && inScope ws proj s
  if here.length = 0 then
    .error (.notFound s!"session {hyphenated sid} not found in this workspace/project")
  else match owner with
    | none => pure ()
    | some owner => do
      let user ← match author with
        | some user => .ok user
        | none => .error (.forbidden "operator required")
      let authz ← resolveProjectAuthzStrict db ws proj user
      match authorizeProject authz .write with
      | .error _ => .error (.forbidden "project write access required")
      | .ok _ =>
        if here.head?.any (is · actorUser (.text owner)) then pure ()
        else .error (.notFound "session not found")

section Session

-- `json_extract(frontmatter_json, '$.session_id')`
variable (sessionIdOf : String → Option String)

/-- The recorded summary, and every version at the session's page path whose
frontmatter names this session. -/
def isSessionPage (db : Db) (ws proj sid : Uuid) (p : DbRow) : Bool :=
  inScope ws proj p
    && ((db.table sessions).any (fun s => is s .id (.blob sid)
        && s.cell summaryPageId ≠ none && s.cell summaryPageId = p.cell .id)
      || (is p path (.text s!"sessions/{hyphenated sid}.md")
        && match p.cell frontmatterJson with
          | some (.text json) => sessionIdOf json = some (hyphenated sid)
          | _ => false))

def isSessionRun (ws proj sid : Uuid) (r : DbRow) : Bool :=
  is r sessionId (.blob sid) && inScope ws proj r

def pagePathOf (db : Db) (ws proj id : Uuid) (paths : List PagePath) :
    Except StoreError (List PagePath) :=
  match (db.table pages).find? fun p => is p .id (.blob id) && inScope ws proj p with
  | none => .ok paths
  | some p => do
    let raw ← getText p path
    match PagePath.new raw.toList with
    | .error e => .error (.invalidPagePath e)
    | .ok found => return if found ∈ paths then paths else paths ++ [found]

def hasLivePage (db : Db) (ws proj : Uuid) (pageIds : List Uuid) (p : PagePath) : Bool :=
  (db.table pages).any fun r => inScope ws proj r && is r path (.text p.str)
    && is r isLatest (.int 1) && !pageIds.any fun id => is r .id (.blob id)

structure SessionPlan where
  pageIds : List Uuid
  removedPaths : List PagePath
  runIds : List Uuid
  collateralObservationsDeleted : ℕ
  collateralHandoffsDenulled : ℕ

def collectSession (db : Db) (ws proj sid : Uuid) (author : Option Uuid)
    (owner : Option String) : Except StoreError SessionPlan := do
  checkSession db ws proj sid author owner
  let pageIds ← ((db.table pages).filter (isSessionPage sessionIdOf db ws proj sid)).mapM
    (getBlob · .id)
  let paths ← pageIds.foldlM (fun paths id => pagePathOf db ws proj id paths) []
  let runIds ← ((db.table autoImproveRuns).filter (isSessionRun ws proj sid)).mapM (getBlob · .id)
  let plan : SessionPlan := {
    pageIds := pageIds
    removedPaths := paths.filter fun p => !hasLivePage db ws proj pageIds p
    runIds := runIds
    collateralObservationsDeleted := collateralObservations db proj sid
    collateralHandoffsDenulled := collateralHandoffs db proj sid }
  if owner.isSome && (plan.collateralObservationsDeleted > 0 || plan.collateralHandoffsDenulled > 0)
  then .error (.invalidState "session spans projects; an administrator must purge it")
  else return plan

end Session

def inScopeSession (ws proj sid : Uuid) (r : DbRow) : Bool :=
  is r sessionId (.blob sid) && inScope ws proj r

def authoredHandoff (ws proj sid : Uuid) (r : DbRow) : Bool :=
  is r fromSessionId (.blob sid) && inScope ws proj r

def promptEvidence (sid : Uuid) (r : DbRow) : Bool :=
  is r sourceKind (.text "prompt") && is r sourceRef (.text s!"session:{hyphenated sid}")

structure CutCounts where
  runs : ℕ
  handoffs : ℕ
  pages : ℕ
  observations : ℕ

def cutRejections (ws proj : Uuid) (runIds : List Uuid) : Db :=
  runIds.foldl (fun db run => (execDelete db autoImproveRejections fun r =>
    is r sourceRunId (.blob run) && inScope ws proj r).2) db

def cutPages (ws proj : Uuid) (pageIds : List Uuid) : ℕ × Db :=
  pageIds.foldl (fun acc id =>
    let cut := execDelete acc.2 pages fun p => is p .id (.blob id) && inScope ws proj p
    (acc.1 + cut.1, cut.2)) (0, db)

def cutSession (ws proj sid : Uuid) (plan : SessionPlan) : CutCounts × Db :=
  let db := cutRejections db ws proj plan.runIds
  let (runCount, db) := execDelete db autoImproveRuns (isSessionRun ws proj sid)
  let (handoffCount, db) := execDelete db handoffs (authoredHandoff ws proj sid)
  let (pageCount, db) := cutPages db ws proj plan.pageIds
  let (observationCount, db) := execDelete db observations (inScopeSession ws proj sid)
  let (_, db) := execDelete db profileCandidates (promptEvidence sid)
  let (_, db) := execDelete db queryPageSignals (is · lastSession (.text (hyphenated sid)))
  (⟨runCount, handoffCount, pageCount, observationCount⟩, db)

def purgeSessionWithOwner (sessionIdOf : String → Option String) (db : Db) (ws proj sid : Uuid)
    (author : Option Uuid) (compaction : Compaction) (mode : PurgeMode) (owner : Option String)
    (now auditedAt : ℤ) : Except StoreError (PurgeSessionSummary × Db) := do
  let plan ← collectSession sessionIdOf db ws proj sid author owner
  match mode with
  | .preview =>
    return ({
      observationsDeleted := count db observations (inScopeSession ws proj sid)
      handoffsDeleted := count db handoffs (authoredHandoff ws proj sid)
      pagesDeleted := plan.pageIds.length
      autoImproveRunsDeleted := plan.runIds.length
      removedPaths := plan.removedPaths
      collateralObservationsDeleted := plan.collateralObservationsDeleted
      collateralHandoffsDenulled := plan.collateralHandoffsDenulled
      compacted := false }, db)
  | .commit =>
    let (cut, db) := cutSession db ws proj sid plan
    let db ← tombstoneSession db ws proj sid now
    let db := (execDelete db sessions fun s => is s .id (.blob sid) && inScope ws proj s).2
    let db ← audit db "purge_session" ws proj author auditedAt
    return ({
      observationsDeleted := cut.observations
      handoffsDeleted := cut.handoffs
      pagesDeleted := cut.pages
      autoImproveRunsDeleted := cut.runs
      removedPaths := plan.removedPaths
      collateralObservationsDeleted := plan.collateralObservationsDeleted
      collateralHandoffsDenulled := plan.collateralHandoffsDenulled
      compacted := compaction = .reclaim }, db)

/-! ### Purging a project -/

structure PurgeSummary where
  label : String
  pagePaths : List String
  pagesDeleted : ℕ
  sessionsDeleted : ℕ
  observationsDeleted : ℕ
  handoffsDeleted : ℕ
  embeddingsDeleted : ℕ
  collateralObservationsDeleted : ℕ
  collateralHandoffsDenulled : ℕ
  workstreamsDeleted : ℕ
  managedRunsDeleted : ℕ
  workstreamIds : List String
  compacted : Bool
  deriving DecidableEq

/-- `column IN (SELECT id FROM t WHERE p)`. -/
def isIn (r : DbRow) (c : Column) (t : Table) (p : DbRow → Bool) : Bool :=
  (db.table t).any fun x => p x && r.cell c ≠ none && r.cell c = x.cell .id

def activeRuns (proj : Uuid) (now : ℤ) : Except StoreError (List (String × String)) :=
  ((db.table managedRuns).flatMap fun mr =>
    ((db.table workstreams).filter fun w => w.cell .id ≠ none && w.cell .id = mr.cell workstreamId
        && is w projectId (.blob proj) && is mr state (.text "active")
        && match mr.cell leaseExpiresAt with
          | some (.int expires) => decide (expires > now)
          | _ => false).map fun w => (w, mr)).mapM fun (w, mr) => do
    return (← getText w name, ← getText mr agentKind)

/-- `SELECT DISTINCT path`. -/
def distinctPaths (rows : List DbRow) : Except StoreError (List String) :=
  (rows.mapM (getText · path)).map List.dedup

def workstreamIdsOf (rows : List DbRow) : Except StoreError (List String) :=
  rows.mapM fun w => do return hyphenated (← fromSlice (← getBlob w .id))

def collectProject (proj : Uuid) (label : String) (force : Bool) (now : ℤ) :
    Except StoreError PurgeSummary := do
  let active ← activeRuns db proj now
  if active ≠ [] ∧ force = false then
    let names := (active.map fun (workstream, agent) => "'" ++ workstream ++ "' (" ++ agent ++ ")").mergeSort
    .error (.managedRunActive active.length (", ".intercalate names.dedup))
  else
    let here (r : DbRow) : Bool := is r projectId (.blob proj)
    let away (r : DbRow) : Bool := isNot r projectId (.blob proj)
    let pagePaths ← distinctPaths ((db.table pages).filter here)
    let workstreamIds ← workstreamIdsOf ((db.table workstreams).filter here)
    return {
      label := label
      pagePaths := pagePaths
      pagesDeleted := count db pages here
      sessionsDeleted := count db sessions here
      observationsDeleted := count db observations here
      handoffsDeleted := count db handoffs here
      embeddingsDeleted := count db pageEmbeddings (isIn db · pageId pages here)
      collateralObservationsDeleted := count db observations fun o =>
        away o && isIn db o sessionId sessions here
      collateralHandoffsDenulled := count db handoffs fun h => away h
        && (isIn db h fromSessionId sessions here || isIn db h acceptedBySession sessions here)
      workstreamsDeleted := count db workstreams here
      managedRunsDeleted := count db managedRuns (isIn db · workstreamId workstreams here)
      workstreamIds := workstreamIds
      compacted := false }

/-- `id = … AND workspace_id = …`. -/
def isProject (ws proj : Uuid) (p : DbRow) : Bool :=
  is p .id (.blob proj) && is p workspaceId (.blob ws)

def purgeProject (ws proj : Uuid) (label : String) (author : Option Uuid)
    (force : Bool) (compaction : Compaction) (mode : PurgeMode) (now auditedAt : ℤ) :
    Except StoreError (PurgeSummary × Db) := do
  let summary ← collectProject db proj label force now
  match mode with
  | .preview => return (summary, db)
  | .commit =>
    let db := deleteQuerySignalsOfSessions db (is · projectId (.blob proj))
    let db := (execDelete db projects (isProject ws proj)).2
    let db ← tombstoneScope db ws proj now
    let db ← audit db "purge_project" ws proj author auditedAt
    return ({ summary with compacted := compaction = .reclaim }, db)

structure DeleteWorkspaceSummary where
  projectsDeleted : ℕ
  pagesDeleted : ℕ
  sessionsDeleted : ℕ
  observationsDeleted : ℕ
  handoffsDeleted : ℕ
  embeddingsDeleted : ℕ
  collateralObservationsDeleted : ℕ
  collateralHandoffsDenulled : ℕ
  workstreamsDeleted : ℕ
  managedRunsDeleted : ℕ
  workstreamIds : List String
  compacted : Bool
  deriving DecidableEq

def collectWorkspace (ws : Uuid) (force : Bool) :
    Except StoreError DeleteWorkspaceSummary := do
  let here (r : DbRow) : Bool := is r workspaceId (.blob ws)
  let away (r : DbRow) : Bool := isNot r workspaceId (.blob ws)
  if count db workspaces (is · .id (.blob ws)) = 0 then .error (.notFound "workspace")
  else
    let projectsDeleted := count db projects here
    if projectsDeleted > 0 ∧ force = false then .error (.workspaceNotEmpty projectsDeleted)
    else
      let workstreamIds ← workstreamIdsOf ((db.table workstreams).filter here)
      return {
        projectsDeleted := projectsDeleted
        pagesDeleted := count db pages here
        sessionsDeleted := count db sessions here
        observationsDeleted := count db observations here
        handoffsDeleted := count db handoffs here
        embeddingsDeleted := count db pageEmbeddings (isIn db · pageId pages here)
        collateralObservationsDeleted := count db observations fun o =>
          away o && isIn db o sessionId sessions here
        collateralHandoffsDenulled := count db handoffs fun h => away h
          && (isIn db h fromSessionId sessions here || isIn db h acceptedBySession sessions here)
        workstreamsDeleted := count db workstreams here
        managedRunsDeleted := count db managedRuns (isIn db · workstreamId workstreams here)
        workstreamIds := workstreamIds
        compacted := false }

/-- `zeroblob(16)`: a whole-workspace tombstone. -/
def wholeWorkspace : Uuid := List.replicate 16 0

def deleteWorkspace (ws : Uuid) (force : Bool) (compaction : Compaction)
    (mode : PurgeMode) (now : ℤ) : Except StoreError (DeleteWorkspaceSummary × Db) := do
  let summary ← collectWorkspace db ws force
  match mode with
  | .preview => return (summary, db)
  | .commit =>
    let db := deleteQuerySignalsOfSessions db (is · workspaceId (.blob ws))
    let (removed, db) := execDelete db workspaces (is · .id (.blob ws))
    if removed = 0 then .error (.notFound "workspace")
    else
      let db ← tombstoneScope db ws wholeWorkspace now
      return ({ summary with compacted := compaction = .reclaim }, db)

inductive Request
  | session (ws proj sid : Uuid) (author : Option Uuid) (owner : Option String)
  | project (ws proj : Uuid) (label : String) (author : Option Uuid) (force : Bool)
  | workspace (ws : Uuid) (force : Bool)

inductive Summary
  | session (s : PurgeSessionSummary)
  | project (s : PurgeSummary)
  | workspace (s : DeleteWorkspaceSummary)
  deriving DecidableEq

def Summary.uncompacted : Summary → Summary
  | .session s => .session { s with compacted := false }
  | .project s => .project { s with compacted := false }
  | .workspace s => .workspace { s with compacted := false }

def Request.transact (sessionIdOf : String → Option String) (db : Db) (compaction : Compaction)
    (mode : PurgeMode) (now auditedAt : ℤ) : Request → Except StoreError (Summary × Db)
  | .session ws proj sid author owner =>
    (purgeSessionWithOwner sessionIdOf db ws proj sid author compaction mode owner now
      auditedAt).map fun x => (.session x.1, x.2)
  | .project ws proj label author force =>
    (purgeProject db ws proj label author force compaction mode now auditedAt).map
      fun x => (.project x.1, x.2)
  | .workspace ws force =>
    (deleteWorkspace db ws force compaction mode now).map fun x => (.workspace x.1, x.2)

def Request.run (sessionIdOf : String → Option String) (db : Db) (compaction : Compaction)
    (mode : PurgeMode) (now auditedAt : ℤ) (req : Request) : Except StoreError Summary × Db :=
  match req.transact sessionIdOf db compaction mode now auditedAt with
  | .ok (summary, db') => (.ok summary, db')
  | .error e => (.error e, db)

end Purge
