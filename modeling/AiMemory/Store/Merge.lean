/-
Moving what a project holds (`ai-memory-store/src/ops.rs`): merging one project
into another, moving a project to another workspace, and moving a session to
another project.

The database is the store with its index, the projects, and the tables that are
filed under a project beside them.  `index.store.projects` are the columns of
`registry.projects` that the pairing triggers read.  Every function is one
transaction of the source; an error, or a call without `commit`, is its rollback.
Tables no modelled function reads (audit, auto-improve, profile, feedback, query
signals) are left out, as are the reports of a session move.
-/
import AiMemory.Store.Identity
import AiMemory.Store.Messages

open Table Runs

namespace Projects

open Store Handoffs Messages

/-! ### Rows -/

abbrev WorkstreamId := ℕ

/-- A row of `workstreams`. -/
structure WorkstreamRow where
  id : WorkstreamId
  workspaceId : WorkspaceId
  projectId : ProjectId
  repoFingerprint : String
  worktreeFingerprint : String
  name : String
  cwd : String
  createdAt : ℤ
  selectedAt : ℤ
  updatedAt : ℤ
  deriving DecidableEq

def WorkstreamRow.coordinate (w : WorkstreamRow) :
    WorkspaceId × ProjectId × String × String × String :=
  (w.workspaceId, w.projectId, w.repoFingerprint, w.worktreeFingerprint, w.name)

inductive RunState
  | active | finished | expired
  deriving DecidableEq

/-- A row of `managed_runs`: the columns a merge asks about. -/
structure ManagedRunRow where
  workstreamId : WorkstreamId
  state : RunState
  leaseExpiresAt : ℤ

end Projects

structure Database where
  index : Store.Indexed
  registry : Projects.Registry
  handoffs : List Handoffs.HandoffRow
  messages : List Messages.MessageRow
  workstreams : List Projects.WorkstreamRow
  runs : List Projects.ManagedRunRow

namespace Database

open Store Projects Handoffs Messages

abbrev store (db : Database) : Store := db.index.store

def withStore (db : Database) (s : Store) : Database :=
  { db with index := { db.index with store := s } }

variable (pages : List PageRow)

/-- Path and scope of a version, for `idx_pages_latest_path`. -/
def latestPlaces : List (WorkspaceId × ProjectId × String) :=
  (pages.filter (·.isLatest)).map fun r => (r.workspaceId, r.projectId, r.path)

/-- The unique index an `UPDATE` of `pages` is checked against. -/
def checkedPages : Except StoreError (List PageRow) :=
  if (latestPlaces pages).Nodup then .ok pages else .error .constraint

/-- `UNIQUE (workspace_id, project_id, name)`. -/
def entityCoordinate (e : EntityRow) : WorkspaceId × ProjectId × String :=
  (e.workspaceId, e.projectId, e.name)

variable (entities : List EntityRow)

def checkedEntities : Except StoreError (List EntityRow) :=
  if KeyUnique entityCoordinate entities then .ok entities else .error .constraint

variable (streams : List WorkstreamRow)

def checkedWorkstreams : Except StoreError (List WorkstreamRow) :=
  if KeyUnique WorkstreamRow.coordinate streams then .ok streams else .error .constraint

def present (db : Database) (ws : WorkspaceId) (proj : ProjectId) : Bool :=
  db.registry.projects.any fun p => p.id = proj && p.workspaceId = ws

/-- `DELETE FROM projects`, with its `ON DELETE` actions. -/
def deleteProjectRow (db : Database) (ws : WorkspaceId) (proj : ProjectId) : Database :=
  if db.present ws proj then
    let gonePage (id : PageId) : Bool := db.store.pages.any fun r => r.projectId = proj && r.id = id
    let goneSession (id : SessionId) : Bool :=
      db.store.sessions.any fun r => r.projectId = proj && r.id = id
    let goneEntity (id : EntityId) : Bool :=
      db.index.entities.any fun e => e.projectId = proj && e.id = id
    let goneStream (id : WorkstreamId) : Bool :=
      db.workstreams.any fun w => w.projectId = proj && w.id = id
    let released (sid : Option SessionId) : Option SessionId := sid.filter fun id => !goneSession id
    { index :=
        { store := db.store.deleteProject ws proj
          entities := delete (fun e => e.projectId = proj) db.index.entities
          entityLinks := delete (fun l => goneEntity l.entityId || gonePage l.pageId)
            db.index.entityLinks
          links := update (fun l => l.toPageId.any gonePage) (fun l => { l with toPageId := none })
            (delete (fun l => gonePage l.fromPageId) db.index.links) }
      registry := deleteProjectRows db.registry ws proj
      handoffs := (delete (fun h => h.projectId = proj) db.handoffs).map fun h =>
        { h with
          fromSessionId := released h.fromSessionId
          acceptedBySession := released h.acceptedBySession }
      messages := (delete (fun m => m.fromProjectId = proj || m.toProjectId = proj)
          db.messages).map fun m =>
        { m with
          fromSessionId := released m.fromSessionId
          claimedBySession := released m.claimedBySession }
      workstreams := delete (fun w => w.projectId = proj) db.workstreams
      runs := delete (fun r => goneStream r.workstreamId) db.runs }
  else db

structure MergeProjectPage where
  path : String
  sourcePageId : PageId
  targetPageId : Option PageId
  mergedPage : Option IndexedPage

def latestOf (db : Database) (proj : ProjectId) : List PageRow :=
  db.store.pages.filter fun r => r.projectId = proj && r.isLatest

variable (C : IndexCodec)

def portableClash (targetPaths : List String) (page : MergeProjectPage) :
    Option String :=
  targetPaths.find? fun existing => existing ≠ page.path
    && C.portablePageKey existing = C.portablePageKey page.path

def planRefusal (db : Database) (source target : ProjectId) (page : MergeProjectPage) :
    Option StoreError :=
  let sourcePath := ((db.latestOf source).find? fun r => r.id = page.sourcePageId).map (·.path)
  let targetId := ((db.latestOf target).find? fun r => r.path = page.path).map (·.id)
  if sourcePath ≠ some page.path then
    some (.duplicate ("source page plan does not match '" ++ page.path ++ "'"))
  else if targetId ≠ page.targetPageId then
    some (.duplicate ("target page '" ++ page.path
      ++ "' changed while the project merge was being prepared"))
  else if page.targetPageId.isSome ≠ page.mergedPage.isSome then
    some (.duplicate ("invalid collision plan for '" ++ page.path ++ "'"))
  else if page.mergedPage.any fun merged => merged.path ≠ page.path then
    some (.duplicate ("merged page path does not match '" ++ page.path ++ "'"))
  else none

def mergeRefusal (db : Database) (ws : WorkspaceId) (source target : ProjectId)
    (pages : List MergeProjectPage) (now : ℤ) : Option StoreError :=
  let openSessions := db.store.sessions.countP fun r => r.projectId = source && r.endedAt.isNone
  let active := db.runs.any fun r => r.state = .active && decide (now < r.leaseExpiresAt)
    && db.workstreams.any fun w => w.id = r.workstreamId && w.projectId = source
  let expected := pages.map (·.sourcePageId)
  let actual := (db.latestOf source).map (·.id)
  let targetPaths := (db.latestOf target).map (·.path)
  if source = target then some (.duplicate "source and target project must be different")
  else if !db.present ws source || !db.present ws target then some .notFound
  else if openSessions ≠ 0 then some (.projectSessionsOpen openSessions)
  else if active then some .managedRunActive
  else if ¬ expected.Nodup then
    some (.duplicate "project merge page plan contains duplicate source versions")
  else if !(actual.all (· ∈ expected)) || !(expected.all (· ∈ actual)) then
    some (.duplicate "source pages changed while the project merge was being prepared")
  else (pages.findSome? fun page =>
      (portableClash C targetPaths page).map (.pagePathCollides page.path ·))
    <|> pages.findSome? (db.planRefusal source target)

/-! ### The statements of a merge -/

def retireHead (now : ℤ) (d : Indexed) (id : PageId) : Indexed :=
  { d with
    store := { d.store with
      pages := update (fun r => r.id = id && r.isLatest)
        (fun r => { r with
          isLatest := false
          validTo := some now }) d.store.pages }
    entityLinks := closeEntityLinks d.entityLinks id now }

/-- Colliding source heads are retired first, so that the full history can move. -/
def retireHeads (d : Indexed) (pages : List MergeProjectPage) (now : ℤ) : Indexed :=
  ((pages.filter (·.targetPageId.isSome)).map (·.sourcePageId)).foldl (retireHead now) d

/-- `UPDATE … SET project_id = target WHERE project_id = source`, for the tables
of the store. -/
def restampStore (s : Store) (source target : ProjectId) : Except StoreError Store := do
  let pages ← checkedPages
    (update (fun r => r.projectId = source) (fun r => { r with projectId := target }) s.pages)
  return { s with
    pages := pages
    sessions := update (fun r => r.projectId = source) (fun r => { r with projectId := target })
      s.sessions
    observations := update (fun o => o.projectId = source)
      (fun o => { o with projectId := target }) s.observations
    jobs := update (fun j => j.projectId = source) (fun j => { j with projectId := target }) s.jobs
    purgedSessions := update (fun t => t.projectId = source)
      (fun t => { t with projectId := target }) s.purgedSessions }

/-- A same-name entity of the source becomes the target's, with its links; the
scope trigger of `entity_page_links` sees every row that is inserted. -/
def mergeEntity (d : List EntityRow × List EntityLinkRow)
    (pair : EntityRow × EntityRow) : Except StoreError (List EntityRow × List EntityLinkRow) :=
  let moved := (d.2.filter fun l => l.entityId = pair.1.id).map
    fun l => { l with entityId := pair.2.id }
  if moved.any fun l => !pages.any fun r => r.id = l.pageId
      && r.workspaceId = pair.2.workspaceId && r.projectId = pair.2.projectId then
    .error .constraint
  else .ok (delete (fun e => e.id = pair.1.id) d.1,
    delete (fun l => l.entityId = pair.1.id)
      (d.2 ++ moved.filter fun l => !d.2.any fun k => k.entityId = l.entityId
        && k.pageId = l.pageId))

def duplicateEntities (source target : ProjectId) :
    List (EntityRow × EntityRow) :=
  (entities.filter fun e => e.projectId = source).filterMap fun e =>
    (entities.find? fun t => t.workspaceId = e.workspaceId && t.projectId = target
      && t.name = e.name).map fun t => (e, t)

def mergeEntities (d : Indexed) (source target : ProjectId) : Except StoreError Indexed := do
  let (entities, entityLinks) ← (duplicateEntities d.entities source target).foldlM
    (mergeEntity d.store.pages) (d.entities, d.entityLinks)
  let entities ← checkedEntities (update (fun e => e.projectId = source)
    (fun e => { e with projectId := target }) entities)
  return { d with
    entities := entities
    entityLinks := entityLinks }

/-- `lower(hex(id))`. -/
def idHex (id : ℕ) : String := String.ofList (Nat.toDigits 16 id)

def streamCollides (target : ProjectId) (w : WorkstreamRow) : Bool :=
  streams.any fun d => d.projectId = target && d.repoFingerprint = w.repoFingerprint
    && d.worktreeFingerprint = w.worktreeFingerprint && d.name = w.name

def disambiguated (source : ProjectId) (w : WorkstreamRow) : String :=
  w.name ++ "-from-" ++ idHex source ++ "-" ++ idHex w.id

def mergeWorkstreams (source target : ProjectId) :
    Except StoreError (List WorkstreamRow) := do
  let renamed ← checkedWorkstreams (update
    (fun w => w.projectId = source && streamCollides streams target w)
    (fun w => { w with name := disambiguated source w }) streams)
  checkedWorkstreams (update (fun w => w.projectId = source)
    (fun w => { w with projectId := target }) renamed)

/-- `ON CONFLICT(project_id, key) DO UPDATE`: the later sighting and the later
completion. -/
def coalesceKey (old new : IngestKeyRow) : IngestKeyRow :=
  { old with
    seenAt := max old.seenAt new.seenAt
    completedAt := match old.completedAt, new.completedAt with
      | none, c => c
      | some a, none => some a
      | some a, some b => some (max a b) }

/-- The columns of a source key that the `INSERT` names; the others take their
defaults. -/
def carriedKey (target : ProjectId) (k : IngestKeyRow) : IngestKeyRow where
  projectId := target
  key := k.key
  seenAt := k.seenAt
  completedAt := k.completedAt
  sessionId := none
  agentKind := none
  observationKind := none
  eventIdentity := none
  recoveryRetained := false

variable (keys : List IngestKeyRow)

def upsertKey (new : IngestKeyRow) : List IngestKeyRow :=
  if keys.any fun k => (k.projectId, k.key) = (new.projectId, new.key) then
    update (fun k => (k.projectId, k.key) = (new.projectId, new.key))
      (fun k => coalesceKey k new) keys
  else keys ++ [new]

def mergeIngestKeys (source target : ProjectId) : List IngestKeyRow :=
  delete (fun k => k.projectId = source)
    (((keys.filter fun k => k.projectId = source).map (carriedKey target)).foldl upsertKey keys)

def mergeMessages (messages : List MessageRow) (source target : ProjectId) : List MessageRow :=
  update (fun m => m.toProjectId = source) (fun m => { m with toProjectId := target })
    (update (fun m => m.fromProjectId = source) (fun m => { m with fromProjectId := target })
      messages)

structure MergeDraws where
  version : PageId → PageId
  entityNow : PageId → ℤ
  tie : PageId → ℕ
  entity : PageId → String → EntityId

variable (n : Directory)

/-- The combined version of one collision; it is as old as the oldest version of
its path. -/
def writeMerged (ws : WorkspaceId) (target : ProjectId) (now : ℤ)
    (draws : MergeDraws) (d : Indexed) (page : MergeProjectPage) : Except StoreError Indexed :=
  match page.mergedPage with
  | none => .ok d
  | some merged =>
    if merged.workspaceId ≠ ws ∨ merged.projectId ≠ target then
      .error (.duplicate ("merged page '" ++ page.path ++ "' targets the wrong scope"))
    else
      match ((d.store.pages.filter fun r => r.projectId = target && r.path = page.path).map
          (·.createdAt)).min? with
      | none => .error .constraint
      | some createdAt => do
        let (mergedId, d) ← upsertPageIndexed n C d merged (draws.version page.sourcePageId) now
          (draws.entityNow page.sourcePageId) (draws.tie page.sourcePageId)
          (draws.entity page.sourcePageId)
        return { d with
          store := { d.store with
            pages := update (fun r => r.id = mergedId) (fun r => { r with createdAt := createdAt })
              d.store.pages } }

structure MergeProjectSummary where
  pageVersions : ℕ
  sessions : ℕ
  observations : ℕ
  handoffs : ℕ
  workstreams : ℕ
  pageConflicts : ℕ

/-- The statements of a merge, in the order of the source; `n` are the names
links are resolved by. -/
def mergeStatements (db : Database) (ws : WorkspaceId)
    (source target : ProjectId) (pages : List MergeProjectPage) (now : ℤ) (draws : MergeDraws) :
    Except StoreError Database := do
  let retired := retireHeads db.index pages now
  let store ← restampStore retired.store source target
  let index ← mergeEntities { retired with store := store } source target
  let workstreams ← mergeWorkstreams db.workstreams source target
  let index := { index with
    store := { index.store with
      ingestKeys := mergeIngestKeys index.store.ingestKeys source target } }
  let index ← pages.foldlM (writeMerged C n ws target now draws) index
  let db : Database :=
    { index := index
      registry := mergeGrants (mergePolicy db.registry source target) source target
      handoffs := update (fun h => h.projectId = source) (fun h => { h with projectId := target })
        db.handoffs
      messages := mergeMessages db.messages source target
      workstreams := workstreams
      runs := db.runs }
  if db.present ws source then return db.deleteProjectRow ws source else .error .notFound

def mergeProject (db : Database) (ws : WorkspaceId)
    (source target : ProjectId) (pages : List MergeProjectPage) (commit : Bool) (now : ℤ)
    (draws : MergeDraws) : Except StoreError (MergeProjectSummary × Database) :=
  match mergeRefusal C db ws source target pages now with
  | some error => .error error
  | none => do
    let merged ← mergeStatements C n db ws source target pages now draws
    return ({ pageVersions := db.store.pages.countP fun r => r.projectId = source
              sessions := db.store.sessions.countP fun r => r.projectId = source
              observations := db.store.observations.countP fun o => o.projectId = source
              handoffs := db.handoffs.countP fun h => h.projectId = source
              workstreams := db.workstreams.countP fun w => w.projectId = source
              pageConflicts := pages.countP (·.mergedPage.isSome) },
      if commit then merged else db)

end Database
