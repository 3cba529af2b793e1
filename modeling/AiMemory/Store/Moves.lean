/-
Moves between projects and workspaces (`ai-memory-store/src/ops.rs`), and the
runs of the database.
-/
import AiMemory.Store.Merge

open Table Runs

namespace Database

open Store Projects

variable (db : Database)

def withRegistry (reg : Registry) : Database :=
  { db with
    index := { db.index with store := { db.store with projects := reg.projects.map Project.row } }
    registry := reg }

variable (proj : ProjectId)

def restampWorkspace (source target : WorkspaceId) : Database :=
  let here (ws : WorkspaceId) (p : ProjectId) : Bool := p = proj && ws = source
  let store : Store := { db.store with
    pages := update (fun r => r.projectId = proj) (fun r => { r with workspaceId := target })
      db.store.pages
    sessions := update (fun r => r.projectId = proj) (fun r => { r with workspaceId := target })
      db.store.sessions
    observations := update (fun o => o.projectId = proj)
      (fun o => { o with workspaceId := target }) db.store.observations
    jobs := update (fun j => here j.workspaceId j.projectId)
      (fun j => { j with workspaceId := target }) db.store.jobs
    purgedSessions := update (fun t => here t.workspaceId t.projectId)
      (fun t => { t with workspaceId := target }) db.store.purgedSessions }
  { db with
    index := { db.index with
      store := store
      entities := update (fun e => here e.workspaceId e.projectId)
        (fun e => { e with workspaceId := target }) db.index.entities }
    handoffs := update (fun h => h.projectId = proj) (fun h => { h with workspaceId := target })
      db.handoffs
    messages := update (fun m => here m.fromWorkspaceId m.fromProjectId)
      (fun m => { m with fromWorkspaceId := target })
      (update (fun m => here m.toWorkspaceId m.toProjectId)
        (fun m => { m with toWorkspaceId := target }) db.messages)
    workstreams := update (fun w => here w.workspaceId w.projectId)
      (fun w => { w with workspaceId := target }) db.workstreams }

def moveProjectWorkspace (source target : WorkspaceId) :
    Except StoreError Database := do
  let moved := db.restampWorkspace proj source target
  let _ ← checkedPages moved.store.pages
  let _ ← checkedEntities moved.index.entities
  let _ ← checkedWorkstreams moved.workstreams
  let reg ← moveProjectRows db.registry proj source target
  return moved.withRegistry reg

/-! ### Moving a session to another project -/

inductive PagesMode
  | move | regenerate
  deriving DecidableEq

structure MoveSessionSummary where
  sessionMoved : Bool
  observations : ℕ
  handoffs : ℕ
  consolidationJobs : ℕ
  pageVersionsMoved : ℕ
  pagesRegenerated : ℕ
  pagePath : Option String
  pageVersionsInTarget : ℕ
  fromWorkspace : WorkspaceId
  fromProject : ProjectId
  toWorkspace : WorkspaceId
  toProject : ProjectId
  cwd : Option String

/-- `UPDATE OR IGNORE ingest_keys`, row by row: a key the project already holds
stays where it is. -/
def rekey (sid : SessionId) (proj : ProjectId) :
    List IngestKeyRow → List IngestKeyRow → List IngestKeyRow
  | done, [] => done
  | done, k :: rest =>
    if k.sessionId = some sid && k.projectId ≠ proj
        && !(done ++ rest).any (fun x => x.projectId = proj && x.key = k.key) then
      rekey sid proj (done ++ [{ k with projectId := proj }]) rest
    else rekey sid proj (done ++ [k]) rest

def moveIngestKeys (keys : List IngestKeyRow) (sid : SessionId) (proj : ProjectId) :
    List IngestKeyRow :=
  delete (fun k => k.sessionId = some sid && k.projectId ≠ proj) (rekey sid proj [] keys)

/-- The versions of the session's page that a move handles: those of the scope
it leaves, or, when it stays, those of every other scope. -/
def handles (r : SessionRow) (ws : WorkspaceId) (proj : ProjectId) (p : PageRow) : Bool :=
  p.path = sessionPagePath r.id
    && if r.workspaceId = ws ∧ r.projectId = proj then !(p.workspaceId = ws && p.projectId = proj)
      else p.workspaceId = r.workspaceId && p.projectId = r.projectId

/-- The page moves with the session: refused when the target has a latest page
at its path, or when more than one of the versions is a latest one. -/
def movePages (pages : List PageRow) (r : SessionRow) (ws : WorkspaceId) (proj : ProjectId) :
    Except StoreError (List PageRow) :=
  if pages.any (fun p => atPath ws proj (sessionPagePath r.id) p && p.isLatest)
      || decide (1 < pages.countP fun p => handles r ws proj p && p.isLatest) then
    .error (.pagePathTaken (sessionPagePath r.id))
  else checkedPages (update (handles r ws proj)
    (fun p => { p with
      workspaceId := ws
      projectId := proj }) pages)

/-- The page stays, and is retired: the next consolidation writes a fresh one. -/
def regeneratePages (d : Indexed) (r : SessionRow) (ws : WorkspaceId) (proj : ProjectId)
    (now : ℤ) : Indexed :=
  let live (p : PageRow) : Bool := handles r ws proj p && p.isLatest
  let handled (id : PageId) : Bool := d.store.pages.any fun p => handles r ws proj p && p.id = id
  { d with
    entityLinks := update
      (fun l => l.supersededAt.isNone && d.store.pages.any fun p => live p && p.id = l.pageId)
      (fun l => { l with supersededAt := some now }) d.entityLinks
    store := { d.store with
      pages := update live
        (fun p => { p with
          isLatest := false
          validTo := some now }) d.store.pages
      sessions := update (fun x => x.id = r.id && x.summaryPageId.any handled)
        (fun x => { x with summaryPageId := none }) d.store.sessions } }

def moveSessionPages (d : Indexed) (r : SessionRow) (ws : WorkspaceId) (proj : ProjectId)
    (mode : PagesMode) (now : ℤ) : Except StoreError Indexed :=
  if !d.store.pages.any (handles r ws proj) then .ok d
  else match mode with
    | .move => do
      let pages ← movePages d.store.pages r ws proj
      return { d with store := { d.store with pages := pages } }
    | .regenerate => .ok (regeneratePages d r ws proj now)

def moveSessionRows (r : SessionRow) (ws : WorkspaceId) (proj : ProjectId) :
    Database :=
  let away (w : WorkspaceId) (p : ProjectId) : Bool := !(w = ws && p = proj)
  { db with
    index := { db.index with
      store := { db.store with
        sessions := update (fun x => x.id = r.id)
          (fun x => { x with
            workspaceId := ws
            projectId := proj }) db.store.sessions
        observations := update (fun o => o.sessionId = r.id && away o.workspaceId o.projectId)
          (fun o => { o with
            workspaceId := ws
            projectId := proj }) db.store.observations
        jobs := update (fun j => j.sessionId = r.id && away j.workspaceId j.projectId)
          (fun j => { j with
            workspaceId := ws
            projectId := proj }) db.store.jobs
        ingestKeys := moveIngestKeys db.store.ingestKeys r.id proj } }
    handoffs := update (fun h => h.fromSessionId = some r.id && away h.workspaceId h.projectId)
      (fun h => { h with
        workspaceId := ws
        projectId := proj }) db.handoffs }

/-- Re-stamp one session and every row that hangs off it.  A move to the scope
the session is in gathers the rows that lie elsewhere. -/
def moveSession (sid : SessionId) (ws : WorkspaceId) (proj : ProjectId)
    (mode : PagesMode) (commit : Bool) (now : ℤ) :
    Except StoreError (MoveSessionSummary × Database) :=
  match db.store.findSession sid with
  | none => .error .notFound
  | some r =>
    if !db.present ws proj then .error .notFound
    else do
      let away (w : WorkspaceId) (p : ProjectId) : Bool := !(w = ws && p = proj)
      let handled := db.store.pages.any (handles r ws proj)
      let moved := moveSessionRows db r ws proj
      let index ← moveSessionPages moved.index r ws proj mode now
      let done := { moved with index := index }
      return ({ sessionMoved := away r.workspaceId r.projectId
                observations := db.store.observations.countP fun o => o.sessionId = sid
                  && away o.workspaceId o.projectId
                handoffs := db.handoffs.countP fun h => h.fromSessionId = some sid
                  && away h.workspaceId h.projectId
                consolidationJobs := db.store.jobs.countP fun j => j.sessionId = sid
                  && away j.workspaceId j.projectId
                pageVersionsMoved :=
                  if mode = .move then db.store.pages.countP (handles r ws proj) else 0
                pagesRegenerated :=
                  if mode = .regenerate then
                    db.store.pages.countP fun p => handles r ws proj p && p.isLatest
                  else 0
                pagePath := if handled then some (sessionPagePath sid) else none
                pageVersionsInTarget :=
                  done.store.pages.countP (atPath ws proj (sessionPagePath sid))
                fromWorkspace := r.workspaceId
                fromProject := r.projectId
                toWorkspace := ws
                toProject := proj
                cwd := r.cwd },
        if commit then done else db)

def completeObservationIngestIfClaimed (s : Store) (proj : ProjectId) (key : String) (now : ℤ) :
    Bool × Store :=
  let here (k : IngestKeyRow) : Bool := k.projectId = proj && k.key = key
  (s.ingestKeys.any here,
    { s with
      ingestKeys := update here (fun k => { k with completedAt := some (k.completedAt.getD now) })
        s.ingestKeys })

def completeObservationIngest (s : Store) (proj : ProjectId) (key : String) (now : ℤ) :
    Except StoreError Store :=
  let (claimed, s) := completeObservationIngestIfClaimed s proj key now
  if claimed then .ok s else .error .invalidState

structure Env extends Store.Env where
  codec : IndexCodec
  naming : NameCodec

inductive DbOp
  /-- A page write; `n` are the names links are resolved by. -/
  | pages (n : Directory) (op : IndexOp)
  | registry (op : RegistryOp)
  | endSession (sid : SessionId) (summaryPageId : Option PageId) (now : ℤ)
  | insertObservationKeyed (obs : NewObservation) (key : String) (id : ObservationId) (now : ℤ)
  | admitEvent (session : NewSession) (obs : NewObservation) (filter : OwnerFilter)
      (key movedFrom : Option String) (id : ObservationId) (now : ℤ)
  | completeIngest (proj : ProjectId) (key : String) (now : ℤ)
  | mergeProject (n : Directory) (ws : WorkspaceId) (source target : ProjectId)
      (pages : List MergeProjectPage) (commit : Bool) (now : ℤ) (draws : MergeDraws)
  | moveProject (proj : ProjectId) (source target : WorkspaceId)
  | moveSession (sid : SessionId) (ws : WorkspaceId) (proj : ProjectId) (mode : PagesMode)
      (commit : Bool) (now : ℤ)

def committed : Except StoreError Database → Database
  | .ok db' => db'
  | .error _ => db

def onStore (r : Except StoreError Store) : Database :=
  db.committed (r.map db.withStore)

/-- One operation on the database; a failed one changes nothing. -/
def dbStep (E : Env) (db : Database) : DbOp → Database
  | .pages n op => { db with index := indexStep n E.codec db.index op }
  | .registry op => db.withRegistry (registryStep E.naming db.registry op)
  | .endSession sid page now => db.onStore (db.store.endSession sid page now)
  | .insertObservationKeyed obs key id now =>
    db.onStore ((Store.insertObservationKeyed E.eventIdentity db.store obs key id now).map (·.2))
  | .admitEvent session obs filter key movedFrom id now =>
    db.onStore ((admitHookSessionEvent E.validOwner E.eventIdentity db.store session obs filter key
      movedFrom id now).map (·.2))
  | .completeIngest proj key now => db.onStore (completeObservationIngest db.store proj key now)
  | .mergeProject n ws source target pages commit now draws =>
    db.committed ((Database.mergeProject E.codec n db ws source target pages commit now draws).map
      (·.2))
  | .moveProject proj source target => db.committed (db.moveProjectWorkspace proj source target)
  | .moveSession sid ws proj mode commit now =>
    db.committed ((db.moveSession sid ws proj mode commit now).map (·.2))

def empty : Database := ⟨⟨Store.empty, [], [], []⟩, Registry.empty, [], [], [], []⟩

/-- ASCII names, ASCII case folding of paths, and the event's text as its own
digest. -/
def sampleEnv : Env where
  validOwner _ := true
  eventIdentity obs agent := obs.title ++ "/" ++ obs.body ++ "/" ++ agent.getD ""
  names _ _ := false
  codec :=
    { sha256 := id
      conform := fun _ fm => fm
      sameFrontmatter := fun a b => a = b
      stamped := fun fm _ => fm
      compacted := fun _ => false
      portablePageKey := fun path => String.ofList (path.toList.map Char.toLower)
      lowercase := fun s => String.ofList (s.toList.map Char.toLower) }
  naming := asciiNaming

def noNames : Directory where
  workspaces := []
  projects := []
  workspaceIds := List.nodup_nil
  workspaceNames := List.nodup_nil
  projectIds := List.nodup_nil
  projectNames := List.nodup_nil
  homed := fun _ hp => absurd hp List.not_mem_nil

def sampleDraws : MergeDraws := ⟨fun id => id + 100, fun _ => 0, fun _ => 0, fun _ _ => 0⟩

def plainPage (path body : String) : IndexedPage where
  workspaceId := 0
  projectId := proj
  path := path
  title := ""
  tier := ""
  body := body
  frontmatterJson := ""
  pinned := false
  authorId := none
  expiresAt := none
  entities := []
  links := []

end Database
