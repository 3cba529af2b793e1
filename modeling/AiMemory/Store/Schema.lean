/-
The tables of the store (`ai-memory-store/migrations`) that sessions, their
observations and consolidation jobs, and page versions live in, with the
foreign-key actions and triggers that tie them together.

Ids are UUIDs in the source and natural numbers here; a fresh id is an argument
of the operation that draws it.  Timestamps are microseconds, and a clock
reading is an argument too.
-/
import Mathlib.Data.Int.Notation
import AiMemory.Lib.Table

open Table

namespace Store

abbrev WorkspaceId := ℕ

abbrev ProjectId := ℕ

abbrev SessionId := ℕ

abbrev ObservationId := ℕ

abbrev PageId := ℕ

abbrev ClaimId := ℕ

/-- A row of `projects`. -/
structure ProjectRow where
  id : ProjectId
  workspaceId : WorkspaceId
  deriving DecidableEq

/-- A row of `sessions`. -/
structure SessionRow where
  id : SessionId
  workspaceId : WorkspaceId
  projectId : ProjectId
  agentKind : String
  cwd : Option String
  startedAt : ℤ
  endedAt : Option ℤ
  summaryPageId : Option PageId
  endedObservationCount : ℕ
  actorUser : Option String
  deriving DecidableEq

inductive ObservationKind
  | sessionStart | userPrompt | preToolUse | postToolUse | preCompact | postCompaction
  | notification | stop | sessionEnd | other
  deriving DecidableEq

/-- Real work (`SUBSTANTIVE_OBSERVATION_KIND_SQL`): a prompt or a tool use. -/
def ObservationKind.substantive : ObservationKind → Bool
  | .userPrompt | .preToolUse | .postToolUse => true
  | _ => false

/-- A row of `observations`. -/
structure ObservationRow where
  id : ObservationId
  sessionId : SessionId
  workspaceId : WorkspaceId
  projectId : ProjectId
  kind : ObservationKind
  «extension» : Option String
  sourceEvent : Option String
  title : String
  body : String
  importance : ℕ
  createdAt : ℤ
  filePath : Option String
  deriving DecidableEq

inductive JobState
  | pending | running | completed | failed | superseded
  deriving DecidableEq

/-- A row of `session_consolidation_jobs`. -/
structure JobRow where
  sessionId : SessionId
  workspaceId : WorkspaceId
  projectId : ProjectId
  generation : ℕ
  state : JobState
  requestedAt : ℤ
  nextAttemptAt : ℤ
  startedAt : Option ℤ
  completedAt : Option ℤ
  attempts : ℕ
  claimId : Option ClaimId
  lastError : Option String
  deriving DecidableEq

/-- Primary key of `session_consolidation_jobs`. -/
def JobRow.key (j : JobRow) : SessionId × ℕ := (j.sessionId, j.generation)

/-- A row of `ingest_keys`. -/
structure IngestKeyRow where
  projectId : ProjectId
  key : String
  seenAt : ℤ
  completedAt : Option ℤ
  sessionId : Option SessionId
  agentKind : Option String
  observationKind : Option ObservationKind
  eventIdentity : Option String
  recoveryRetained : Bool
  deriving DecidableEq

/-- A row of `purged_sessions`, keyed by session id. -/
structure PurgedSessionRow where
  sessionId : SessionId
  workspaceId : WorkspaceId
  projectId : ProjectId
  purgedAt : ℤ
  deriving DecidableEq

/-- A row of `pages`: one version of a page. -/
structure PageRow where
  id : PageId
  workspaceId : WorkspaceId
  projectId : ProjectId
  path : String
  title : String
  tier : String
  body : String
  bodySha256 : String
  frontmatterJson : String
  isLatest : Bool
  supersedes : Option PageId
  pinned : Bool
  authorId : Option ℕ
  createdAt : ℤ
  updatedAt : ℤ
  supersededAt : Option ℤ
  expiresAt : Option ℤ
  validFrom : Option ℤ
  validTo : Option ℤ
  compactedAt : Option ℤ
  deriving DecidableEq

end Store

structure Store where
  projects : List Store.ProjectRow
  sessions : List Store.SessionRow
  observations : List Store.ObservationRow
  jobs : List Store.JobRow
  ingestKeys : List Store.IngestKeyRow
  purgedSessions : List Store.PurgedSessionRow
  pages : List Store.PageRow
  deriving DecidableEq

namespace Store

inductive StoreError
  | notFound
  | invalidState
  | forbidden
  | sessionPurged (id : SessionId)
  | sessionCollision
  | invalidOwner
  | pagePathCollides (requested existing : String)
  | managedRunActive
  | duplicate (message : String)
  | projectSessionsOpen (count : ℕ)
  | pagePathTaken (path : String)
  | projectNameTaken (name : String)
  | projectNameAmbiguous (name : String)
  | invalidProjectName (message : String)
  /-- A primary key, unique index, foreign key or trigger refused the row. -/
  | constraint
  deriving DecidableEq

def empty : Store := ⟨[], [], [], [], [], [], []⟩

variable (s : Store)

/-- `SELECT COUNT(*) FROM observations WHERE session_id = ?1`. -/
def observationCount (sid : SessionId) : ℕ :=
  s.observations.countP fun o => o.sessionId = sid

/-- The `BEFORE INSERT` trigger on `(workspace_id, project_id)`. -/
def paired (ws : WorkspaceId) (proj : ProjectId) : Bool :=
  s.projects.any fun p => p.id = proj && p.workspaceId = ws

/-- Deleting page versions: `pages.supersedes` and `sessions.summary_page_id`
are `ON DELETE SET NULL`. -/
def deletePages (p : PageRow → Bool) : Store :=
  let gone (id : PageId) : Bool := s.pages.any fun r => p r && r.id = id
  { s with
    pages := update (fun r => r.supersedes.any gone) (fun r => { r with supersedes := none })
      (delete p s.pages)
    sessions := update (fun r => r.summaryPageId.any gone)
      (fun r => { r with summaryPageId := none }) s.sessions }

def deleteSessions (p : SessionRow → Bool) : Store :=
  let gone (id : SessionId) : Bool := s.sessions.any fun r => p r && r.id = id
  { s with
    sessions := delete p s.sessions
    observations := delete (fun o => gone o.sessionId) s.observations
    jobs := delete (fun j => gone j.sessionId) s.jobs
    ingestKeys := delete (fun k => k.sessionId.any gone) s.ingestKeys }

def deleteProject (ws : WorkspaceId) (proj : ProjectId) : Store :=
  if s.paired ws proj then
    let s := deletePages s fun r => r.projectId = proj
    let s := deleteSessions s fun r => r.projectId = proj
    { s with
      projects := delete (fun p => p.id = proj && p.workspaceId = ws) s.projects
      observations := delete (fun o => o.projectId = proj) s.observations
      jobs := delete (fun j => j.projectId = proj) s.jobs
      ingestKeys := delete (fun k => k.projectId = proj) s.ingestKeys
      purgedSessions := delete (fun t => t.projectId = proj) s.purgedSessions }
  else s

end Store
