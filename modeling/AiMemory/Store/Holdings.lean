/-
The tables beside the database that a move re-stamps too
(`ai-memory-store/src/ops.rs`, `migrations/`): auto-improve runs and their
proposals, the scheduler, profiles, feedback, query signals, the audit log and
the tombstones of purged scopes.

What a move does to the tables of `Database` is the function of that name there.
Of the rows only the columns are kept that a move reads or writes, or that a key names.

* `moveProjectWorkspace`, `moveSession` — the two moves.
-/
import AiMemory.Store.MergeSteps

open Table Runs

structure Stamped (α : Type) where
  workspaceId : Store.WorkspaceId
  projectId : Store.ProjectId
  row : α

namespace Holdings

open Store Projects

/-! ### Rows -/

inductive ProposalStatus
  | pending | approved | rejected | conflict | failed
  deriving DecidableEq

/-- A row of `auto_improve_runs`. -/
structure AutoImproveRun where
  id : ℕ
  sessionId : Option SessionId

/-- A row of `auto_improve_proposals`. -/
structure AutoImproveProposal where
  id : ℕ
  status : ProposalStatus
  targetPath : String

/-- A row of `auto_improve_rejections`. -/
structure AutoImproveRejection where
  id : ℕ

/-- A row of `auto_improve_scheduler_state`; its key is its scope. -/
structure SchedulerState where
  watermarkEndedAt : ℤ

/-- A row of `auto_improve_scheduler_claims`, keyed by session. -/
structure SchedulerClaim where
  sessionId : SessionId
  claimedAt : ℤ

/-- A row of `page_feedback`. -/
structure PageFeedback where
  id : ℕ
  pageId : PageId

inductive CandidateSource
  | prompt | page | stack
  deriving DecidableEq

/-- A row of `profile_candidates`. -/
structure ProfileCandidate where
  id : ℕ
  sourceKind : CandidateSource
  sourceRef : String
  topicKey : String

/-- A row of `profile_entry_ledger`, keyed by scope and path. -/
structure ProfileEntry where
  path : String
  writtenAt : ℤ

/-- A row of `profile_harvest_marks`; its key is its scope. -/
structure HarvestMark where
  observationsUntil : ℤ
  pagesUntil : ℤ

/-- A row of `query_page_signals`, keyed by scope, query and page. -/
structure QuerySignal where
  queryHash : String
  pageId : PageId

/-- A row of `purged_scopes`; its key is its scope. -/
structure PurgedScope where
  purgedAt : ℤ

/-- A row of `audit_log`. -/
structure AuditRow where
  at' : ℤ
  op : String
  workspaceId : Option WorkspaceId
  projectId : Option ProjectId
  pageId : Option PageId
  authorId : Option UserId

end Holdings

/-- The tables with a scope that `Database` leaves out. -/
structure SideTables where
  autoImproveRuns : List (Stamped Holdings.AutoImproveRun)
  autoImproveProposals : List (Stamped Holdings.AutoImproveProposal)
  autoImproveRejections : List (Stamped Holdings.AutoImproveRejection)
  schedulerState : List (Stamped Holdings.SchedulerState)
  schedulerClaims : List (Stamped Holdings.SchedulerClaim)
  pageFeedback : List (Stamped Holdings.PageFeedback)
  profileCandidates : List (Stamped Holdings.ProfileCandidate)
  profileEntryLedger : List (Stamped Holdings.ProfileEntry)
  profileHarvestMarks : List (Stamped Holdings.HarvestMark)
  queryPageSignals : List (Stamped Holdings.QuerySignal)
  purgedScopes : List (Stamped Holdings.PurgedScope)

structure Holdings where
  core : Database
  side : SideTables
  auditLog : List Holdings.AuditRow

namespace Holdings

open Store Projects

inductive TableName
  | projects | pages | sessions | observations | handoffs | projectGrants | auditLog
  | autoImproveRuns | autoImproveProposals | autoImproveRejections | schedulerState
  | schedulerClaims | consolidationJobs | workstreams | entities | pageFeedback | purgedSessions
  | profileCandidates | profileEntryLedger | profileHarvestMarks | queryPageSignals
  | messagesTo | messagesFrom | purgedScopes
  deriving DecidableEq

def Stamped.scopes {α : Type} (rows : List (Stamped α)) : List (WorkspaceId × ProjectId) :=
  rows.map fun r => (r.workspaceId, r.projectId)

def census (h : Holdings) : TableName → List (WorkspaceId × ProjectId)
  | .projects => h.core.registry.projects.map fun p => (p.workspaceId, p.id)
  | .pages => h.core.store.pages.map fun r => (r.workspaceId, r.projectId)
  | .sessions => h.core.store.sessions.map fun r => (r.workspaceId, r.projectId)
  | .observations => h.core.store.observations.map fun o => (o.workspaceId, o.projectId)
  | .handoffs => h.core.handoffs.map fun x => (x.workspaceId, x.projectId)
  | .projectGrants => h.core.registry.grants.map fun g => (g.workspaceId, g.projectId)
  | .auditLog => h.auditLog.filterMap fun a => a.workspaceId.bind fun ws => a.projectId.map (ws, ·)
  | .autoImproveRuns => Stamped.scopes h.side.autoImproveRuns
  | .autoImproveProposals => Stamped.scopes h.side.autoImproveProposals
  | .autoImproveRejections => Stamped.scopes h.side.autoImproveRejections
  | .schedulerState => Stamped.scopes h.side.schedulerState
  | .schedulerClaims => Stamped.scopes h.side.schedulerClaims
  | .consolidationJobs => h.core.store.jobs.map fun j => (j.workspaceId, j.projectId)
  | .workstreams => h.core.workstreams.map fun w => (w.workspaceId, w.projectId)
  | .entities => h.core.index.entities.map fun e => (e.workspaceId, e.projectId)
  | .pageFeedback => Stamped.scopes h.side.pageFeedback
  | .purgedSessions => h.core.store.purgedSessions.map fun t => (t.workspaceId, t.projectId)
  | .profileCandidates => Stamped.scopes h.side.profileCandidates
  | .profileEntryLedger => Stamped.scopes h.side.profileEntryLedger
  | .profileHarvestMarks => Stamped.scopes h.side.profileHarvestMarks
  | .queryPageSignals => Stamped.scopes h.side.queryPageSignals
  | .messagesTo => h.core.messages.map fun m => (m.toWorkspaceId, m.toProjectId)
  | .messagesFrom => h.core.messages.map fun m => (m.fromWorkspaceId, m.fromProjectId)
  | .purgedScopes => Stamped.scopes h.side.purgedScopes

/-- `UPDATE … SET workspace_id = target WHERE project_id = proj AND workspace_id =
source`. -/
def restamped {α : Type} (proj : ProjectId) (source target : WorkspaceId)
    (rows : List (Stamped α)) : List (Stamped α) :=
  update (fun r => r.projectId = proj && r.workspaceId = source)
    (fun r => { r with workspaceId := target }) rows

/-- The unique key an `UPDATE` is checked against. -/
def checkedKey {α κ : Type} [DecidableEq κ] (key : α → κ) (rows : List (Stamped α)) :
    Except StoreError (List (Stamped α)) :=
  if KeyUnique (fun r => (r.workspaceId, r.projectId, key r.row)) rows then .ok rows
  else .error .constraint

/-- `idx_auto_improve_one_pending_target`. -/
def checkedProposals (rows : List (Stamped AutoImproveProposal)) :
    Except StoreError (List (Stamped AutoImproveProposal)) := do
  let _ ← checkedKey AutoImproveProposal.targetPath (rows.filter fun r => r.row.status = .pending)
  return rows

/-- `UNIQUE (workspace_id, project_id, source_kind, source_ref, topic_key)`. -/
def ProfileCandidate.key (c : ProfileCandidate) : CandidateSource × String × String :=
  (c.sourceKind, c.sourceRef, c.topicKey)

/-- The statements of a project move on these tables; the tombstones of purged
scopes stay as they are. -/
def SideTables.moveProject (t : SideTables) (proj : ProjectId) (source target : WorkspaceId) :
    Except StoreError SideTables := do
  let proposals ← checkedProposals (restamped proj source target t.autoImproveProposals)
  let state ← checkedKey (fun _ => ()) (restamped proj source target t.schedulerState)
  let candidates ← checkedKey ProfileCandidate.key (restamped proj source target t.profileCandidates)
  let ledger ← checkedKey ProfileEntry.path (restamped proj source target t.profileEntryLedger)
  let marks ← checkedKey (fun _ => ()) (restamped proj source target t.profileHarvestMarks)
  let signals ← checkedKey (fun q : QuerySignal => (q.queryHash, q.pageId))
    (restamped proj source target t.queryPageSignals)
  return { t with
    autoImproveRuns := restamped proj source target t.autoImproveRuns
    autoImproveProposals := proposals
    autoImproveRejections := restamped proj source target t.autoImproveRejections
    schedulerState := state
    schedulerClaims := restamped proj source target t.schedulerClaims
    pageFeedback := restamped proj source target t.pageFeedback
    profileCandidates := candidates
    profileEntryLedger := ledger
    profileHarvestMarks := marks
    queryPageSignals := signals }

/-- The audit rows of a project that were filed under `source`. -/
def restampAudit (proj : ProjectId) (source target : WorkspaceId) (rows : List AuditRow) :
    List AuditRow :=
  update (fun a => a.projectId = some proj && a.workspaceId = some source)
    (fun a => { a with workspaceId := some target }) rows

def moveProjectWorkspace (h : Holdings) (proj : ProjectId) (source target : WorkspaceId) :
    Except StoreError Holdings := do
  let side ← SideTables.moveProject h.side proj source target
  let core ← h.core.moveProjectWorkspace proj source target
  return { core := core
           side := side
           auditLog := restampAudit proj source target h.auditLog }

def gathered {α : Type} (mine : α → Bool) (ws : WorkspaceId) (proj : ProjectId)
    (rows : List (Stamped α)) : List (Stamped α) :=
  update (fun r => mine r.row && !(r.workspaceId = ws && r.projectId = proj))
    (fun r => { r with
      workspaceId := ws
      projectId := proj }) rows

variable (sid : SessionId)

def sessionRef : String := "session:" ++ toString sid

def straysFrom (ws : WorkspaceId) (proj : ProjectId)
    (c : Stamped ProfileCandidate) : Bool :=
  c.row.sourceKind = .prompt && c.row.sourceRef = sessionRef sid
    && !(c.workspaceId = ws && c.projectId = proj)

/-- The session's evidence follows it; what the target already has is dropped. -/
def moveCandidates (ws : WorkspaceId) (proj : ProjectId)
    (rows : List (Stamped ProfileCandidate)) : List (Stamped ProfileCandidate) :=
  delete (straysFrom sid ws proj)
    (updateOrIgnore (fun c => (c.workspaceId, c.projectId, c.row.key)) (straysFrom sid ws proj)
      (fun c => { c with
        workspaceId := ws
        projectId := proj }) [] rows)

def SideTables.moveSession (t : SideTables) (sid : SessionId) (ws : WorkspaceId)
    (proj : ProjectId) : SideTables :=
  { t with
    autoImproveRuns := gathered (fun r => r.sessionId = some sid) ws proj t.autoImproveRuns
    schedulerClaims := gathered (fun c => c.sessionId = sid) ws proj t.schedulerClaims
    profileCandidates := moveCandidates sid ws proj t.profileCandidates }

structure MoveReport extends Database.MoveSessionSummary where
  autoImproveRuns : ℕ
  autoImproveClaims : ℕ

/-- Re-stamp one session and every row that hangs off it, and say so in the audit
log; `now` is when its page is retired, `at'` when the log is written. -/
def moveSession (h : Holdings) (sid : SessionId) (ws : WorkspaceId) (proj : ProjectId)
    (mode : Database.PagesMode) (authorId : Option UserId) (commit : Bool) (now at' : ℤ) :
    Except StoreError (MoveReport × Holdings) := do
  let (summary, core) ← h.core.moveSession sid ws proj mode true now
  let away {α : Type} (mine : α → Bool) (r : Stamped α) : Bool :=
    mine r.row && !(r.workspaceId = ws && r.projectId = proj)
  return ({ summary with
            autoImproveRuns := h.side.autoImproveRuns.countP (away fun r => r.sessionId = some sid)
            autoImproveClaims := h.side.schedulerClaims.countP (away fun c => c.sessionId = sid) },
    if commit then
      { core := core
        side := SideTables.moveSession h.side sid ws proj
        auditLog := h.auditLog
          ++ [⟨at', "move_session", some ws, some proj, none, authorId⟩] }
    else h)

def committed (h : Holdings) : Except StoreError Holdings → Holdings
  | .ok h' => h'
  | .error _ => h

end Holdings
