/-
Proposals of the auto-improvement loop (`ai-memory-store/src/auto_improve.rs`).

A review run stages page edits as pending proposals, with a snapshot of the page each of
them targets; an operator approves, rejects or fails a proposal.  Every function is one
transaction of the source; an error is its rollback.

What is written and never read back here is left out: the rejection records, and the
columns of a run and a proposal that only reports show.
-/
import AiMemory.Store.PageHistory

open Table Runs

namespace AutoImprove

open Store

/-! ### Tables -/

abbrev ProposalId := ℕ

abbrev RunId := ℕ

inductive Status
  | pending | approved | rejected | conflict | failed
  deriving DecidableEq

inductive Operation
  | create | update
  deriving DecidableEq

inductive EventKind
  | staged | approved | rejected | conflict | failed
  deriving DecidableEq

/-- A row of `auto_improve_runs`. -/
structure RunRow where
  id : RunId
  workspaceId : WorkspaceId
  projectId : ProjectId
  sessionId : Option SessionId
  proposalActorJson : String
  createdAt : ℤ

/-- A row of `auto_improve_proposals`. -/
structure Proposal where
  id : ProposalId
  runId : RunId
  workspaceId : WorkspaceId
  projectId : ProjectId
  status : Status
  operation : Operation
  targetPath : String
  kind : String
  title : String
  rationale : String
  evidenceJson : String
  bodyMarkdown : String
  bodySha256 : String
  targetLatestPageIdAtStage : Option PageId
  targetBodySha256AtStage : Option String
  targetUpdatedAtAtStage : Option ℤ
  stagedAt : ℤ
  editMode : String
  patchJson : Option String
  expectedBaseBodySha256 : Option String
  stagedByActorUser : Option String
  decidedAt : Option ℤ
  decisionReason : Option String
  decidedByAuthorId : Option ℕ
  decidedByActorJson : Option String
  appliedPageId : Option PageId
  checkpoint : Option String

/-- A row of `auto_improve_proposal_events`. -/
structure Event where
  proposalId : ProposalId
  kind : EventKind
  actorJson : String
  authorId : Option ℕ
  detail : String
  time : ℤ

structure Db where
  store : Store
  runs : List RunRow
  proposals : List Proposal
  events : List Event

/-! ### Staging -/

structure NewProposal where
  id : ProposalId
  operation : Operation
  targetPath : String
  kind : String
  title : String
  rationale : String
  evidenceJson : String
  bodyMarkdown : String
  editMode : Option String
  patchJson : Option String
  expectedBaseBodySha256 : Option String

structure StageAutoImproveRun where
  runId : RunId
  workspaceId : WorkspaceId
  projectId : ProjectId
  sessionId : Option SessionId
  proposalActor : String
  proposals : List NewProposal
  now : ℤ

/-- An `IdentityKey`: its storage key, and whether it is a normalized one. -/
structure IdentityKey where
  storageKey : String
  isValid : Bool

def targetAtStage : Operation → Option PageRow → Except String (Option PageRow)
  | .create, none => .ok none
  | .create, some _ => .error "create proposal target already exists"
  | .update, some page => .ok (some page)
  | .update, none => .error "update proposal target does not exist"

def checkPatch (new : NewProposal) (target : Option PageRow) : Except StoreError Unit :=
  if new.editMode.getD "full_page" ≠ "patch" then .ok ()
  else if new.operation ≠ .update || new.patchJson.isNone then .error .invalidState
  else match new.expectedBaseBodySha256, target with
    | some expected, some page =>
      if page.bodySha256 = expected then .ok () else .error .invalidState
    | _, _ => .error .invalidState

variable (C : PageCodec)

def pendingRow (input : StageAutoImproveRun) (owner : Option String)
    (new : NewProposal) (target : Option PageRow) : Proposal where
  id := new.id
  runId := input.runId
  workspaceId := input.workspaceId
  projectId := input.projectId
  status := .pending
  operation := new.operation
  targetPath := new.targetPath
  kind := new.kind
  title := new.title
  rationale := new.rationale
  evidenceJson := new.evidenceJson
  bodyMarkdown := new.bodyMarkdown
  bodySha256 := C.sha256 new.bodyMarkdown
  targetLatestPageIdAtStage := target.map (·.id)
  targetBodySha256AtStage := target.map (·.bodySha256)
  targetUpdatedAtAtStage := target.map (·.updatedAt)
  stagedAt := input.now
  editMode := new.editMode.getD "full_page"
  patchJson := new.patchJson
  expectedBaseBodySha256 := new.expectedBaseBodySha256
  stagedByActorUser := owner
  decidedAt := none
  decisionReason := none
  decidedByAuthorId := none
  decidedByActorJson := none
  appliedPageId := none
  checkpoint := none

/-- A pending proposal with the key of `idx_auto_improve_one_pending_target`. -/
def Proposal.blocks (q p : Proposal) : Bool :=
  q.status = .pending && q.workspaceId = p.workspaceId && q.projectId = p.projectId
    && q.targetPath = p.targetPath && q.stagedByActorUser.getD "" = p.stagedByActorUser.getD ""

structure Stage where
  db : Db
  seen : List String
  proposalIds : List ProposalId
  skipped : List (String × String)

def Stage.skip (st : Stage) (target reason : String) : Stage :=
  { st with skipped := st.skipped ++ [(target, reason)] }

variable (db : Db)

def Db.record (event : Event) : Db := { db with events := db.events ++ [event] }

def stageProposal (input : StageAutoImproveRun) (owner : Option String)
    (skipPendingCollisions : Bool) (st : Stage) (new : NewProposal) : Except StoreError Stage :=
  if new.targetPath ∈ st.seen then .error .invalidState
  else
    let st := { st with seen := new.targetPath :: st.seen }
    match targetAtStage new.operation
        (st.db.store.latestAt input.workspaceId input.projectId new.targetPath) with
    | .error reason => .ok (st.skip new.targetPath reason)
    | .ok target => do
      checkPatch new target
      let row := pendingRow C input owner new target
      if !st.db.store.paired row.workspaceId row.projectId
          || !(row.editMode = "full_page" || row.editMode = "patch")
          || st.db.proposals.any (fun q => q.id = row.id) then .error .constraint
      else if st.db.proposals.any (·.blocks row) then
        if skipPendingCollisions && st.db.proposals.any (fun q => q.blocks row
            && q.stagedByActorUser = owner) then
          .ok (st.skip new.targetPath "a proposal is already pending review for this path")
        else .error .constraint
      else .ok { st with
        db := { st.db with proposals := st.db.proposals ++ [row] }.record
          ⟨row.id, .staged, input.proposalActor, none, "", input.now⟩
        proposalIds := st.proposalIds ++ [row.id] }

def sessionInScope (s : Store) (input : StageAutoImproveRun) : Bool :=
  input.sessionId.all fun sid => s.sessions.any fun r =>
    r.id = sid && r.workspaceId = input.workspaceId && r.projectId = input.projectId

def stageRunImpl (input : StageAutoImproveRun)
    (owner : Option IdentityKey) (skipPendingCollisions : Bool) : Except StoreError Stage :=
  if owner.any fun identity => !identity.isValid then .error .invalidState
  else if !sessionInScope db.store input then .error .invalidState
  else if !db.store.paired input.workspaceId input.projectId
      || db.runs.any (fun r => r.id = input.runId) then .error .constraint
  else
    let run := RunRow.mk input.runId input.workspaceId input.projectId input.sessionId
      input.proposalActor input.now
    input.proposals.foldlM
      (stageProposal C input (owner.map (·.storageKey)) skipPendingCollisions)
      ⟨{ db with runs := db.runs ++ [run] }, [], [], []⟩

def stageRun (input : StageAutoImproveRun) : Except StoreError Stage :=
  stageRunImpl C db input none false

def stageRunForOwner (input : StageAutoImproveRun)
    (owner : Option IdentityKey) : Except StoreError Stage :=
  stageRunImpl C db input owner true

/-! ### Decisions -/

structure Decision where
  workspaceId : WorkspaceId
  projectId : ProjectId
  proposalId : ProposalId
  actor : String
  authorId : Option ℕ
  now : ℤ

variable (d : Decision)

/-- `WHERE id = ? AND workspace_id = ? AND project_id = ? AND status = 'pending'`. -/
def Decision.addresses (p : Proposal) : Bool :=
  p.id = d.proposalId && p.workspaceId = d.workspaceId && p.projectId = d.projectId
    && p.status = .pending

def Decision.mark (status : Status) (reason : Option String) (p : Proposal) :
    Proposal :=
  { p with
    status := status
    decidedAt := some d.now
    decisionReason := reason
    decidedByAuthorId := d.authorId
    decidedByActorJson := some d.actor }

def Decision.event (kind : EventKind) (detail : String) : Event :=
  ⟨d.proposalId, kind, d.actor, d.authorId, detail, d.now⟩

def Db.decide (status : Status) (kind : EventKind) (reason : String) : Db :=
  { db with proposals := update d.addresses (d.mark status (some reason)) db.proposals }.record
    (d.event kind reason)

def rejectProposal (reason : String) : Except StoreError Db :=
  if db.proposals.countP d.addresses = 1 then .ok (db.decide d .rejected .rejected reason)
  else .error .invalidState

def failProposal (reason : String) : Except StoreError Db :=
  if db.proposals.countP d.addresses = 1 then .ok (db.decide d .failed .failed reason)
  else .error .invalidState

/-- The frontmatter's `slot_kind`, when it is an object with one. -/
structure SlotCodec where
  slotKind : String → Option String

/-- `eq_ignore_ascii_case("invariant")`. -/
def isInvariant (kind : String) : Bool := kind.toList.map Char.toLower = "invariant".toList

variable (K : SlotCodec)

def pinnedRefusalApplies (targetPath : String) (pinned : Bool)
    (frontmatterJson : String) : Bool :=
  pinned && (!"_slots/".toList.isPrefixOf targetPath.toList
    || (K.slotKind frontmatterJson).any isInvariant)

structure ApproveAutoImproveProposal extends Decision where
  page : NewPage
  /-- The id drawn for a new version. -/
  pageId : PageId
  tie : ℕ
  checkpoint : Option String

inductive ApproveResult
  | approved (pageId : PageId)
  | conflict

def pinnedReason : String :=
  "target page is pinned; pinned pages are never rewritten by auto-improvement"

def changedReason : String := "target changed since proposal was staged"

def drifted (p : Proposal) : Option PageRow → Bool
  | none => p.operation = .update
  | some page => p.operation = .create
    || some page.id ≠ p.targetLatestPageIdAtStage
    || some page.bodySha256 ≠ p.targetBodySha256AtStage
    || some page.updatedAt ≠ p.targetUpdatedAtAtStage

def Db.conflict (db : Db) (input : ApproveAutoImproveProposal) (reason : String) : Db :=
  { db with
    proposals := update input.addresses
      (fun p => { input.mark .conflict (some reason) p with
        appliedPageId := none
        checkpoint := input.checkpoint }) db.proposals }.record (input.event .conflict reason)

def approveProposal (db : Db)
    (input : ApproveAutoImproveProposal) : Except StoreError (ApproveResult × Db) :=
  if input.page.workspaceId ≠ input.workspaceId || input.page.projectId ≠ input.projectId
      || input.page.authorId ≠ input.authorId then .error .invalidState
  else match db.proposals.find? input.addresses with
    | none => .error .invalidState
    | some p =>
      if input.page.path ≠ p.targetPath then .error .invalidState
      else
        let current := db.store.latestAt input.workspaceId input.projectId p.targetPath
        if current.any fun page =>
            pinnedRefusalApplies K p.targetPath page.pinned page.frontmatterJson then
          .ok (.conflict, db.conflict input pinnedReason)
        else if drifted p current then .ok (.conflict, db.conflict input changedReason)
        else do
          let (pageId, store) ← upsertPage C db.store input.page input.pageId input.now input.tie
          .ok (.approved pageId, { db with
            store := store
            proposals := update input.addresses
              (fun p => { input.mark .approved none p with
                appliedPageId := some pageId
                checkpoint := input.checkpoint }) db.proposals }.record
            (input.event .approved ""))

def deletedBetween (before after : Store) (id : PageId) : Bool :=
  before.pages.any (fun r => r.id = id) && !after.pages.any (fun r => r.id = id)

/-- The references of a proposal to page versions are `ON DELETE SET NULL`. -/
def Proposal.clear (gone : PageId → Bool) (p : Proposal) : Proposal :=
  { p with
    targetLatestPageIdAtStage := p.targetLatestPageIdAtStage.filter fun id => !gone id
    appliedPageId := p.appliedPageId.filter fun id => !gone id }

def pageChange (op : PageOp) : Db :=
  let store := pageStep C db.store op
  { db with
    store := store
    proposals := db.proposals.map (Proposal.clear (deletedBetween db.store store)) }

inductive Op
  | stageRun (input : StageAutoImproveRun)
  | stageRunForOwner (input : StageAutoImproveRun) (owner : Option IdentityKey)
  | approve (input : ApproveAutoImproveProposal)
  | reject (d : Decision) (reason : String)
  | fail (d : Decision) (reason : String)
  | page (op : PageOp)

/-- One of these calls, or a page upsert or delete. -/
def step (db : Db) : Op → Db
  | .stageRun input => (stageRun C db input).toOption.elim db (·.db)
  | .stageRunForOwner input owner => (stageRunForOwner C db input owner).toOption.elim db (·.db)
  | .approve input => (approveProposal C K db input).toOption.elim db (·.2)
  | .reject d reason => (rejectProposal db d reason).toOption.getD db
  | .fail d reason => (failProposal db d reason).toOption.getD db
  | .page op => pageChange C db op

end AutoImprove
