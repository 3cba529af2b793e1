/-
The tables of the store and their foreign keys, as the migrations leave them
(`ai-memory-store/migrations`, V01 to V99).

Every table that has a foreign key, or that a purge reads or writes, is here
with the columns of its foreign keys and those that a purge looks at.  No other
constraint can stop a delete: no `CHECK`, no unique index and no trigger of the
schema looks at a column that `ON DELETE SET NULL` clears.
-/
import Mathlib.Data.Int.Notation
import AiMemory.Lib.Cascade
import AiMemory.Lib.Text

open Cascade

namespace Catalog

inductive Table
  | workspaces | projects | users | pages | sessions | observations | handoffs
  | links | pageEmbeddings | pageEmbedFailures | pageAbstractEmbeddings | pageAccess
  | pageEvidence | pageFeedback | queryPageSignals | entities | entityPageLinks
  | autoImproveRuns | autoImproveProposals | autoImproveProposalEvents
  | autoImproveRejections | autoImproveSchedulerState | autoImproveSchedulerClaims
  | sessionConsolidationJobs | sessionUsage | tokenCalls | tokenCallTools | ingestKeys
  | profileCandidates | profileEntryLedger | profileHarvestMarks | projectGrants
  | agentMessages | workstreams | workstreamNativeSessions | managedRuns | workstreamEvents
  | apiCredentials | webSessions | purgedSessions | purgedScopes | auditLog
  deriving DecidableEq

inductive Column
  | id | workspaceId | projectId | userId | sessionId | pageId | entityId | workstreamId
  | runId | proposalId | callId | name | accessMode | createdBy | level | path
  | frontmatterJson | isLatest | supersedes | authorId | actorUser | summaryPageId
  | fromPageId | toPageId | fromSessionId | acceptedBySession | claimedBySession
  | fromWorkspaceId | fromProjectId | toWorkspaceId | toProjectId
  | targetLatestPageIdAtStage | appliedPageId | decidedByAuthorId | sourceRunId
  | sourceProposalId | sourceKind | sourceRef | lastSession | grantedBy | state
  | leaseExpiresAt | agentKind | purgedAt | «at» | op
  deriving DecidableEq

inductive Value
  | blob (bytes : List UInt8)
  | text (s : String)
  | int (n : ℤ)
  deriving DecidableEq

open Catalog.Table Catalog.Column

variable (child : Table)

/-- `column REFERENCES parent(id) ON DELETE CASCADE`. -/
def cascadeTo (column : Column) (parent : Table) : Reference Table Column :=
  ⟨child, [column], parent, [.id], .cascade⟩

/-- `column REFERENCES parent(id) ON DELETE SET NULL`. -/
def nullTo (column : Column) (parent : Table) : Reference Table Column :=
  ⟨child, [column], parent, [.id], .setNull⟩

def filed : List (Reference Table Column) :=
  [cascadeTo child workspaceId workspaces, cascadeTo child projectId projects]

def filedTables : List Table :=
  [pages, sessions, observations, handoffs, pageFeedback, queryPageSignals, entities,
    autoImproveRuns, autoImproveProposals, autoImproveRejections, autoImproveSchedulerState,
    autoImproveSchedulerClaims, sessionConsolidationJobs, profileCandidates, profileEntryLedger,
    profileHarvestMarks, projectGrants, workstreams, purgedSessions]

def references : List (Reference Table Column) :=
  filedTables.flatMap filed ++
  [cascadeTo projects workspaceId workspaces, nullTo projects createdBy users,
    nullTo pages supersedes pages, nullTo pages authorId users,
    nullTo sessions summaryPageId pages,
    cascadeTo observations sessionId sessions,
    nullTo handoffs fromSessionId sessions, nullTo handoffs acceptedBySession sessions,
    cascadeTo links fromPageId pages, nullTo links toPageId pages,
    cascadeTo pageEmbeddings pageId pages, cascadeTo pageEmbedFailures pageId pages,
    cascadeTo pageAbstractEmbeddings pageId pages, cascadeTo pageAccess pageId pages,
    cascadeTo pageEvidence pageId pages,
    cascadeTo pageFeedback pageId pages, nullTo pageFeedback authorId users,
    cascadeTo queryPageSignals pageId pages,
    cascadeTo entityPageLinks entityId entities, cascadeTo entityPageLinks pageId pages,
    nullTo autoImproveRuns sessionId sessions,
    cascadeTo autoImproveProposals runId autoImproveRuns,
    nullTo autoImproveProposals targetLatestPageIdAtStage pages,
    nullTo autoImproveProposals decidedByAuthorId users,
    nullTo autoImproveProposals appliedPageId pages,
    cascadeTo autoImproveProposalEvents proposalId autoImproveProposals,
    nullTo autoImproveProposalEvents authorId users,
    nullTo autoImproveRejections sourceRunId autoImproveRuns,
    nullTo autoImproveRejections sourceProposalId autoImproveProposals,
    cascadeTo autoImproveSchedulerClaims sessionId sessions,
    cascadeTo sessionConsolidationJobs sessionId sessions,
    cascadeTo sessionUsage sessionId sessions, cascadeTo tokenCalls sessionId sessions,
    ⟨tokenCallTools, [sessionId, callId], tokenCalls, [sessionId, callId], .cascade⟩,
    cascadeTo ingestKeys projectId projects, cascadeTo ingestKeys sessionId sessions,
    cascadeTo projectGrants userId users, nullTo projectGrants grantedBy users,
    cascadeTo agentMessages fromWorkspaceId workspaces,
    cascadeTo agentMessages fromProjectId projects,
    cascadeTo agentMessages toWorkspaceId workspaces,
    cascadeTo agentMessages toProjectId projects,
    nullTo agentMessages fromSessionId sessions, nullTo agentMessages claimedBySession sessions,
    cascadeTo workstreamNativeSessions workstreamId workstreams,
    cascadeTo managedRuns workstreamId workstreams,
    cascadeTo workstreamEvents workstreamId workstreams,
    cascadeTo apiCredentials userId users, cascadeTo webSessions userId users,
    nullTo auditLog authorId users]

/-- The schema.  A purge updates only `purged_at`, and inserts only tombstones and
an audit row. -/
def schema : Schema Table Column where
  references := references
  assigned := [purgedAt]
  logs := [purgedSessions, purgedScopes, auditLog]
  logs_childless := by decide +kernel
  columns_ne := by decide +kernel
  assigned_free := by decide +kernel
  keys_kept := by decide +kernel

abbrev Db := Database schema Value

abbrev DbRow := Row Table Column Value

abbrev Uuid := List UInt8

/-- `lower(hex(id))`. -/
def hex (id : Uuid) : Text :=
  id.flatMap fun b => [Nat.digitChar (b.toNat / 16), Nat.digitChar (b.toNat % 16)]

def hyphenated (id : Uuid) : String :=
  let h := hex id
  String.ofList (h.take 8 ++ '-' :: (h.drop 8).take 4 ++ '-' :: (h.drop 12).take 4
    ++ '-' :: (h.drop 16).take 4 ++ '-' :: (h.drop 20).take 12)

/-- `column = value`; a null column is equal to nothing. -/
def is (r : DbRow) (c : Column) (v : Value) : Bool := r.cell c = some v

/-- `column != value`; a null column is different from nothing. -/
def isNot (r : DbRow) (c : Column) (v : Value) : Bool := (r.cell c).any (· ≠ v)

/-- `workspace_id = … AND project_id = …`. -/
def inScope (ws proj : Uuid) (r : DbRow) : Bool :=
  is r workspaceId (.blob ws) && is r projectId (.blob proj)

/-- `SELECT COUNT(*) FROM t WHERE …`. -/
def count (db : Db) (t : Table) (p : DbRow → Bool) : ℕ := (db.table t).countP p

/-- `DELETE FROM t WHERE …`, with its row count. -/
def execDelete (db : Db) (t : Table) (p : DbRow → Bool) : ℕ × Db :=
  (count db t p, db.delete fun r => r.table = t && p r)

end Catalog
