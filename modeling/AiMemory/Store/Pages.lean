/-
Page versions (`ai-memory-store/src/ops.rs`): upsert, soft deletes, deletes and
the hard delete of a decayed chain.

Every function is one transaction of the source; an error is its rollback.
What is written beside the page row (search indexes, links, entities, evidence,
audit) is left out: none of these functions reads it back.  Hashing, the
frontmatter conventions and the portable form of a path are a parameter.
-/
import AiMemory.Store.Schema

open Table

namespace Store

/-! ### Writing a version -/

structure NewPage where
  workspaceId : WorkspaceId
  projectId : ProjectId
  path : String
  title : String
  tier : String
  body : String
  frontmatterJson : String
  pinned : Bool
  authorId : Option ℕ
  expiresAt : Option ℤ

structure PageCodec where
  sha256 : String → String
  /-- `okf::conform_frontmatter`, by path. -/
  conform : String → String → String
  /-- Two frontmatters agree but for `generated.at`. -/
  sameFrontmatter : String → String → Bool
  /-- `stamped_frontmatter`: `generated.at` is set, if the time is a valid one. -/
  stamped : String → ℤ → String
  /-- The frontmatter says `compacted: true`. -/
  compacted : String → Bool
  portablePageKey : String → String

variable (ws : WorkspaceId) (proj : ProjectId) (path : String)

def atPath (r : PageRow) : Bool :=
  r.workspaceId = ws && r.projectId = proj && r.path = path

variable (s : Store)

def latestAt : Option PageRow :=
  s.pages.find? fun r => atPath ws proj path r && r.isLatest

variable (C : PageCodec)

/-- A live page of another path that is the same file on a case-folding
filesystem. -/
def collidingLivePath (s : Store) (page : NewPage) : Option String :=
  (s.pages.find? fun r => r.workspaceId = page.workspaceId && r.projectId = page.projectId
    && r.isLatest && r.path ≠ page.path
    && C.portablePageKey r.path = C.portablePageKey page.path).map (·.path)

def PageRow.tombstone (r : PageRow) : Bool := !r.isLatest && r.supersededAt.isSome

/-- The rows `ORDER BY superseded_at DESC LIMIT 1` can return. -/
def newestTombstones :
    List PageRow :=
  let tombstones := s.pages.filter fun r => atPath ws proj path r && r.tombstone
  tombstones.filter fun r => tombstones.all fun r' =>
    decide (r'.supersededAt.getD 0 ≤ r.supersededAt.getD 0)

def mostRecentTombstoneAtPath (page : NewPage) (tie : ℕ) : Option PageRow :=
  let newest := s.newestTombstones page.workspaceId page.projectId page.path
  newest[tie % newest.length]?

def pageVersion (page : NewPage) (supersedes : Option PageId) (id : PageId)
    (now : ℤ) : PageRow where
  id := id
  workspaceId := page.workspaceId
  projectId := page.projectId
  path := page.path
  title := page.title
  tier := page.tier
  body := page.body
  bodySha256 := C.sha256 page.body
  frontmatterJson := C.stamped (C.conform page.path page.frontmatterJson) now
  isLatest := true
  supersedes := supersedes
  pinned := page.pinned
  authorId := page.authorId
  createdAt := now
  updatedAt := now
  supersededAt := none
  expiresAt := page.expiresAt
  validFrom := some now
  validTo := none
  compactedAt := if C.compacted (C.conform page.path page.frontmatterJson) then some now else none

/-- The `INSERT` of a version, with the pairing trigger, the primary key and the
unique index on the latest version of a path. -/
def insertPage (row : PageRow) : Except StoreError Store :=
  if !s.paired row.workspaceId row.projectId then .error .constraint
  else if s.pages.any fun r => r.id = row.id || (row.isLatest && r.isLatest
      && atPath row.workspaceId row.projectId row.path r) then .error .constraint
  else .ok { s with pages := s.pages ++ [row] }

def unchanged (existing : PageRow) (page : NewPage) : Bool :=
  existing.bodySha256 = C.sha256 page.body
    && C.sameFrontmatter existing.frontmatterJson (C.conform page.path page.frontmatterJson)
    && existing.title = page.title && existing.tier = page.tier && existing.pinned = page.pinned

def retire (id : PageId) (now : ℤ) : Store :=
  { s with
    pages := update (fun r => r.id = id)
      (fun r => { r with
        isLatest := false
        validTo := some now }) s.pages }

def unbury (id : PageId) : Store :=
  { s with
    pages := update (fun r => r.id = id) (fun r => { r with supersededAt := none }) s.pages }

/-- Upsert a page by path, superseding the latest version when the content has
changed; the result names the current version. -/
def upsertPage (s : Store) (page : NewPage) (id : PageId) (now : ℤ) (tie : ℕ) :
    Except StoreError (PageId × Store) :=
  match s.latestAt page.workspaceId page.projectId page.path with
  | some existing =>
    if unchanged C existing page then .ok (existing.id, s)
    else do
      let s ← (s.retire existing.id now).insertPage (pageVersion C page (some existing.id) id now)
      return (id, s)
  | none =>
    match collidingLivePath C s page with
    | some existing => .error (.pagePathCollides page.path existing)
    | none => do
      let tombstone := s.mostRecentTombstoneAtPath page tie
      let s ← (tombstone.elim s fun r => s.unbury r.id).insertPage
        (pageVersion C page (tombstone.map (·.id)) id now)
      return (id, s)

/-! ### Deletes -/

variable (expectedLatestId : PageId) (now : ℤ)

def softDeleteIfLatest
    : Bool × Store :=
  let here (r : PageRow) : Bool := r.id = expectedLatestId && atPath ws proj path r && r.isLatest
  (s.pages.any here,
    { s with
      pages := update here
        (fun r => { r with
          isLatest := false
          supersededAt := some now
          validTo := some now }) s.pages })

def softDeleteForDecayIfLatest
    : Bool × Store :=
  s.softDeleteIfLatest ws proj path expectedLatestId now

def softDeleteForReconcileIfLatest
    : Bool × Store :=
  s.softDeleteIfLatest ws proj path expectedLatestId now

def deletePageInner
    (expectedLatestId : Option PageId) : Bool × Store :=
  if expectedLatestId.any fun id => (s.latestAt ws proj path).map (·.id) ≠ some id then (false, s)
  else (s.pages.any (atPath ws proj path), s.deletePages (atPath ws proj path))

def deletePage : Store :=
  (s.deletePageInner ws proj path none).2

def deletePageIfLatest
    : Bool × Store :=
  s.deletePageInner ws proj path (some expectedLatestId)

/-- The recursive part of the chain: follow `supersedes` within the path.  A
table of `n` rows holds no longer chain than `n`. -/
def ancestry (pages : List PageRow) (here : PageRow → Bool) : ℕ → PageRow → List PageId
  | 0, r => [r.id]
  | n + 1, r => r.id ::
    match pages.find? fun q => r.supersedes = some q.id && here q with
    | some parent => ancestry pages here n parent
    | none => []

variable (tombstoneId : PageId)

/-- `WITH RECURSIVE decay_chain`. -/
def decayChain
    (cutoff : ℤ) : List PageId :=
  match s.pages.find? fun r => r.id = tombstoneId && atPath ws proj path r && r.tombstone
      && r.supersededAt.any (fun t => decide (t ≤ cutoff)) with
  | some root => ancestry s.pages (atPath ws proj path) s.pages.length root
  | none => []

/-- A tombstone and its ancestry. -/
def hardDeleteDecayedPageChain
    (expectedLatestId : Option PageId) (cutoff : ℤ) : ℕ × Store :=
  if (s.latestAt ws proj path).map (·.id) ≠ expectedLatestId then (0, s)
  else
    let chain := s.decayChain ws proj path tombstoneId cutoff
    let gone (r : PageRow) : Bool := decide (r.id ∈ chain)
    (s.pages.countP gone, s.deletePages gone)

end Store
