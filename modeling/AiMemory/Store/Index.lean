/-
What a page write indexes beside the page row (`ai-memory-store/src/ops.rs`):
the entities a version is about, and the links it holds.

A link keeps the scope and path it was written with, and the id of the page it
points at; a page write resolves its own links, and repoints the links of others
that resolve to it.  The names links are resolved by do not change here: they
are a `Directory`, whose fields say what the schema makes unique.
-/
import AiMemory.Store.PageHistory
import AiMemory.Store.Text

open Table Runs

namespace Store

/-! ### Names -/

structure WorkspaceRow where
  id : WorkspaceId
  name : String
  deriving DecidableEq

structure NamedProject where
  id : ProjectId
  workspaceId : WorkspaceId
  name : String

structure Directory where
  workspaces : List WorkspaceRow
  projects : List NamedProject
  workspaceIds : KeyUnique (fun w : WorkspaceRow => w.id) workspaces
  workspaceNames : KeyUnique (fun w : WorkspaceRow => w.name) workspaces
  projectIds : KeyUnique (fun p : NamedProject => p.id) projects
  projectNames : KeyUnique (fun p : NamedProject => (p.workspaceId, p.name)) projects
  homed : ∀ p ∈ projects, ∃ w ∈ workspaces, w.id = p.workspaceId

def defaultWorkspaceName : String := "default"

def globalScopeProject : String := "_global"

def Directory.rows (n : Directory) : List ProjectRow :=
  n.projects.map fun p => ⟨p.id, p.workspaceId⟩

def Directory.findWorkspace (n : Directory) (name : String) : Option WorkspaceId :=
  (n.workspaces.find? fun w => w.name = name).map (·.id)

def Directory.findProject (n : Directory) (ws : WorkspaceId) (name : String) : Option ProjectId :=
  (n.projects.find? fun p => (p.workspaceId, p.name) = (ws, name)).map (·.id)

def Directory.projectName (n : Directory) (proj : ProjectId) : Option String :=
  (n.projects.find? fun p => p.id = proj).map (·.name)

def Directory.workspaceName (n : Directory) (ws : WorkspaceId) : Option String :=
  (n.workspaces.find? fun w => w.id = ws).map (·.name)

/-! ### Rows -/

abbrev EntityId := ℕ

/-- A row of `entities`. -/
structure EntityRow where
  id : EntityId
  workspaceId : WorkspaceId
  projectId : ProjectId
  name : String
  createdAt : ℤ

/-- A row of `entity_page_links`. -/
structure EntityLinkRow where
  entityId : EntityId
  pageId : PageId
  validFrom : Option ℤ
  supersededAt : Option ℤ
  deriving DecidableEq

inductive Relation
  | causes | fixes | contradicts
  deriving DecidableEq

structure LinkTarget where
  workspace : Option String
  project : Option String
  path : String
  relation : Option Relation
  deriving DecidableEq

/-- A row of `links`; `link_type` is `references` for no relation. -/
structure LinkRow where
  fromPageId : PageId
  toPageId : Option PageId
  toWorkspace : Option String
  toProject : Option String
  toPath : String
  linkType : Option Relation

structure IndexedPage extends NewPage where
  entities : List String
  links : List LinkTarget

structure IndexCodec extends PageCodec where
  lowercase : String → String

structure Indexed where
  store : Store
  entities : List EntityRow
  entityLinks : List EntityLinkRow
  links : List LinkRow

/-! ### Links -/

def linkWorkspaceName (link : LinkTarget) : Option String :=
  if link.workspace = none ∧ link.project = some globalScopeProject then
    some defaultWorkspaceName
  else link.workspace

/-- The project a link of a page of `(ws, proj)` names, if there is one. -/
def linkScope (n : Directory) (ws : WorkspaceId) (proj : ProjectId) (link : LinkTarget) :
    Option (WorkspaceId × ProjectId) :=
  match link.project with
  | none => some (ws, proj)
  | some projectName =>
    ((linkWorkspaceName link).elim (some ws) n.findWorkspace).bind fun ws' =>
      (n.findProject ws' projectName).map fun proj' => (ws', proj')

def latestPageIdForLink (n : Directory) (s : Store) (ws : WorkspaceId) (proj : ProjectId)
    (link : LinkTarget) : Option PageId :=
  (linkScope n ws proj link).bind fun scope => (s.latestAt scope.1 scope.2 link.path).map (·.id)

def LinkRow.target (l : LinkRow) : LinkTarget := ⟨l.toWorkspace, l.toProject, l.toPath, l.linkType⟩

def LinkRow.key (l : LinkRow) : Option String × Option String × String × Option Relation :=
  (l.toWorkspace, l.toProject, l.toPath, l.linkType)

def storedLink (n : Directory) (s : Store) (id : PageId) (page : NewPage) (link : LinkTarget) :
    LinkRow where
  fromPageId := id
  toPageId := latestPageIdForLink n s page.workspaceId page.projectId link
  toWorkspace := linkWorkspaceName link
  toProject := link.project
  toPath := link.path
  linkType := link.relation

def addLink (out : List LinkRow) (row : LinkRow) : List LinkRow :=
  if out.any fun l => l.key = row.key then out else out ++ [row]

def linkRows (n : Directory) (s : Store) (id : PageId) (page : IndexedPage) : List LinkRow :=
  (page.links.map (storedLink n s id page.toNewPage)).foldl addLink []

def replaceLinks (n : Directory) (d : Indexed) (id : PageId) (page : IndexedPage) : Indexed :=
  { d with
    links := delete (fun l => l.fromPageId = id) d.links ++ linkRows n d.store id page }

/-- The link is one of a page of this project (or of any project of the
workspace). -/
def sourcedIn (s : Store) (ws : WorkspaceId) (proj : Option ProjectId) (l : LinkRow) : Bool :=
  s.pages.any fun r => r.id = l.fromPageId && r.workspaceId = ws && proj.all (· = r.projectId)

/-- `SET to_page_id`. -/
def LinkRow.repoint (id : PageId) (l : LinkRow) : LinkRow := { l with toPageId := some id }

/-- Repoint the links that resolve to the page just written: bare links of its
own project, links that name its project, and old links to the reserved project
that were stored without a workspace. -/
def refreshIncomingLinks (n : Directory) (s : Store) (links : List LinkRow) (page : NewPage)
    (id : PageId) : List LinkRow :=
  let links := update (fun l => l.toProject = none && l.toPath = page.path
    && sourcedIn s page.workspaceId (some page.projectId) l) (LinkRow.repoint id) links
  match n.projectName page.projectId, n.workspaceName page.workspaceId with
  | some projectName, some workspaceName =>
    let links := update (fun l => l.toProject = some projectName && l.toPath = page.path
      && (l.toWorkspace = some workspaceName
        || (l.toWorkspace = none && sourcedIn s page.workspaceId none l))) (LinkRow.repoint id) links
    if projectName = globalScopeProject ∧ workspaceName = defaultWorkspaceName then
      update (fun l => l.toProject = some globalScopeProject && l.toPath = page.path
        && l.toWorkspace = none) (LinkRow.repoint id) links
    else links
  | _, _ => links

def upsertEntity (page : NewPage) (now : ℤ) (mint : String → EntityId) (entities : List EntityRow)
    (name : String) : Except StoreError (EntityId × List EntityRow) :=
  match entities.find? fun e => e.workspaceId = page.workspaceId
      && e.projectId = page.projectId && e.name = name with
  | some e => .ok (e.id, entities)
  | none =>
    if entities.any fun e => e.id = mint name then .error .constraint
    else .ok (mint name,
      entities ++ [⟨mint name, page.workspaceId, page.projectId, name, now⟩])

def attachEntity (page : NewPage) (id : PageId) (versionCreatedAt now : ℤ)
    (mint : String → EntityId) (d : Indexed) (name : String) : Except StoreError Indexed := do
  let (entityId, entities) ← upsertEntity page now mint d.entities name
  let known := d.entityLinks.any fun l => l.entityId = entityId && l.pageId = id
  return { d with
    entities := entities
    entityLinks := if known then d.entityLinks
      else d.entityLinks ++ [⟨entityId, id, some versionCreatedAt, none⟩] }

def attachEntities (C : IndexCodec) (d : Indexed) (page : IndexedPage) (id : PageId)
    (versionCreatedAt now : ℤ) (mint : String → EntityId) : Except StoreError Indexed :=
  (normalizeEntities C.lowercase page.entities).foldlM
    (attachEntity page.toNewPage id versionCreatedAt now mint) d

/-! ### Page operations -/

/-- What follows the `INSERT` of a version. -/
def indexVersion (n : Directory) (C : IndexCodec) (d : Indexed) (page : IndexedPage) (id : PageId)
    (now entityNow : ℤ) (mint : String → EntityId) : Except StoreError (PageId × Indexed) := do
  let d := replaceLinks n d id page
  let d ← attachEntities C d page id now entityNow mint
  return (id, { d with links := refreshIncomingLinks n d.store d.links page.toNewPage id })

def closeEntityLinks (links : List EntityLinkRow) (id : PageId) (now : ℤ) : List EntityLinkRow :=
  update (fun l => l.pageId = id && l.supersededAt.isNone)
    (fun l => { l with supersededAt := some now }) links

/-- Upsert a page by path; `now` dates the version and its windows, `entityNow`
is the second clock reading, for new entities. -/
def upsertPageIndexed (n : Directory) (C : IndexCodec) (d : Indexed) (page : IndexedPage)
    (id : PageId) (now entityNow : ℤ) (tie : ℕ) (mint : String → EntityId) :
    Except StoreError (PageId × Indexed) :=
  match d.store.latestAt page.workspaceId page.projectId page.path with
  | some existing =>
    if unchanged C.toPageCodec existing page.toNewPage then .ok (existing.id, d)
    else do
      let s ← (d.store.retire existing.id now).insertPage
        (pageVersion C.toPageCodec page.toNewPage (some existing.id) id now)
      indexVersion n C
        { d with store := s, entityLinks := closeEntityLinks d.entityLinks existing.id now }
        page id now entityNow mint
  | none =>
    match collidingLivePath C.toPageCodec d.store page.toNewPage with
    | some existing => .error (.pagePathCollides page.path existing)
    | none => do
      let tombstone := d.store.mostRecentTombstoneAtPath page.toNewPage tie
      let s ← (tombstone.elim d.store fun r => d.store.unbury r.id).insertPage
        (pageVersion C.toPageCodec page.toNewPage (tombstone.map (·.id)) id now)
      indexVersion n C { d with store := s } page id now entityNow mint

def softDeleteIndexed (d : Indexed) (ws : WorkspaceId) (proj : ProjectId) (path : String)
    (expectedLatestId : PageId) (now : ℤ) : Bool × Indexed :=
  let (affected, s) := d.store.softDeleteIfLatest ws proj path expectedLatestId now
  (affected,
    { d with
      store := s
      entityLinks :=
        if affected then closeEntityLinks d.entityLinks expectedLatestId now
        else d.entityLinks })

/-- Deleting page versions: their entity links and their own links go with
them, the links to them are unresolved; then the entities of the project that
nothing links to are dropped. -/
def deletePagesIndexed (d : Indexed) (ws : WorkspaceId) (proj : ProjectId) (p : PageRow → Bool) :
    Indexed :=
  let gone (id : PageId) : Bool := d.store.pages.any fun r => p r && r.id = id
  let entityLinks := delete (fun l => gone l.pageId) d.entityLinks
  { store := d.store.deletePages p
    entityLinks := entityLinks
    links := update (fun l => l.toPageId.any gone) (fun l => { l with toPageId := none })
      (delete (fun l => gone l.fromPageId) d.links)
    entities :=
      if d.store.pages.any p then
        delete (fun e => e.workspaceId = ws && e.projectId = proj
          && !entityLinks.any fun l => l.entityId = e.id) d.entities
      else d.entities }

def deletePageIndexed (d : Indexed) (ws : WorkspaceId) (proj : ProjectId) (path : String)
    (expectedLatestId : Option PageId) : Indexed :=
  if expectedLatestId.any fun id => (d.store.latestAt ws proj path).map (·.id) ≠ some id then d
  else deletePagesIndexed d ws proj (atPath ws proj path)

def hardDeleteIndexed (d : Indexed) (ws : WorkspaceId) (proj : ProjectId) (path : String)
    (tombstoneId : PageId) (expectedLatestId : Option PageId) (cutoff : ℤ) : Indexed :=
  if (d.store.latestAt ws proj path).map (·.id) ≠ expectedLatestId then d
  else deletePagesIndexed d ws proj fun r =>
    decide (r.id ∈ d.store.decayChain ws proj path tombstoneId cutoff)

inductive IndexOp
  | upsert (page : IndexedPage) (id : PageId) (now entityNow : ℤ) (tie : ℕ)
      (mint : String → EntityId)
  | softDeleteForDecay (ws : WorkspaceId) (proj : ProjectId) (path : String) (expected : PageId)
      (now : ℤ)
  | softDeleteForReconcile (ws : WorkspaceId) (proj : ProjectId) (path : String)
      (expected : PageId) (now : ℤ)
  | delete (ws : WorkspaceId) (proj : ProjectId) (path : String)
  | deleteIfLatest (ws : WorkspaceId) (proj : ProjectId) (path : String) (expected : PageId)
  | hardDelete (ws : WorkspaceId) (proj : ProjectId) (path : String) (tombstone : PageId)
      (expected : Option PageId) (cutoff : ℤ)

def indexStep (n : Directory) (C : IndexCodec) (d : Indexed) : IndexOp → Indexed
  | .upsert page id now entityNow tie mint =>
    match upsertPageIndexed n C d page id now entityNow tie mint with
    | .ok (_, d') => d'
    | .error _ => d
  | .softDeleteForDecay ws proj path expected now =>
    (softDeleteIndexed d ws proj path expected now).2
  | .softDeleteForReconcile ws proj path expected now =>
    (softDeleteIndexed d ws proj path expected now).2
  | .delete ws proj path => deletePageIndexed d ws proj path none
  | .deleteIfLatest ws proj path expected => deletePageIndexed d ws proj path (some expected)
  | .hardDelete ws proj path tombstone expected cutoff =>
    hardDeleteIndexed d ws proj path tombstone expected cutoff

def Indexed.start (n : Directory) (s : Store) : Indexed :=
  ⟨{ s with
    projects := n.rows
    pages := [] }, [], [], []⟩

variable {n : Directory} {C : IndexCodec} {d d' : Indexed} {page : IndexedPage} {id id' : PageId}
  {now entityNow : ℤ} {tie : ℕ} {mint : String → EntityId}

/-- All that a page operation can do to the tables. -/
theorem indexStep_elim {P : Indexed → Prop} (op : IndexOp) (hsame : P d)
    (hupsert : ∀ {page id now entityNow tie mint id' d'},
      upsertPageIndexed n C d page id now entityNow tie mint = .ok (id', d') → P d')
    (hsoftDelete : ∀ ws proj path expected now,
      P (softDeleteIndexed d ws proj path expected now).2)
    (hdelete : ∀ ws proj p, P (deletePagesIndexed d ws proj p)) : P (indexStep n C d op) := by
  have hpage : ∀ ws proj path expected, P (deletePageIndexed d ws proj path expected) := by
    intro ws proj path expected
    unfold deletePageIndexed
    split
    · exact hsame
    · exact hdelete ws proj _
  cases op with
  | upsert page id now entityNow tie mint =>
    rw [indexStep]
    split
    · rename_i id' d' hok
      exact hupsert hok
    · exact hsame
  | softDeleteForDecay ws proj path expected now
  | softDeleteForReconcile ws proj path expected now =>
    exact hsoftDelete ws proj path expected now
  | delete ws proj path => exact hpage ws proj path none
  | deleteIfLatest ws proj path expected => exact hpage ws proj path (some expected)
  | hardDelete ws proj path tombstone expected cutoff =>
    rw [indexStep, hardDeleteIndexed]
    split
    · exact hsame
    · exact hdelete ws proj _

def OpensAt (id : PageId) (now : ℤ) (l : EntityLinkRow) : Prop :=
  l.pageId = id ∧ l.validFrom = some now ∧ l.supersededAt = none

lemma attachEntity_ok {p : NewPage} {name : String}
    (h : attachEntity p id now entityNow mint d name = .ok d') :
    d'.store = d.store ∧ d'.links = d.links ∧
      ∃ new, d'.entityLinks = d.entityLinks ++ new ∧ ∀ l ∈ new, OpensAt id now l := by
  obtain ⟨⟨entityId, entities⟩, -, hret⟩ := bind_ok.mp h
  cases hret
  refine ⟨rfl, rfl, ?_⟩
  simp only
  split
  · exact ⟨[], (List.append_nil _).symm, fun l hl => absurd hl List.not_mem_nil⟩
  · refine ⟨_, rfl, fun l hl => ?_⟩
    rw [List.mem_singleton.mp hl]
    exact ⟨rfl, rfl, rfl⟩

lemma attachEntities_ok (h : attachEntities C d page id now entityNow mint = .ok d') :
    d'.store = d.store ∧ d'.links = d.links ∧
      ∃ new, d'.entityLinks = d.entityLinks ++ new ∧ ∀ l ∈ new, OpensAt id now l := by
  refine foldlM_invariant (I := fun x : Indexed => x.store = d.store ∧ x.links = d.links ∧
    ∃ new, x.entityLinks = d.entityLinks ++ new ∧ ∀ l ∈ new, OpensAt id now l) ?_ ?_ h
  · rintro name - x y ⟨hstore, hlinks, new, hnew, hopens⟩ hxy
    obtain ⟨hstore', hlinks', new', hnew', hopens'⟩ := attachEntity_ok hxy
    refine ⟨hstore'.trans hstore, hlinks'.trans hlinks, new ++ new', ?_, fun l hl => ?_⟩
    · rw [hnew', hnew, List.append_assoc]
    · rcases List.mem_append.mp hl with hl | hl
      · exact hopens l hl
      · exact hopens' l hl
  · exact ⟨rfl, rfl, [], (List.append_nil _).symm, fun l hl => absurd hl List.not_mem_nil⟩

/-- What is written beside the row of a version: its links, resolved, the links
to it repointed, and its entity links, opened. -/
def Indexes (n : Directory) (s : Store) (links : List LinkRow)
    (entityLinks : List EntityLinkRow) (page : IndexedPage) (id : PageId) (now : ℤ)
    (d' : Indexed) : Prop :=
  d'.store = s ∧
    d'.links = refreshIncomingLinks n s (Table.delete (fun l => l.fromPageId = id) links ++
      linkRows n s id page) page.toNewPage id ∧
    ∃ new, d'.entityLinks = entityLinks ++ new ∧ ∀ l ∈ new, OpensAt id now l

lemma indexVersion_ok (h : indexVersion n C d page id now entityNow mint = .ok (id', d')) :
    id' = id ∧ Indexes n d.store d.links d.entityLinks page id now d' := by
  obtain ⟨e, he, hret⟩ := bind_ok.mp h
  cases hret
  obtain ⟨hstore, hlinks, new, hnew, hopens⟩ := attachEntities_ok he
  refine ⟨rfl, hstore, ?_, new, hnew, hopens⟩
  change refreshIncomingLinks n e.store e.links page.toNewPage id = _
  rw [hstore, hlinks]
  rfl

/-- An upsert leaves everything as it is, or closes the latest version of the
path and writes one over it, or writes the first one, or one over a tombstone.
In the rows of `pages` it does what `Store.upsertPage` does. -/
theorem upsertPageIndexed_ok
    (h : upsertPageIndexed n C d page id now entityNow tie mint = .ok (id', d')) :
    upsertPage C.toPageCodec d.store page.toNewPage id now tie = .ok (id', d'.store) ∧ (d' = d ∨
        (∃ existing, d.store.latestAt page.workspaceId page.projectId page.path = some existing ∧
          ∃ s, (d.store.retire existing.id now).insertPage
              (pageVersion C.toPageCodec page.toNewPage (some existing.id) id now) = .ok s ∧
            Indexes n s d.links (closeEntityLinks d.entityLinks existing.id now) page id now d') ∨
        (d.store.latestAt page.workspaceId page.projectId page.path = none ∧
          ∃ s, ((d.store.mostRecentTombstoneAtPath page.toNewPage tie).elim d.store
              fun r => d.store.unbury r.id).insertPage (pageVersion C.toPageCodec page.toNewPage
                ((d.store.mostRecentTombstoneAtPath page.toNewPage tie).map (·.id)) id now) = .ok s ∧
            Indexes n s d.links d.entityLinks page id now d')) := by
  unfold upsertPageIndexed at h
  unfold upsertPage
  cases hlatest : d.store.latestAt page.workspaceId page.projectId page.path with
  | some existing =>
    rw [hlatest] at h
    dsimp only at h ⊢
    by_cases hsame : unchanged C.toPageCodec existing page.toNewPage
    · rw [if_pos hsame] at h ⊢
      cases h
      exact ⟨rfl, .inl rfl⟩
    · rw [if_neg hsame] at h ⊢
      obtain ⟨s, hs, hindex⟩ := bind_ok.mp h
      obtain ⟨rfl, hix⟩ := indexVersion_ok hindex
      refine ⟨?_, .inr (.inl ⟨existing, rfl, s, hs, hix⟩)⟩
      rw [hs, hix.1]
      rfl
  | none =>
    rw [hlatest] at h
    dsimp only at h ⊢
    cases hfree : collidingLivePath C.toPageCodec d.store page.toNewPage with
    | some existing =>
      rw [hfree] at h
      cases h
    | none =>
      rw [hfree] at h
      obtain ⟨s, hs, hindex⟩ := bind_ok.mp h
      obtain ⟨rfl, hix⟩ := indexVersion_ok hindex
      refine ⟨?_, .inr (.inr ⟨rfl, s, hs, hix⟩)⟩
      dsimp only
      rw [hs, hix.1]
      rfl

end Store
