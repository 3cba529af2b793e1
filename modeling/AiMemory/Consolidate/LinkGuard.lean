/-
Links of generated pages (`ai-memory-consolidate`, `link_guard.rs`).

Before a batch of generated pages is written, its cross-scope links and its relations are
resolved without creating anything; one that names no page is taken out.  The guard looks a
scope up by every name a project had, while a page write resolves a link by the current name.

* `unresolved_body_iff`, `unresolved_relation_iff` — when a target is taken out.
-/
import AiMemory.Store.LinkIndex
import AiMemory.Store.RegistryRuns
import AiMemory.Wiki.Links
import Mathlib

open Table Runs Store Projects Fallible List

namespace Consolidate

open Json (Value)
open Wiki (CharTables PagePath extractLinks extractRelationLinks)

inductive ScopeResolutionError
  | workspaceNotFound (workspace : String)
  | projectNotFoundInWorkspace (workspace project : String)
  | projectNameAmbiguous (workspace project : String)
  deriving DecidableEq

structure ResolvedScope where
  workspaceId : WorkspaceId
  projectId : ProjectId

def lookupExistingWorkspace (reg : Registry) (workspace : String) :
    Except ScopeResolutionError WorkspaceId :=
  match reg.workspaces.find? fun w => w.name = workspace with
  | none => .error (.workspaceNotFound workspace)
  | some w => .ok w.id

def lookupExistingScope (N : NameCodec) (reg : Registry) (workspace project : String) :
    Except ScopeResolutionError ResolvedScope := do
  let ws ← lookupExistingWorkspace reg workspace
  match resolve N reg ws project with
  | .error _ => .error (.projectNameAmbiguous workspace project)
  | .ok none => .error (.projectNotFoundInWorkspace workspace project)
  | .ok (some p) => .ok ⟨ws, p.id⟩

def answersFor (reg : Registry) (proj : ProjectId) : Bool :=
  reg.projects.any fun p => p.id = proj && reg.workspaces.any fun w => w.id = p.workspaceId &&
    (p.accessMode ≠ .restricted || (w.name = defaultWorkspaceName && p.name = globalScopeProject))

def notExpired (now : ℤ) (r : PageRow) : Bool := r.expiresAt.all fun t => decide (now < t)

def existingLatestPaths (reg : Registry) (s : Store) (now : ℤ) (ws : WorkspaceId)
    (proj : ProjectId) (paths : List String) : List String :=
  (s.pages.filter fun r => r.workspaceId = ws && r.projectId = proj && r.isLatest &&
    notExpired now r && answersFor reg proj && paths.contains r.path).map (·.path)

/-! ### The guard -/

structure ProposedPage where
  path : PagePath
  body : Text
  frontmatter : Value

structure TargetKey where
  workspace : Option String
  project : Option String
  path : String
  deriving DecidableEq

def keyOf (link : LinkTarget) : TargetKey := ⟨link.workspace, link.project, link.path⟩

structure UnresolvedGeneratedLinks where
  body : List TargetKey
  relations : List TargetKey
  deriving DecidableEq

def bodyTargets (U : CharTables) (pages : List ProposedPage) : List TargetKey :=
  pages.flatMap fun page =>
    ((extractLinks U page.body page.path).filter (·.project.isSome)).map keyOf

def relationTargets (U : CharTables) (pages : List ProposedPage) : List TargetKey :=
  pages.flatMap fun page => (extractRelationLinks U page.frontmatter).map keyOf

def TargetKey.scope (source : String) (key : TargetKey) : String × String :=
  (key.workspace.getD source, key.project.getD "")

def crossUnresolved (N : NameCodec) (reg : Registry) (s : Store) (now : ℤ) (source : String)
    (cross : List TargetKey) (key : TargetKey) : Bool :=
  match lookupExistingScope N reg (key.scope source).1 (key.scope source).2 with
  | .error _ => true
  | .ok scope =>
    let paths := (cross.filter fun k => k.scope source = key.scope source).map (·.path)
    !(existingLatestPaths reg s now scope.workspaceId scope.projectId paths).contains key.path

def unresolvedGeneratedLinks (N : NameCodec) (U : CharTables) (reg : Registry) (s : Store)
    (now : ℤ) (ws : WorkspaceId) (proj : ProjectId) (pages : List ProposedPage) :
    Except ScopeResolutionError UnresolvedGeneratedLinks := do
  let proposed := pages.map fun page => page.path.str
  let body := bodyTargets U pages
  let relations := relationTargets U pages
  let locals := relations.filter fun key => key.workspace.isNone && key.project.isNone
  let paths := (locals.map (·.path)).filter fun path => !proposed.contains path
  let existing := existingLatestPaths reg s now ws proj paths
  let dropped := locals.filter fun key =>
    !proposed.contains key.path && !existing.contains key.path
  let cross := (body ++ relations).filter (·.project.isSome)
  if cross = [] then .ok ⟨[], dropped⟩
  else match reg.findWorkspace ws with
  | none => .error (.workspaceNotFound (toString ws))
  | some source =>
    let unresolved := cross.filter (crossUnresolved N reg s now source.name cross)
    .ok ⟨unresolved.filter (body.contains ·), dropped ++ unresolved.filter (relations.contains ·)⟩

variable {N : NameCodec} {U : CharTables} {reg : Registry} {n : Directory} {s : Store} {now : ℤ}
  {ws : WorkspaceId} {proj : ProjectId} {pages : List ProposedPage}

lemma requested_of_coordinateMatches {name : String} {m : ProjectCoordinateMatch}
    (h : m ∈ coordinateMatches N reg ws name none) :
    m.project ∈ reg.projects ∧ m.project.workspaceId = ws ∧ m.provenance.requested := by
  rw [coordinateMatches, matchesBounded] at h
  have h := mem_of_mem_take h
  rw [(perm_insertionSort _ _).mem_iff, mem_filter] at h
  obtain ⟨p, hp, rfl⟩ := mem_map.mp h.1
  rw [mem_filter, decide_eq_true_eq] at hp
  refine ⟨hp.1, hp.2, ?_⟩
  rcases (Bool.or_eq_true _ _ ▸ h.2) with hfound | htarget
  · rcases (Bool.or_eq_true _ _ ▸ hfound) with hrequested | hidentity
    · exact hrequested
    · obtain ⟨hempty, hne⟩ := (Bool.and_eq_true _ _ ▸ hidentity)
      exact absurd (of_decide_eq_true hempty) (of_decide_eq_true hne)
  · simp at htarget

lemma filter_requested (name : String) :
    (coordinateMatches N reg ws name none).filter (·.provenance.requested) =
      coordinateMatches N reg ws name none :=
  filter_eq_self.mpr fun _ h => (requested_of_coordinateMatches h).2.2

lemma exact_of_coordinateMatches {name : String} {p : Project} (hp : p ∈ reg.projects)
    (hws : p.workspaceId = ws) (hname : p.name = name) :
    coordinateMatches N reg ws name none ≠ [] ∧
      ∀ m, coordinateMatches N reg ws name none = [m] → m.project = p := by
  have hrow : p ∈ reg.projects.filter fun q => q.workspaceId = ws :=
    mem_filter.mpr ⟨hp, by simpa using hws⟩
  obtain ⟨found, hmatches, m, hm, rfl⟩ : ∃ found : List ProjectCoordinateMatch,
      coordinateMatches N reg ws name none =
      (found.insertionSort ProjectCoordinateMatch.before).take maxCoordinateRows ∧
      ∃ m ∈ found, m.project = p := by
    refine ⟨_, rfl, _, mem_filter.mpr ⟨mem_map.mpr ⟨p, hrow, rfl⟩, ?_⟩, rfl⟩
    simp [MatchProvenance.requested, hname]
  have hsorted : m ∈ found.insertionSort ProjectCoordinateMatch.before :=
    (perm_insertionSort _ found).mem_iff.mpr hm
  have hbound : maxCoordinateRows = 4 := rfl
  rw [hmatches, hbound]
  cases hsort : found.insertionSort ProjectCoordinateMatch.before with
  | nil => rw [hsort] at hsorted; cases hsorted
  | cons first rest =>
    rw [hsort] at hsorted
    refine ⟨cons_ne_nil _ _, fun m' honly => ?_⟩
    obtain ⟨rfl, hrest⟩ := cons_eq_cons.mp honly
    have hrest : rest.take 3 = [] := hrest
    have hnone : rest = [] := (take_eq_nil_iff.mp hrest).resolve_left (by decide)
    rw [hnone] at hsorted
    rw [mem_singleton.mp hsorted]

lemma resolve_none {name : String} (h : resolve N reg ws name = .ok none) :
    ∀ p ∈ reg.projects, p.workspaceId = ws → p.name ≠ name := by
  intro p hp hws hname
  rw [resolve, filter_requested] at h
  split at h
  · rename_i hempty
    exact (exact_of_coordinateMatches hp hws hname).1 hempty
  · cases h
  · cases h

lemma resolve_some {name : String} {p : Project} (h : resolve N reg ws name = .ok (some p)) :
    p ∈ reg.projects ∧ p.workspaceId = ws ∧
      ∀ q ∈ reg.projects, q.workspaceId = ws → q.name = name → q = p := by
  rw [resolve, filter_requested] at h
  split at h
  · cases h
  · rename_i m honly
    cases h
    have hm := requested_of_coordinateMatches (honly ▸ mem_singleton_self m)
    exact ⟨hm.1, hm.2.1, fun q hq hqws hqname =>
      ((exact_of_coordinateMatches hq hqws hqname).2 m honly).symm⟩
  · cases h

/-- The directory is the registry's. -/
structure Names (n : Directory) (reg : Registry) : Prop where
  workspaces : n.workspaces = reg.workspaces
  projects : n.projects = reg.projects.map fun p => ⟨p.id, p.workspaceId, p.name⟩

lemma Names.findProject_iff (hn : Names n reg) {name : String} :
    n.findProject ws name = some proj ↔
      ∃ p ∈ reg.projects, p.id = proj ∧ p.workspaceId = ws ∧ p.name = name := by
  rw [Store.findProject_iff, hn.projects]
  simp only [mem_map]
  constructor
  · rintro ⟨_, ⟨p, hp, rfl⟩, hid, hws, hname⟩
    exact ⟨p, hp, hid, hws, hname⟩
  · rintro ⟨p, hp, hid, hws, hname⟩
    exact ⟨_, ⟨p, hp, rfl⟩, hid, hws, hname⟩

lemma Names.lookupExistingWorkspace_iff (hn : Names n reg) {name : String} :
    lookupExistingWorkspace reg name = .ok ws ↔ n.findWorkspace name = some ws := by
  unfold lookupExistingWorkspace Directory.findWorkspace
  rw [hn.workspaces]
  split
  · rename_i hnone
    simp [hnone]
  · rename_i w hsome
    simp [hsome]

lemma Names.workspace_iff (hn : Names n reg) {link : LinkTarget} {source : WorkspaceRow}
    (hsource : reg.findWorkspace ws = some source)
    (hhomed : ¬ (link.workspace = none ∧ link.project = some globalScopeProject))
    {ws' : WorkspaceId} :
    lookupExistingWorkspace reg (link.workspace.getD source.name) = .ok ws' ↔
      (linkWorkspaceName link).elim (some ws) n.findWorkspace = some ws' := by
  rw [hn.lookupExistingWorkspace_iff, linkWorkspaceName, if_neg hhomed]
  cases link.workspace with
  | some name => rfl
  | none =>
    have hmem : source ∈ n.workspaces := by
      rw [hn.workspaces]
      exact mem_of_find?_eq_some hsource
    have hid : source.id = ws := by simpa using find?_some hsource
    have hself := (findWorkspace_self hmem).mpr (rfl : source.name = source.name)
    rw [hid] at hself
    simp [hself]

/-! ### What the guard answers for -/

/-- Pages the guard does not answer for: under a name that several projects have or had, in a
restricted project other than the shared one, or expired. -/
def Withheld (N : NameCodec) (reg : Registry) (n : Directory) (s : Store) (now : ℤ)
    (ws : WorkspaceId) (link : LinkTarget) : Prop :=
  ∃ ws' name, (linkWorkspaceName link).elim (some ws) n.findWorkspace = some ws' ∧
    link.project = some name ∧ ((∃ e, resolve N reg ws' name = .error e) ∨
      ∃ proj', n.findProject ws' name = some proj' ∧ (answersFor reg proj' = false ∨
        ∃ r, s.latestAt ws' proj' link.path = some r ∧ notExpired now r = false))

/-- The link names its project by the name it has now. -/
def CurrentName (N : NameCodec) (reg : Registry) (n : Directory) (ws : WorkspaceId)
    (link : LinkTarget) : Prop :=
  ∀ ws' name p, (linkWorkspaceName link).elim (some ws) n.findWorkspace = some ws' →
    link.project = some name → resolve N reg ws' name = .ok (some p) → p.name = name

/-- `idx_pages_latest_path`: a path has one latest version. -/
def OneLatest (s : Store) : Prop :=
  ∀ a ∈ s.pages, ∀ b ∈ s.pages, a.isLatest = true → b.isLatest = true → a.place = b.place → a = b

lemma mem_existingLatestPaths {path : String} {paths : List String}
    (hpages : OneLatest s) (hpath : path ∈ paths) :
    path ∈ existingLatestPaths reg s now ws proj paths ↔
      ∃ r, s.latestAt ws proj path = some r ∧ notExpired now r ∧
        answersFor reg proj := by
  unfold existingLatestPaths
  simp only [mem_map, mem_filter, Bool.and_eq_true, decide_eq_true_eq]
  constructor
  · rintro ⟨r, ⟨hr, ⟨⟨⟨⟨⟨hws, hproj⟩, hlatest⟩, hexp⟩, hans⟩, -⟩⟩, rfl⟩
    refine ⟨r, ?_, hexp, hans⟩
    cases hfind : s.latestAt ws proj r.path with
    | none =>
      have := latestAt_none hfind r hr (by rw [PageRow.place, hws, hproj])
      rw [hlatest] at this
      cases this
    | some q =>
      obtain ⟨hq, hplace, hql⟩ := latestAt_some hfind
      rw [hpages q hq r hr hql hlatest (by rw [hplace, PageRow.place, hws, hproj])]
  · rintro ⟨r, hfind, hexp, hans⟩
    obtain ⟨hr, hplace, hlatest⟩ := latestAt_some hfind
    simp only [PageRow.place, Prod.mk.injEq] at hplace
    obtain ⟨hws, hproj, rfl⟩ := hplace
    exact ⟨r, ⟨hr, ⟨⟨⟨⟨⟨hws, hproj⟩, hlatest⟩, hexp⟩, hans⟩, by simpa using hpath⟩⟩, rfl⟩

lemma lookupExistingScope_ok {workspace name : String} {scope : ResolvedScope} :
    lookupExistingScope N reg workspace name = .ok scope ↔
      lookupExistingWorkspace reg workspace = .ok scope.workspaceId ∧
        ∃ p, resolve N reg scope.workspaceId name = .ok (some p) ∧ p.id = scope.projectId := by
  rw [lookupExistingScope, bind_eq_ok]
  constructor
  · rintro ⟨ws, hws, h⟩
    split at h
    · cases h
    · cases h
    · rename_i p hp
      cases h
      exact ⟨hws, p, hp, rfl⟩
  · rintro ⟨hws, p, hp, hid⟩
    refine ⟨scope.workspaceId, hws, ?_⟩
    rw [hp]
    show Except.ok (⟨scope.workspaceId, p.id⟩ : ResolvedScope) = .ok scope
    rw [hid]

lemma crossUnresolved_eq_true {source : String} {cross : List TargetKey} {key : TargetKey} :
    crossUnresolved N reg s now source cross key ↔
      ∀ scope, lookupExistingScope N reg (key.scope source).1 (key.scope source).2 = .ok scope →
        key.path ∉ existingLatestPaths reg s now scope.workspaceId scope.projectId
          ((cross.filter fun k => k.scope source = key.scope source).map (·.path)) := by
  unfold crossUnresolved
  cases lookupExistingScope N reg (key.scope source).1 (key.scope source).2 with
  | error e => simp
  | ok scope => simp

lemma latestPageIdForLink_eq_none {link : LinkTarget} {name : String}
    (hname : link.project = some name) : latestPageIdForLink n s ws proj link = none ↔
      ∀ ws' proj', (linkWorkspaceName link).elim (some ws) n.findWorkspace = some ws' →
        n.findProject ws' name = some proj' → s.latestAt ws' proj' link.path = none := by
  rw [latestPageIdForLink, linkScope, hname]
  simp only [Option.bind_eq_none_iff, Option.map_eq_none_iff, Option.bind_eq_some_iff,
    Option.map_eq_some_iff]
  constructor
  · intro h ws' proj' hws' hproj'
    exact h (ws', proj') ⟨ws', hws', proj', hproj', rfl⟩
  · rintro h _ ⟨ws', hws', proj', hproj', rfl⟩
    exact h ws' proj' hws' hproj'

lemma crossUnresolved_iff (hn : Names n reg) (hpages : OneLatest s) {link : LinkTarget}
    {source : WorkspaceRow} {cross : List TargetKey} {name : String}
    (hsource : reg.findWorkspace ws = some source)
    (hhomed : ¬ (link.workspace = none ∧ link.project = some globalScopeProject))
    (hname : link.project = some name) (hcurrent : CurrentName N reg n ws link)
    (hcross : keyOf link ∈ cross) :
    crossUnresolved N reg s now source.name cross (keyOf link) ↔
      latestPageIdForLink n s ws proj link = none ∨ Withheld N reg n s now ws link := by
  have hscope : (keyOf link).scope source.name = (link.workspace.getD source.name, name) := by
    rw [TargetKey.scope, keyOf, hname]
    rfl
  have hbatch : link.path ∈ (cross.filter fun k =>
      k.scope source.name = (link.workspace.getD source.name, name)).map (·.path) :=
    mem_map.mpr ⟨keyOf link, mem_filter.mpr ⟨hcross, by simp [hscope]⟩, rfl⟩
  have hfound : ∀ ws' p, resolve N reg ws' name = .ok (some p) →
      (linkWorkspaceName link).elim (some ws) n.findWorkspace = some ws' →
      n.findProject ws' name = some p.id := by
    intro ws' p hres hws'
    obtain ⟨hp, hpws, -⟩ := resolve_some hres
    exact hn.findProject_iff.mpr ⟨p, hp, rfl, hpws, hcurrent ws' name p hws' hname hres⟩
  rw [crossUnresolved_eq_true, hscope, latestPageIdForLink_eq_none hname]
  constructor
  · intro hout
    by_contra hcon
    obtain ⟨hpage, hanswer⟩ := not_or.mp hcon
    push Not at hpage
    obtain ⟨ws', proj', hws', hproj', hsome⟩ := hpage
    obtain ⟨r, hr⟩ := Option.ne_none_iff_exists'.mp hsome
    obtain ⟨p, hp, rfl, hpws, hpname⟩ := hn.findProject_iff.mp hproj'
    -- the name is not ambiguous, and leads to this project
    have hres : resolve N reg ws' name = .ok (some p) := by
      cases hres : resolve N reg ws' name with
      | error e => exact absurd ⟨ws', name, hws', hname, .inl ⟨e, hres⟩⟩ hanswer
      | ok found =>
        cases found with
        | none => exact absurd hpname (resolve_none hres p hp hpws)
        | some q => rw [(resolve_some hres).2.2 p hp hpws hpname]
    have hanswers : answersFor reg p.id := by
      by_contra hno
      rw [Bool.not_eq_true] at hno
      exact hanswer ⟨ws', name, hws', hname, .inr ⟨p.id, hproj', .inl hno⟩⟩
    have hlive : notExpired now r := by
      by_contra hno
      rw [Bool.not_eq_true] at hno
      exact hanswer ⟨ws', name, hws', hname, .inr ⟨p.id, hproj', .inr ⟨r, hr, hno⟩⟩⟩
    refine hout ⟨ws', p.id⟩ ?_ ((mem_existingLatestPaths hpages hbatch).mpr ⟨r, hr, hlive, hanswers⟩)
    exact lookupExistingScope_ok.mpr ⟨(hn.workspace_iff hsource hhomed).mpr hws', p, hres, rfl⟩
  · intro hreason scope hlookup hpath
    obtain ⟨hws, p, hres, hid⟩ := lookupExistingScope_ok.mp hlookup
    obtain ⟨r, hr, hlive, hanswers⟩ := (mem_existingLatestPaths hpages hbatch).mp hpath
    have hws' := (hn.workspace_iff hsource hhomed).mp hws
    have hfind := hfound scope.workspaceId p hres hws'
    rw [hid] at hfind
    rcases hreason with hnone | ⟨ws'', name', hws'', hname', hwithheld⟩
    · have := hnone scope.workspaceId scope.projectId hws' hfind
      rw [hr] at this
      cases this
    · obtain rfl := Option.some.inj (hws'.symm.trans hws'')
      obtain rfl := Option.some.inj (hname.symm.trans hname')
      rcases hwithheld with ⟨e, herror⟩ | ⟨proj', hproj', hreason⟩
      · rw [hres] at herror; cases herror
      · obtain rfl := Option.some.inj (hfind.symm.trans hproj')
        rcases hreason with hno | ⟨r', hr', hno⟩
        · rw [hanswers] at hno; cases hno
        · obtain rfl := Option.some.inj (hr.symm.trans hr')
          rw [hlive] at hno; cases hno

lemma unresolvedGeneratedLinks_ok {result : UnresolvedGeneratedLinks} {key : TargetKey}
    (h : unresolvedGeneratedLinks N U reg s now ws proj pages = .ok result)
    (hproject : key.project.isSome) (hkey : key ∈ bodyTargets U pages ++ relationTargets U pages) :
    ∃ source cross, reg.findWorkspace ws = some source ∧ key ∈ cross ∧
      (key ∈ result.body ↔ key ∈ bodyTargets U pages ∧
        crossUnresolved N reg s now source.name cross key) ∧
      (key ∈ result.relations ↔ key ∈ relationTargets U pages ∧
        crossUnresolved N reg s now source.name cross key) := by
  have hcross : key ∈ (bodyTargets U pages ++ relationTargets U pages).filter (·.project.isSome) :=
    mem_filter.mpr ⟨hkey, hproject⟩
  unfold unresolvedGeneratedLinks at h
  dsimp only at h
  rw [if_neg (ne_nil_of_mem hcross)] at h
  cases hsource : reg.findWorkspace ws with
  | none => rw [hsource] at h; cases h
  | some source =>
    rw [hsource] at h
    cases h
    refine ⟨source, _, rfl, hcross, ?_, ?_⟩
    · simp only [mem_filter, contains_iff_mem]
      constructor
      · rintro ⟨⟨-, hun⟩, hb⟩
        exact ⟨hb, hun⟩
      · rintro ⟨hb, hun⟩
        exact ⟨⟨⟨hkey, hproject⟩, hun⟩, hb⟩
    · rw [mem_append]
      simp only [mem_filter, contains_iff_mem]
      constructor
      · rintro (⟨⟨-, hlocal⟩, -⟩ | ⟨⟨-, hun⟩, hr⟩)
        · -- a local relation names no project
          rw [Option.isSome_iff_ne_none] at hproject
          simp [hproject] at hlocal
        · exact ⟨hr, hun⟩
      · rintro ⟨hr, hun⟩
        exact .inr ⟨⟨⟨hkey, hproject⟩, hun⟩, hr⟩

/-- A cross-scope link of a body, or relation, under a project's current name is taken out
exactly when a page write would not resolve it, or the page is withheld. -/
theorem unresolved_iff (hn : Names n reg) (hpages : OneLatest s) {result : UnresolvedGeneratedLinks}
    (h : unresolvedGeneratedLinks N U reg s now ws proj pages = .ok result)
    {page : ProposedPage} (hpage : page ∈ pages) {link : LinkTarget} {name : String}
    (hname : link.project = some name) (hcurrent : CurrentName N reg n ws link) :
    (link ∈ extractLinks U page.body page.path → (keyOf link ∈ result.body ↔
      latestPageIdForLink n s ws proj link = none ∨ Withheld N reg n s now ws link)) ∧
    (link ∈ extractRelationLinks U page.frontmatter → (keyOf link ∈ result.relations ↔
      latestPageIdForLink n s ws proj link = none ∨ Withheld N reg n s now ws link)) := by
  have hsome : (keyOf link).project.isSome = true := by rw [keyOf, hname]; rfl
  constructor
  · intro hlink
    have hbody : keyOf link ∈ bodyTargets U pages :=
      mem_flatMap.mpr ⟨page, hpage, mem_map.mpr
        ⟨link, mem_filter.mpr ⟨hlink, by rw [hname]; rfl⟩, rfl⟩⟩
    obtain ⟨source, cross, hsource, hcross, hiff, -⟩ :=
      unresolvedGeneratedLinks_ok h hsome (mem_append_left _ hbody)
    rw [hiff, ← crossUnresolved_iff hn hpages hsource (Wiki.homed_extractLinks hlink) hname hcurrent
      hcross]
    exact and_iff_right hbody
  · intro hlink
    have hrelation : keyOf link ∈ relationTargets U pages :=
      mem_flatMap.mpr ⟨page, hpage, mem_map.mpr ⟨link, hlink, rfl⟩⟩
    obtain ⟨source, cross, hsource, hcross, -, hiff⟩ :=
      unresolvedGeneratedLinks_ok h hsome (mem_append_right _ hrelation)
    rw [hiff, ← crossUnresolved_iff hn hpages hsource (Wiki.homed_extractRelationLinks hlink) hname
      hcurrent hcross]
    exact and_iff_right hrelation

/-! ### A workspace of two projects -/

variable (mode : AccessMode)

def twoProjects : Registry where
  workspaces := [⟨0, "default"⟩]
  projects := [⟨1, 0, "app", .open, none, "", none, "", ""⟩,
    ⟨2, 0, "notes", mode, none, "", none, "", ""⟩]
  grants := []

lemma defaultOnly_ids : KeyUnique (fun w : WorkspaceRow => w.id) [⟨0, "default"⟩] :=
  nodup_singleton _

lemma defaultOnly_names : KeyUnique (fun w : WorkspaceRow => w.name) [⟨0, "default"⟩] :=
  nodup_singleton _

def twoNames : Directory where
  workspaces := [⟨0, "default"⟩]
  projects := [⟨1, 0, "app"⟩, ⟨2, 0, "notes"⟩]
  workspaceIds := defaultOnly_ids
  workspaceNames := defaultOnly_names
  projectIds := by decide
  projectNames := by decide
  homed := by decide

/-- The page `plan.md` of the second project. -/
def planPage : PageRow where
  id := 7
  workspaceId := 0
  projectId := 2
  path := "plan.md"
  title := "Plan"
  tier := "semantic"
  body := ""
  bodySha256 := ""
  frontmatterJson := "{}"
  isLatest := true
  supersedes := none
  pinned := false
  authorId := none
  createdAt := 0
  updatedAt := 0
  supersededAt := none
  expiresAt := none
  validFrom := none
  validTo := none
  compactedAt := none

def planStore : Store := { Store.empty with pages := [planPage] }

def asciiChars : CharTables := ⟨Char.isAlphanum, id⟩

def linkingPage : ProposedPage where
  path := ⟨"a.md".toList, by decide, by decide +kernel⟩
  body := "[[notes:plan]]".toList
  frontmatter := .null

def planLink : LinkTarget := ⟨none, some "notes", "plan.md", none⟩

lemma planStore_oneLatest : OneLatest planStore := by
  intro a ha b hb _ _ _
  rw [mem_singleton.mp ha, mem_singleton.mp hb]

lemma twoNames_names : Names twoNames (twoProjects mode) := ⟨rfl, rfl⟩

lemma twoProjects_current :
    CurrentName asciiNaming (twoProjects mode) twoNames 0 planLink := by
  rintro ws' name p hws hname hres
  cases hws
  cases hname
  cases mode <;> (
    obtain ⟨hp, -, honly⟩ := resolve_some hres
    rw [← honly _ (mem_cons_of_mem _ (mem_singleton_self _)) rfl rfl])

/-- The link to the open project stays. -/
theorem unresolved_iff_open :
    (unresolvedGeneratedLinks asciiNaming asciiChars (twoProjects .open) planStore 0 0 1
      [linkingPage] = .ok ⟨[], []⟩) ∧
    ¬ (latestPageIdForLink twoNames planStore 0 1 planLink = none ∨
      Withheld asciiNaming (twoProjects .open) twoNames planStore 0 0 planLink) := by
  have hguard : unresolvedGeneratedLinks asciiNaming asciiChars (twoProjects .open) planStore 0 0 1
      [linkingPage] = .ok ⟨[], []⟩ := by decide +kernel
  have hlink : planLink ∈ extractLinks asciiChars linkingPage.body linkingPage.path := by
    decide +kernel
  have hiff := (unresolved_iff (twoNames_names .open) planStore_oneLatest hguard
    (mem_singleton_self linkingPage) (rfl : planLink.project = some "notes")
    (twoProjects_current .open)).1 hlink
  exact ⟨hguard, fun h => absurd (hiff.mpr h) not_mem_nil⟩

/-- The link to the restricted project is taken out, though a page write would resolve it. -/
theorem restricted_link_taken_out :
    planLink ∈ extractLinks asciiChars linkingPage.body linkingPage.path ∧
    unresolvedGeneratedLinks asciiNaming asciiChars (twoProjects .restricted) planStore 0 0 1
      [linkingPage] = .ok ⟨[keyOf planLink], []⟩ ∧
    Names twoNames (twoProjects .restricted) ∧
    latestPageIdForLink twoNames planStore 0 1 planLink = some 7 := by
  refine ⟨by decide +kernel, by decide +kernel, ⟨rfl, rfl⟩, by decide +kernel⟩

end Consolidate
