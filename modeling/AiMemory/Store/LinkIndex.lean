/-
The link index equals resolving every link again.

A stored link keeps the id of the page it points at.  A write resolves the
links of the new version by name, and repoints the links of other versions by
three updates with different scope conditions; a delete unresolves.  Forward
resolution and backward refresh cover the same pairs: `aims_iff`.
-/
import AiMemory.Store.Index

open Table Runs List

namespace Store

variable {n : Directory}

variable {name : String} {ws : WorkspaceId} {l : LinkRow} {s : Store} {page : IndexedPage}
  {id : PageId}

lemma findProject_iff {proj : ProjectId} :
    n.findProject ws name = some proj ↔
      ∃ p ∈ n.projects, p.id = proj ∧ p.workspaceId = ws ∧ p.name = name := by
  rw [Directory.findProject, Option.map_eq_some_iff]
  constructor
  · rintro ⟨p, hp, rfl⟩
    obtain ⟨hmem, hkey⟩ := n.projectNames.find?_eq_some.mp hp
    rw [Prod.mk.injEq] at hkey
    exact ⟨p, hmem, rfl, hkey⟩
  · rintro ⟨p, hp, rfl, rfl, rfl⟩
    exact ⟨p, n.projectNames.find?_eq_some.mpr ⟨hp, rfl⟩, rfl⟩

lemma findWorkspace_iff :
    n.findWorkspace name = some ws ↔ ∃ w ∈ n.workspaces, w.id = ws ∧ w.name = name := by
  rw [Directory.findWorkspace, Option.map_eq_some_iff]
  constructor
  · rintro ⟨w, hw, rfl⟩
    obtain ⟨hmem, hkey⟩ := n.workspaceNames.find?_eq_some.mp hw
    exact ⟨w, hmem, rfl, hkey⟩
  · rintro ⟨w, hw, rfl, rfl⟩
    exact ⟨w, n.workspaceNames.find?_eq_some.mpr ⟨hw, rfl⟩, rfl⟩

lemma projectName_of_mem {p : NamedProject} (hp : p ∈ n.projects) :
    n.projectName p.id = some p.name := by
  rw [Directory.projectName, n.projectIds.find?_eq_some.mpr ⟨hp, rfl⟩]
  rfl

lemma workspaceName_of_mem {w : WorkspaceRow} (hw : w ∈ n.workspaces) :
    n.workspaceName w.id = some w.name := by
  rw [Directory.workspaceName, n.workspaceIds.find?_eq_some.mpr ⟨hw, rfl⟩]
  rfl

lemma findProject_self {p : NamedProject} (hp : p ∈ n.projects) :
    n.findProject p.workspaceId name = some p.id ↔ name = p.name := by
  rw [findProject_iff]
  constructor
  · rintro ⟨q, hq, hid, -, rfl⟩
    rw [n.projectIds.eq hq hp hid]
  · rintro rfl
    exact ⟨p, hp, rfl, rfl, rfl⟩

lemma findWorkspace_self {w : WorkspaceRow} (hw : w ∈ n.workspaces) :
    n.findWorkspace name = some w.id ↔ name = w.name := by
  rw [findWorkspace_iff]
  constructor
  · rintro ⟨w', hw', hid, rfl⟩
    rw [n.workspaceIds.eq hw' hw hid]
  · rintro rfl
    exact ⟨w, hw, rfl, rfl⟩

/-! ### Where a link points -/

/-- The place a stored link of the version `r` names. -/
def LinkRow.aim (n : Directory) (r : PageRow) (l : LinkRow) :
    Option (WorkspaceId × ProjectId × String) :=
  (linkScope n r.workspaceId r.projectId l.target).map fun scope => (scope.1, scope.2, l.toPath)

def LinkRow.Stored (l : LinkRow) : Prop :=
  ¬ (l.toWorkspace = none ∧ l.toProject = some globalScopeProject)

lemma linkWorkspaceName_target (h : l.Stored) :
    linkWorkspaceName l.target = l.toWorkspace := by
  rw [linkWorkspaceName]
  exact if_neg h

/-- The link is repointed by a write of `page`. -/
def aims (n : Directory) (s : Store) (page : NewPage) (l : LinkRow) : Bool :=
  (l.toProject = none && l.toPath = page.path
      && sourcedIn s page.workspaceId (some page.projectId) l) ||
    match n.projectName page.projectId, n.workspaceName page.workspaceId with
    | some projectName, some workspaceName =>
      (l.toProject = some projectName && l.toPath = page.path
        && (l.toWorkspace = some workspaceName
          || (l.toWorkspace = none && sourcedIn s page.workspaceId none l))) ||
        (decide (projectName = globalScopeProject ∧ workspaceName = defaultWorkspaceName)
          && (l.toProject = some globalScopeProject && l.toPath = page.path
            && l.toWorkspace = none))
    | _, _ => false

lemma refreshIncomingLinks_eq (s : Store) (links : List LinkRow) (page : NewPage) (id : PageId) :
    refreshIncomingLinks n s links page id = update (aims n s page) (LinkRow.repoint id) links := by
  have hidem : ∀ l : LinkRow, (l.repoint id).repoint id = l.repoint id := fun _ => rfl
  rw [refreshIncomingLinks]
  cases hproj : n.projectName page.projectId with
  | none =>
    have haims : aims n s page = fun l => l.toProject = none && l.toPath = page.path
        && sourcedIn s page.workspaceId (some page.projectId) l := by
      funext l
      simp [aims, hproj]
    rw [haims]
  | some projectName =>
    cases hws : n.workspaceName page.workspaceId with
    | none =>
      have haims : aims n s page = fun l => l.toProject = none && l.toPath = page.path
          && sourcedIn s page.workspaceId (some page.projectId) l := by
        funext l
        simp [aims, hproj, hws]
      rw [haims]
    | some workspaceName =>
      simp only
      by_cases hglobal : projectName = globalScopeProject ∧ workspaceName = defaultWorkspaceName
      · rw [if_pos hglobal, update_update (f := LinkRow.repoint id) (fun _ => rfl) hidem,
          update_update (f := LinkRow.repoint id) (fun _ => rfl) hidem]
        congr 1
        funext l
        simp only [aims, hproj, hws, hglobal, and_self, decide_true, Bool.true_and]
      · rw [if_neg hglobal, update_update (f := LinkRow.repoint id) (fun _ => rfl) hidem]
        congr 1
        funext l
        simp only [aims, hproj, hws, hglobal, decide_false, Bool.false_and, Bool.or_false]

lemma sourcedIn_iff (hkeys : KeyUnique PageRow.id s.pages) {r : PageRow}
    (hr : r ∈ s.pages) (hfrom : r.id = l.fromPageId) {proj : Option ProjectId} :
    sourcedIn s ws proj l ↔ r.workspaceId = ws ∧ ∀ p, proj = some p → p = r.projectId := by
  rw [sourcedIn, any_eq_true]
  constructor
  · rintro ⟨r', hr', hmatch⟩
    simp only [Bool.and_eq_true, decide_eq_true_eq] at hmatch
    have hsame : r' = r := hkeys.eq hr' hr (hmatch.1.1.trans hfrom.symm)
    subst hsame
    refine ⟨hmatch.1.2, fun p hp => ?_⟩
    have hall := hmatch.2
    rw [hp, Option.all_some, decide_eq_true_eq] at hall
    exact hall
  · rintro ⟨hws, hproj⟩
    refine ⟨r, hr, ?_⟩
    simp only [Bool.and_eq_true, decide_eq_true_eq]
    refine ⟨⟨hfrom, hws⟩, ?_⟩
    cases proj with
    | none => rfl
    | some p => simpa using hproj p rfl

lemma aims_iff (hkeys : KeyUnique PageRow.id s.pages) {page : NewPage}
    (hpaired : ⟨page.projectId, page.workspaceId⟩ ∈ n.rows) {r : PageRow} (hr : r ∈ s.pages)
    (hfrom : r.id = l.fromPageId) (hstored : l.Stored) :
    aims n s page l ↔ l.aim n r = some (page.workspaceId, page.projectId, page.path) := by
  obtain ⟨p, hp, hrow⟩ := mem_map.mp hpaired
  rw [ProjectRow.mk.injEq] at hrow
  obtain ⟨w, hw, hwid⟩ := n.homed p hp
  have hpname : n.projectName page.projectId = some p.name := by
    rw [← hrow.1]
    exact projectName_of_mem hp
  have hwname : n.workspaceName page.workspaceId = some w.name := by
    rw [← hrow.2, ← hwid]
    exact workspaceName_of_mem hw
  have hfind : ∀ name, n.findProject page.workspaceId name = some page.projectId ↔
      name = p.name := by
    intro name
    rw [← hrow.1, ← hrow.2]
    exact findProject_self hp
  have hnolegacy : (l.toProject = some globalScopeProject && l.toPath = page.path
      && l.toWorkspace = none) = false := by
    rw [Bool.eq_false_iff]
    intro h
    simp only [Bool.and_eq_true, decide_eq_true_eq] at h
    exact hstored ⟨h.2, h.1.1⟩
  rw [aims, hpname, hwname]
  simp only [hnolegacy, Bool.and_false, Bool.or_false]
  rw [LinkRow.aim, Option.map_eq_some_iff, linkScope]
  have hwsname := linkWorkspaceName_target hstored
  cases hproj : l.toProject with
  | none =>
    have htarget : l.target.project = none := hproj
    simp only [htarget, decide_true, Bool.true_and, reduceCtorEq, decide_false, Bool.false_and,
      Bool.or_false, Bool.and_eq_true, decide_eq_true_eq, sourcedIn_iff hkeys hr hfrom,
      Option.some.injEq, Prod.mk.injEq]
    constructor
    · rintro ⟨hpath, hws, hpr⟩
      exact ⟨(r.workspaceId, r.projectId), rfl, hws, (hpr _ rfl).symm, hpath⟩
    · rintro ⟨scope, rfl, hws, hpr, hpath⟩
      exact ⟨hpath, hws, fun p' hp' => by rw [← hp']; exact hpr.symm⟩
  | some name =>
    have htarget : l.target.project = some name := hproj
    simp only [htarget, hwsname]
    cases hto : l.toWorkspace with
    | none =>
      simp only [reduceCtorEq, decide_false, Bool.false_and, Bool.false_or, Bool.and_eq_true,
        decide_eq_true_eq, decide_true, Bool.true_and, sourcedIn_iff hkeys hr hfrom,
        Option.some.injEq, Option.elim_none, Option.bind_some, Option.map_eq_some_iff,
        Prod.mk.injEq]
      constructor
      · rintro ⟨⟨rfl, hpath⟩, hws, -⟩
        refine ⟨(page.workspaceId, page.projectId), ⟨page.projectId, ?_, by rw [hws]⟩, rfl, rfl,
          hpath⟩
        rw [hws]
        exact (hfind p.name).mpr rfl
      · rintro ⟨scope, ⟨proj', hfound, rfl⟩, hws, hpr, hpath⟩
        simp only at hws hpr
        rw [hws, hpr] at hfound
        exact ⟨⟨(hfind name).mp hfound, hpath⟩, hws, by simp⟩
    | some wsName =>
      simp only [reduceCtorEq, decide_false, Bool.false_and, Bool.false_or, Bool.or_false,
        Bool.and_eq_true, decide_eq_true_eq, Option.some.injEq, Option.elim_some,
        Option.bind_eq_some_iff, Option.map_eq_some_iff]
      constructor
      · rintro ⟨⟨rfl, hpath⟩, rfl⟩
        refine ⟨(page.workspaceId, page.projectId), ⟨page.workspaceId, ?_, page.projectId, ?_,
          rfl⟩, by rw [hpath]⟩
        · rw [← hrow.2, ← hwid]
          exact (findWorkspace_self hw).mpr rfl
        · exact (hfind p.name).mpr rfl
      · rintro ⟨scope, ⟨ws', hws', proj', hfound, rfl⟩, heq⟩
        simp only [Prod.mk.injEq] at heq
        obtain ⟨rfl, rfl, hpath⟩ := heq
        refine ⟨⟨(hfind name).mp hfound, hpath⟩, ?_⟩
        rw [← hrow.2, ← hwid] at hws'
        exact (findWorkspace_self hw).mp hws'

lemma linkScope_target {link : LinkTarget}
    (hws : l.toWorkspace = linkWorkspaceName link) (hproj : l.toProject = link.project)
    (ws : WorkspaceId) (proj : ProjectId) :
    l.Stored ∧ linkScope n ws proj l.target = linkScope n ws proj link := by
  have hstored : l.Stored := by
    rintro ⟨hnone, hglobal⟩
    rw [hws, linkWorkspaceName] at hnone
    rw [hproj] at hglobal
    by_cases hlink : link.workspace = none
    · rw [if_pos ⟨hlink, hglobal⟩] at hnone
      cases hnone
    · rw [if_neg (fun h => hlink h.1)] at hnone
      exact hlink hnone
  refine ⟨hstored, ?_⟩
  have htarget : l.target.project = link.project := hproj
  rw [linkScope, linkScope, linkWorkspaceName_target hstored, htarget, hws]

lemma mem_foldl_addLink {rows out : List LinkRow}
    (h : l ∈ rows.foldl addLink out) : l ∈ out ∨ l ∈ rows := by
  induction rows generalizing out with
  | nil => exact .inl h
  | cons row rows ih =>
    rcases ih h with hout | hrows
    · rw [addLink] at hout
      split at hout
      · exact .inl hout
      · rcases mem_append.mp hout with hout | hrow
        · exact .inl hout
        · exact .inr (mem_cons.mpr (.inl (mem_singleton.mp hrow)))
    · exact .inr (mem_cons_of_mem row hrows)

lemma mem_linkRows (h : l ∈ linkRows n s id page) : l.fromPageId = id ∧ l.Stored ∧
      l.toPageId = latestPageIdForLink n s page.workspaceId page.projectId l.target := by
  have hrow := (mem_foldl_addLink h).resolve_left not_mem_nil
  obtain ⟨link, -, rfl⟩ := mem_map.mp hrow
  obtain ⟨hstored, hscope⟩ := linkScope_target (n := n)
    (l := storedLink n s id page.toNewPage link) rfl rfl page.workspaceId page.projectId
  refine ⟨rfl, hstored, ?_⟩
  rw [latestPageIdForLink, hscope]
  rfl

/-! ### The invariant -/

/-- Every link points at a version of the place it names, and at the latest one
when there is one. -/
structure LinkInv (n : Directory) (d : Indexed) : Prop where
  pages : PageInv d.store.pages
  projects : d.store.projects = n.rows
  sourced : ∀ l ∈ d.links, ∃ r ∈ d.store.pages, r.id = l.fromPageId
  stored : ∀ l ∈ d.links, l.Stored
  aimed : ∀ l ∈ d.links, ∀ r ∈ d.store.pages, r.id = l.fromPageId → ∀ x, l.toPageId = some x →
    ∃ q ∈ d.store.pages, q.id = x ∧ l.aim n r = some q.place
  latest : ∀ l ∈ d.links, ∀ r ∈ d.store.pages, r.id = l.fromPageId → ∀ q ∈ d.store.pages,
    q.isLatest = true → l.aim n r = some q.place → l.toPageId = some q.id

lemma linkInv_start (s : Store) : LinkInv n (Indexed.start n s) where
  pages := pageInv_nil
  projects := rfl
  sourced _ hl := absurd hl not_mem_nil
  stored _ hl := absurd hl not_mem_nil
  aimed _ hl := absurd hl not_mem_nil
  latest _ hl := absurd hl not_mem_nil

lemma LinkRow.aim_congr {r r' : PageRow} (h : r'.place = r.place) :
    l.aim n r' = l.aim n r := by
  simp only [PageRow.place, Prod.mk.injEq] at h
  rw [LinkRow.aim, LinkRow.aim, h.1, h.2.1]

/-- The rows of `base` are those of the store, at the same places, with no new
latest one. -/
def Demotes (base s : Store) : Prop :=
  base.projects = s.projects ∧
    (∀ a' ∈ base.pages, ∃ a ∈ s.pages, a'.id = a.id ∧ a'.place = a.place ∧
      (a'.isLatest = true → a.isLatest = true)) ∧
    ∀ a ∈ s.pages, ∃ a' ∈ base.pages, a'.id = a.id ∧ a'.place = a.place

lemma demotes_update {p : PageRow → Bool} {f : PageRow → PageRow}
    (hid : ∀ r, (f r).id = r.id) (hplace : ∀ r, (f r).place = r.place)
    (hlatest : ∀ r, (f r).isLatest = true → r.isLatest) :
    Demotes { s with pages := update p f s.pages } s := by
  have hcols : ∀ r, (if p r then f r else r).id = r.id ∧ (if p r then f r else r).place = r.place ∧
      ((if p r then f r else r).isLatest → r.isLatest) := by
    intro r
    split
    · exact ⟨hid r, hplace r, hlatest r⟩
    · exact ⟨rfl, rfl, fun h => h⟩
  refine ⟨rfl, fun a' ha' => ?_, fun a ha => ?_⟩
  · obtain ⟨a, ha, rfl⟩ := mem_update.mp ha'
    exact ⟨a, ha, hcols a⟩
  · exact ⟨_, mem_update.mpr ⟨a, ha, rfl⟩, (hcols a).1, (hcols a).2.1⟩

lemma demotes_refl (s : Store) : Demotes s s :=
  ⟨rfl, fun a ha => ⟨a, ha, rfl, rfl, fun h => h⟩, fun a ha => ⟨a, ha, rfl, rfl⟩⟩

lemma LinkInv.demote {d : Indexed} (h : LinkInv n d) {base : Store} (hbase : Demotes base d.store)
    (hpages : PageInv base.pages) {entityLinks : List EntityLinkRow} :
    LinkInv n { d with store := base, entityLinks := entityLinks } := by
  obtain ⟨hproj, hback, hforth⟩ := hbase
  refine ⟨hpages, hproj.trans h.projects, ?_, h.stored, ?_, ?_⟩
  · intro l hl
    obtain ⟨r, hr, hid⟩ := h.sourced l hl
    obtain ⟨r', hr', hid', -⟩ := hforth r hr
    exact ⟨r', hr', hid'.trans hid⟩
  · intro l hl r' hr' hfrom x hx
    obtain ⟨r, hr, hid, hplace, -⟩ := hback r' hr'
    obtain ⟨q, hq, hqid, haim⟩ := h.aimed l hl r hr (hid.symm.trans hfrom) x hx
    obtain ⟨q', hq', hqid', hqplace⟩ := hforth q hq
    refine ⟨q', hq', hqid'.trans hqid, ?_⟩
    rw [LinkRow.aim_congr hplace, haim, hqplace]
  · intro l hl r' hr' hfrom q' hq' hlatest haim
    obtain ⟨r, hr, hid, hplace, -⟩ := hback r' hr'
    obtain ⟨q, hq, hqid, hqplace, hqlatest⟩ := hback q' hq'
    rw [LinkRow.aim_congr hplace, hqplace] at haim
    rw [h.latest l hl r hr (hid.symm.trans hfrom) q hq (hqlatest hlatest) haim, hqid]

lemma LinkInv.write {d d' : Indexed} (h : LinkInv n d) {row : PageRow} (hrowid : row.id = id)
    (hplace : row.place = (page.workspaceId, page.projectId, page.path))
    (hlatest : row.isLatest) (hpaired : ⟨page.projectId, page.workspaceId⟩ ∈ n.rows)
    (hpages : PageInv (d.store.pages ++ [row])) (hstore : d'.store = { d.store with pages:= d.store.pages ++ [row] })
    (hlinks : d'.links = refreshIncomingLinks n d'.store (delete (fun l => l.fromPageId = id)
      d.links ++ linkRows n d'.store id page) page.toNewPage id) :
    LinkInv n d' := by
  have hkeys : KeyUnique PageRow.id d'.store.pages := by
    rw [hstore]
    exact hpages.chained.keys
  have hrow : row ∈ d'.store.pages := by
    rw [hstore]
    exact mem_append_right _ (mem_singleton.mpr rfl)
  have hold : ∀ a ∈ d.store.pages, a ∈ d'.store.pages := by
    intro a ha
    rw [hstore]
    exact mem_append_left _ ha
  have hcases : ∀ a ∈ d'.store.pages, a ∈ d.store.pages ∨ a = row := by
    intro a ha
    rw [hstore] at ha
    rcases mem_append.mp ha with ha | ha
    · exact .inl ha
    · exact .inr (mem_singleton.mp ha)
  have honly : ∀ q ∈ d'.store.pages, q.isLatest = true → q.place = row.place → q = row := by
    intro q hq hql hqp
    rw [hstore] at hq hrow
    exact hpages.history.oneLatest q hq row hrow hql hlatest hqp
  have hresolve : ∀ ws proj path q, q ∈ d'.store.pages → q.isLatest →
      q.place = (ws, proj, path) → (d'.store.latestAt ws proj path).map (·.id) = some q.id := by
    intro ws proj path q hq hql hqp
    cases hfind : d'.store.latestAt ws proj path with
    | none =>
      rw [latestAt_none hfind q hq hqp] at hql
      cases hql
    | some q' =>
      obtain ⟨hq', hqp', hql'⟩ := latestAt_some hfind
      rw [hstore] at hq hq'
      rw [hpages.history.oneLatest q' hq' q hq hql' hql (hqp'.trans hqp.symm)]
      rfl
  -- before the refresh: an old link with an old source, or a link of the new
  -- version that was just resolved
  have hbefore : ∀ l ∈ delete (fun l => l.fromPageId = id) d.links ++ linkRows n d'.store id page,
      l.Stored ∧ ∃ r ∈ d'.store.pages, r.id = l.fromPageId ∧
        (∀ x, l.toPageId = some x → ∃ q ∈ d'.store.pages, q.id = x ∧ l.aim n r = some q.place) ∧
        ∀ q ∈ d'.store.pages, q.isLatest = true → l.aim n r = some q.place →
          q = row ∨ l.toPageId = some q.id := by
    intro l hl
    rcases mem_append.mp hl with hl | hl
    · obtain ⟨hl, -⟩ := mem_delete.mp hl
      obtain ⟨r, hr, hfrom⟩ := h.sourced l hl
      refine ⟨h.stored l hl, r, hold r hr, hfrom, fun x hx => ?_, fun q hq hql haim => ?_⟩
      · obtain ⟨q, hq, hqid, haim⟩ := h.aimed l hl r hr hfrom x hx
        exact ⟨q, hold q hq, hqid, haim⟩
      · rcases hcases q hq with hq | rfl
        · exact .inr (h.latest l hl r hr hfrom q hq hql haim)
        · exact .inl rfl
    · obtain ⟨hfrom, hstored, hto⟩ := mem_linkRows hl
      have hscope : ∀ ws proj path, l.aim n row = some (ws, proj, path) ↔
          linkScope n page.workspaceId page.projectId l.target = some (ws, proj) ∧
            l.toPath = path := by
        intro ws proj path
        simp only [PageRow.place, Prod.mk.injEq] at hplace
        rw [LinkRow.aim, hplace.1, hplace.2.1, Option.map_eq_some_iff]
        simp only [Prod.mk.injEq, Prod.exists]
        constructor
        · rintro ⟨a, b, hab, rfl, rfl, hpath⟩
          exact ⟨hab, hpath⟩
        · rintro ⟨hab, hpath⟩
          exact ⟨ws, proj, hab, rfl, rfl, hpath⟩
      refine ⟨hstored, row, hrow, hrowid.trans hfrom.symm, fun x hx => ?_, fun q hq hql haim => ?_⟩
      · rw [hto, latestPageIdForLink, Option.bind_eq_some_iff] at hx
        obtain ⟨⟨ws, proj⟩, hws, hx⟩ := hx
        obtain ⟨q, hfind, hqid⟩ := Option.map_eq_some_iff.mp hx
        obtain ⟨hq, hqp, -⟩ := latestAt_some hfind
        refine ⟨q, hq, hqid, ?_⟩
        rw [hqp]
        exact (hscope ws proj _).mpr ⟨hws, rfl⟩
      · obtain ⟨hws, hpath⟩ := (hscope q.workspaceId q.projectId q.path).mp haim
        right
        rw [hto, latestPageIdForLink, hws, Option.bind_some]
        refine hresolve _ _ _ q hq hql ?_
        rw [PageRow.place]
        exact Prod.ext rfl (Prod.ext rfl hpath.symm)
  rw [refreshIncomingLinks_eq] at hlinks
  have hafter : ∀ l' ∈ d'.links, ∃ l ∈ delete (fun l => l.fromPageId = id) d.links ++
      linkRows n d'.store id page, l'.fromPageId = l.fromPageId ∧
        (l.Stored → l'.Stored) ∧ (∀ r, l'.aim n r = l.aim n r) ∧
        ((aims n d'.store page.toNewPage l ∧ l'.toPageId = some id) ∨
          aims n d'.store page.toNewPage l = false ∧ l'.toPageId = l.toPageId) := by
    intro l' hl'
    rw [hlinks] at hl'
    obtain ⟨l, hl, rfl⟩ := mem_update.mp hl'
    refine ⟨l, hl, ?_⟩
    by_cases haims : aims n d'.store page.toNewPage l
    · rw [if_pos haims]
      exact ⟨rfl, fun hs => hs, fun _ => rfl, .inl ⟨haims, rfl⟩⟩
    · rw [if_neg haims]
      exact ⟨rfl, fun hs => hs, fun _ => rfl, .inr ⟨by simpa using haims, rfl⟩⟩
  refine ⟨by rw [hstore]; exact hpages, by rw [hstore]; exact h.projects, ?_, ?_, ?_, ?_⟩
  · intro l' hl'
    obtain ⟨l, hl, hfrom, -⟩ := hafter l' hl'
    obtain ⟨-, r, hr, hid, -⟩ := hbefore l hl
    exact ⟨r, hr, hid.trans hfrom.symm⟩
  · intro l' hl'
    obtain ⟨l, hl, -, hst, -⟩ := hafter l' hl'
    exact hst (hbefore l hl).1
  · intro l' hl' r hr hfrom x hx
    obtain ⟨l, hl, hfrom', -, haim, hto⟩ := hafter l' hl'
    obtain ⟨hst, r₀, hr₀, hid₀, haimed, -⟩ := hbefore l hl
    have hsame : r = r₀ := hkeys.eq hr hr₀ (hfrom.trans (hfrom'.trans hid₀.symm))
    subst hsame
    rw [haim]
    rcases hto with ⟨haims, hto⟩ | ⟨-, hto⟩
    · rw [hto, Option.some.injEq] at hx
      refine ⟨row, hrow, hrowid.trans hx, ?_⟩
      rw [hplace]
      exact (aims_iff hkeys hpaired hr hid₀ hst).mp haims
    · exact haimed x (hto ▸ hx)
  · intro l' hl' r hr hfrom q hq hql haim'
    obtain ⟨l, hl, hfrom', -, haim, hto⟩ := hafter l' hl'
    obtain ⟨hst, r₀, hr₀, hid₀, -, hlive⟩ := hbefore l hl
    have hsame : r = r₀ := hkeys.eq hr hr₀ (hfrom.trans (hfrom'.trans hid₀.symm))
    subst hsame
    rw [haim] at haim'
    have hiff := aims_iff hkeys hpaired hr hid₀ hst
    by_cases hqrow : q = row
    · rw [hqrow, hplace] at haim'
      rcases hto with ⟨-, hto⟩ | ⟨hno, -⟩
      · rw [hto, hqrow, hrowid]
      · rw [hiff.mpr haim'] at hno
        cases hno
    · rcases hto with ⟨haims, -⟩ | ⟨-, hto⟩
      · -- the link names the place written, whose only latest version is new
        rw [hiff.mp haims, ← hplace, Option.some.injEq] at haim'
        exact absurd (honly q hq hql haim'.symm) hqrow
      · rw [hto]
        exact (hlive q hq hql haim').resolve_left hqrow

variable {C : IndexCodec} {d d' : Indexed}

lemma mem_rows_of_paired (hproj : s.projects = n.rows) {row : PageRow} {s' : Store}
    (h : s.insertPage row = .ok s') : ⟨row.projectId, row.workspaceId⟩ ∈ n.rows := by
  unfold insertPage at h
  split at h
  · cases h
  · rename_i hpaired
    rw [Bool.not_eq_true', Bool.not_eq_false, paired, any_eq_true] at hpaired
    obtain ⟨p, hp, hmatch⟩ := hpaired
    simp only [Bool.and_eq_true, decide_eq_true_eq] at hmatch
    rw [hproj] at hp
    rw [← hmatch.1, ← hmatch.2]
    exact hp

lemma linkInv_write {base s : Store} {now : ℤ}
    {supersedes : Option PageId} {entityLinks : List EntityLinkRow} (h : LinkInv n d)
    (hbase : Demotes base d.store) (hpages : PageInv base.pages) (hdone : PageInv d'.store.pages)
    (hs : base.insertPage (pageVersion C.toPageCodec page.toNewPage supersedes id now) = .ok s)
    (hix : Indexes n s d.links entityLinks page id now d') : LinkInv n d' := by
  obtain ⟨hstore, hlinks, -⟩ := hix
  have hdem : LinkInv n { d with store := base } := h.demote hbase hpages
  have hpaired := mem_rows_of_paired hdem.projects hs
  obtain ⟨hins, -⟩ := insertPage_ok hs
  rw [← hstore] at hlinks
  refine hdem.write rfl rfl rfl hpaired ?_ (hstore.trans hins) hlinks
  rw [hstore, hins] at hdone
  exact hdone

lemma linkInv_upsert {id id' : PageId} {now entityNow : ℤ} {tie : ℕ}
    {mint : String → EntityId} (h : LinkInv n d)
    (hok : upsertPageIndexed n C d page id now entityNow tie mint = .ok (id', d')) :
    LinkInv n d' := by
  obtain ⟨hrows, hcases⟩ := upsertPageIndexed_ok hok
  have hdone := upsertPage_inv h.pages hrows
  rcases hcases with rfl | ⟨existing, hlatest, s, hs, hix⟩ | ⟨-, s, hs, hix⟩
  · exact h
  · refine linkInv_write h ?_ ?_ hdone hs hix
    · exact demotes_update (fun _ => rfl) (fun _ => rfl) (fun _ hl => by cases hl)
    · obtain ⟨hmem, -, hlive⟩ := latestAt_some hlatest
      have hhead : existing.head := by
        rw [PageRow.head, hlive]
        rfl
      have hdemoted := h.pages.demote (f := fun r => { r with isLatest := false, validTo := some now })
        hmem hhead (fun _ => rfl) (fun _ => rfl) (fun _ => rfl)
        (by simp [PageRow.head, h.pages.live existing hmem hlive])
      exact hdemoted.1
  · cases htomb : d.store.mostRecentTombstoneAtPath page.toNewPage tie with
    | none =>
      rw [htomb] at hs
      exact linkInv_write h (demotes_refl _) h.pages hdone hs hix
    | some r =>
      rw [htomb] at hs
      refine linkInv_write h ?_ ?_ hdone hs hix
      · exact demotes_update (fun _ => rfl) (fun _ => rfl) (fun _ hl => hl)
      · obtain ⟨hmem, -, hb⟩ := mem_newestTombstones (mem_of_getElem? htomb)
        simp only [PageRow.tombstone, Bool.and_eq_true, Bool.not_eq_true'] at hb
        have hhead : r.head := by
          rw [PageRow.head, hb.2, Bool.or_true]
        have hdemoted := h.pages.demote (f := fun r => { r with supersededAt := none })
          hmem hhead (fun _ => rfl) (fun _ => rfl) (fun _ => rfl) (by simp [PageRow.head, hb.1])
        exact hdemoted.1

lemma linkInv_softDelete (h : LinkInv n d) (ws : WorkspaceId) (proj : ProjectId) (path : String)
    (expected : PageId) (now : ℤ) :
    LinkInv n (softDeleteIndexed d ws proj path expected now).2 := by
  refine h.demote ?_ (softDeleteIfLatest_inv h.pages ws proj path expected now)
  exact demotes_update (fun _ => rfl) (fun _ => rfl) (fun _ hl => by cases hl)

lemma linkInv_deletePages (h : LinkInv n d) (ws : WorkspaceId) (proj : ProjectId)
    (p : PageRow → Bool) : LinkInv n (deletePagesIndexed d ws proj p) := by
  have hkeys := h.pages.chained.keys
  -- a version goes exactly when it matches
  have hgone : ∀ a ∈ d.store.pages,
      (d.store.pages.any fun r => p r && decide (r.id = a.id)) = p a := by
    intro a ha
    rw [Bool.eq_iff_iff, any_eq_true]
    constructor
    · rintro ⟨b, hb, hmatch⟩
      rw [Bool.and_eq_true, decide_eq_true_eq] at hmatch
      rw [← hkeys.eq hb ha hmatch.2]
      exact hmatch.1
    · exact fun hpa => ⟨a, ha, by simp [hpa]⟩
  have hback : ∀ a' ∈ (d.store.deletePages p).pages, ∃ a ∈ d.store.pages, p a = false ∧
      a'.id = a.id ∧ a'.place = a.place ∧ a'.isLatest = a.isLatest := by
    intro a' ha'
    obtain ⟨a, ha, rfl⟩ := mem_update.mp ha'
    obtain ⟨ha, hpa⟩ := mem_delete.mp ha
    refine ⟨a, ha, hpa, ?_⟩
    split <;> exact ⟨rfl, rfl, rfl⟩
  have hforth : ∀ a ∈ d.store.pages, p a = false →
      ∃ a' ∈ (d.store.deletePages p).pages, a'.id = a.id ∧ a'.place = a.place := by
    intro a ha hpa
    refine ⟨_, mem_update.mpr ⟨a, mem_delete.mpr ⟨ha, hpa⟩, rfl⟩, ?_⟩
    split <;> exact ⟨rfl, rfl⟩
  have hlinks : ∀ l' ∈ (deletePagesIndexed d ws proj p).links, ∃ l ∈ d.links,
      l'.fromPageId = l.fromPageId ∧ (l.Stored → l'.Stored) ∧ (∀ r, l'.aim n r = l.aim n r) ∧
      (d.store.pages.any fun r => p r && decide (r.id = l.fromPageId)) = false ∧
      ((l'.toPageId = none ∧ ∃ x, l.toPageId = some x ∧
          (d.store.pages.any fun r => p r && decide (r.id = x))) ∨
        l'.toPageId = l.toPageId ∧ ∀ x, l.toPageId = some x →
          (d.store.pages.any fun r => p r && decide (r.id = x)) = false) := by
    intro l' hl'
    obtain ⟨l, hl, rfl⟩ := mem_update.mp hl'
    obtain ⟨hl, hfrom⟩ := mem_delete.mp hl
    refine ⟨l, hl, ?_⟩
    cases hto : l.toPageId with
    | none => exact ⟨rfl, fun hs => hs, fun _ => rfl, hfrom, .inr ⟨hto, by simp⟩⟩
    | some x =>
      rw [Option.any_some]
      by_cases hx : (d.store.pages.any fun r => p r && decide (r.id = x))
      · rw [if_pos hx]
        exact ⟨rfl, fun hs => hs, fun _ => rfl, hfrom, .inl ⟨rfl, x, rfl, hx⟩⟩
      · rw [if_neg hx]
        refine ⟨rfl, fun hs => hs, fun _ => rfl, hfrom, .inr ⟨hto, fun y hy => ?_⟩⟩
        rw [Option.some.injEq] at hy
        rw [← hy]
        simpa using hx
  refine ⟨h.pages.deletePages p, h.projects, ?_, ?_, ?_, ?_⟩
  · intro l' hl'
    obtain ⟨l, hl, hfrom, -, -, hkept, -⟩ := hlinks l' hl'
    obtain ⟨r, hr, hid⟩ := h.sourced l hl
    rw [← hid, hgone r hr] at hkept
    obtain ⟨r', hr', hid', -⟩ := hforth r hr hkept
    exact ⟨r', hr', hid'.trans (hid.trans hfrom.symm)⟩
  · intro l' hl'
    obtain ⟨l, hl, -, hst, -⟩ := hlinks l' hl'
    exact hst (h.stored l hl)
  · intro l' hl' r' hr' hfrom' x hx
    obtain ⟨l, hl, hfrom, -, haim, -, ⟨hnone, -⟩ | ⟨hto, hstays⟩⟩ := hlinks l' hl'
    · rw [hnone] at hx
      cases hx
    · rw [hto] at hx
      obtain ⟨r, hr, -, hid, hplace, -⟩ := hback r' hr'
      obtain ⟨q, hq, hqid, hqaim⟩ :=
        h.aimed l hl r hr (hid.symm.trans (hfrom'.trans hfrom)) x hx
      have hqstays := hstays x hx
      rw [← hqid, hgone q hq] at hqstays
      obtain ⟨q', hq', hqid', hqplace⟩ := hforth q hq hqstays
      refine ⟨q', hq', hqid'.trans hqid, ?_⟩
      rw [haim, LinkRow.aim_congr hplace, hqaim, hqplace]
  · intro l' hl' r' hr' hfrom' q' hq' hql haim'
    obtain ⟨l, hl, hfrom, -, haim, -, hto⟩ := hlinks l' hl'
    obtain ⟨r, hr, -, hid, hplace, -⟩ := hback r' hr'
    obtain ⟨q, hq, hpq, hqid, hqplace, hqlatest⟩ := hback q' hq'
    rw [haim, LinkRow.aim_congr hplace, hqplace] at haim'
    have hlive := h.latest l hl r hr (hid.symm.trans (hfrom'.trans hfrom)) q hq
      (hqlatest ▸ hql) haim'
    rcases hto with ⟨-, x, hx, hxgone⟩ | ⟨hto, -⟩
    · -- the page it points at is still there
      rw [hlive, Option.some.injEq] at hx
      rw [← hx, hgone q hq, hpq] at hxgone
      cases hxgone
    · rw [hto, hlive, hqid]

lemma linkInv_step (op : IndexOp) (h : LinkInv n d) : LinkInv n (indexStep n C d op) :=
  indexStep_elim (P := LinkInv n) op h (linkInv_upsert h) (linkInv_softDelete h)
    (linkInv_deletePages h)

/-- Every stored link agrees with resolving it again: it points at the live page
it resolves to, or, when it resolves to none, at none or at an old version. -/
def LinksResolved (n : Directory) (d : Indexed) : Prop :=
  ∀ l ∈ d.links, ∃ r ∈ d.store.pages, r.id = l.fromPageId ∧
    match latestPageIdForLink n d.store r.workspaceId r.projectId l.target with
    | some id => l.toPageId = some id
    | none => l.toPageId = none ∨ ∃ q ∈ d.store.pages, l.toPageId = some q.id ∧ q.isLatest = false

lemma LinkInv.resolved (h : LinkInv n d) : LinksResolved n d := by
  intro l hl
  obtain ⟨r, hr, hfrom⟩ := h.sourced l hl
  refine ⟨r, hr, hfrom, ?_⟩
  have haim : ∀ ws proj, linkScope n r.workspaceId r.projectId l.target = some (ws, proj) →
      l.aim n r = some (ws, proj, l.toPath) := by
    intro ws proj hscope
    rw [LinkRow.aim, hscope]
    rfl
  split
  · rename_i id hid
    rw [latestPageIdForLink, Option.bind_eq_some_iff] at hid
    obtain ⟨⟨ws, proj⟩, hscope, hid⟩ := hid
    obtain ⟨q, hfind, rfl⟩ := Option.map_eq_some_iff.mp hid
    obtain ⟨hq, hplace, hlive⟩ := latestAt_some hfind
    refine h.latest l hl r hr hfrom q hq hlive ?_
    rw [haim ws proj hscope, hplace]
    rfl
  · rename_i hnone
    cases hto : l.toPageId with
    | none => exact .inl rfl
    | some x =>
      obtain ⟨q, hq, hqid, hqaim⟩ := h.aimed l hl r hr hfrom x hto
      refine .inr ⟨q, hq, by rw [hqid], ?_⟩
      by_contra hlive
      rw [Bool.not_eq_false] at hlive
      -- a live page at the place it names would have been found
      rw [LinkRow.aim, Option.map_eq_some_iff] at hqaim
      obtain ⟨⟨ws, proj⟩, hscope, hplace⟩ := hqaim
      rw [latestPageIdForLink, hscope, Option.bind_some, Option.map_eq_none_iff] at hnone
      rw [latestAt_none hnone q hq hplace.symm] at hlive
      cases hlive

/-- After any sequence of page operations, in any projects, the stored links
agree with resolving every link again. -/
theorem link_index_resolved (n : Directory) (C : IndexCodec) (s : Store) (ops : List IndexOp) :
    LinksResolved n (exec (indexStep n C) (Indexed.start n s) ops) := by
  have hinv : LinkInv n (exec (indexStep n C) (Indexed.start n s) ops) :=
    exec_invariant (fun _ op h => linkInv_step op h) (linkInv_start s) ops
  exact hinv.resolved

end Store
