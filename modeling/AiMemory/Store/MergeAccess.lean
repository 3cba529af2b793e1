/-
Who may enter a merged project.

A merge keeps the stricter of the two modes, but it unites the grants of both
projects and leaves the target to its creator.  So a user one of the two refused
can have a title to the other, and is then admitted to everything.
-/
import AiMemory.Store.ReadFilter

open Table Runs

namespace Projects

open Store

variable {reg : Registry} {ws : WorkspaceId} {source target : ProjectId} {user : UserId}
  {need : ProjectAccess}

/-- The project asks for a title before it lets anyone do this: it is restricted,
or it is a shared scope that is to be written. -/
def gated (facts : ProjectFacts) (need : ProjectAccess) : Bool :=
  facts.accessMode = .restricted || (facts.reservedGlobal && need = .write)

def granted (reg : Registry) (ws : WorkspaceId) (proj : ProjectId) (user : UserId) :
    ProjectAccess → Bool
  | .read => (readGrant reg ws proj user).isSome
  | .write => readGrant reg ws proj user = some .write

/-- A title is a grant of the level, or having created the project; the creator
of a shared scope has none to write it. -/
def entitled (reg : Registry) (ws : WorkspaceId) (proj : ProjectId) (user : UserId)
    (need : ProjectAccess) : Bool :=
  let facts := readProjectRow reg proj
  granted reg ws proj user need
    || (facts.creator = some user && !(facts.reservedGlobal && need = .write))

/-- The project's access check lets the user pass. -/
def Admits (reg : Registry) (ws : WorkspaceId) (proj : ProjectId) (user : UserId)
    (need : ProjectAccess) : Prop :=
  authorizeProject (resolveProjectAuthz reg ws proj (.user user) true) need = .ok ()

lemma authorize_iff {proj : ProjectId} : Admits reg ws proj user need ↔
    (gated (readProjectRow reg proj) need → entitled reg ws proj user need) := by
  unfold Admits authorizeProject ProjectAuthz.authorize resolveProjectAuthz entitled gated
  obtain ⟨mode, creator, reserved⟩ := readProjectRow reg proj
  cases hgrant : readGrant reg ws proj user with
  | none =>
    by_cases hcreator : creator = some user <;> cases mode <;> cases reserved <;> cases need <;>
      simp [granted, hgrant, hcreator, ProjectPrincipal.user]
  | some level =>
    by_cases hcreator : creator = some user <;> cases mode <;> cases reserved <;> cases need <;>
      cases level <;> simp [granted, hgrant, hcreator, ProjectPrincipal.user]

/-! ### The grants after a merge -/

theorem granted_iff (hkeys : KeyUnique ProjectGrant.key reg.grants) {proj : ProjectId} :
    granted reg ws proj user need ↔
      ∃ g ∈ reg.grants, g.key = (ws, proj, user) ∧ (need = .write → g.level = .write) := by
  have hread : ∀ g, reg.grants.find? (fun g => g.key = (ws, proj, user)) = some g ↔
      g ∈ reg.grants ∧ g.key = (ws, proj, user) := fun g => hkeys.find?_eq_some
  cases need with
  | read =>
    rw [granted, readGrant, Option.isSome_map, Option.isSome_iff_exists]
    constructor
    · rintro ⟨g, hg⟩
      exact ⟨g, ((hread g).mp hg).1, ((hread g).mp hg).2, by simp⟩
    · rintro ⟨g, hg, hkey, -⟩
      exact ⟨g, (hread g).mpr ⟨hg, hkey⟩⟩
  | write =>
    rw [granted, decide_eq_true_eq, readGrant, Option.map_eq_some_iff]
    constructor
    · rintro ⟨g, hg, hlevel⟩
      exact ⟨g, ((hread g).mp hg).1, ((hread g).mp hg).2, fun _ => hlevel⟩
    · rintro ⟨g, hg, hkey, hlevel⟩
      exact ⟨g, (hread g).mpr ⟨hg, hkey⟩, hlevel rfl⟩

def unitedGrant (g new : ProjectGrant) : ProjectGrant :=
  { g with
    level := if g.level = .write || new.level = .write then .write else .read
    grantedAt := min g.grantedAt new.grantedAt }

def carriedGrants (reg : Registry) (source target : ProjectId) : List ProjectGrant :=
  (reg.grants.filter fun g => g.projectId = source).map fun g => { g with projectId := target }

lemma mergeGrants_grants : (mergeGrants reg source target).grants =
    delete (fun g => g.projectId = source)
      ((carriedGrants reg source target).foldl (Table.upsert ProjectGrant.key unitedGrant)
        reg.grants) := rfl

lemma unitedGrant_key (g new : ProjectGrant) : (unitedGrant g new).key = g.key := rfl

lemma unitedGrant_level {g new : ProjectGrant} :
    (unitedGrant g new).level = .write ↔ g.level = .write ∨ new.level = .write := by
  rw [unitedGrant]
  cases g.level <;> cases new.level <;> simp

lemma carriedGrants_key (hkeys : KeyUnique ProjectGrant.key reg.grants) :
    KeyUnique ProjectGrant.key (carriedGrants reg source target) := by
  refine hkeys.map_filter fun a b ha hb hkey => ?_
  rw [decide_eq_true_eq] at ha hb
  simp only [ProjectGrant.key, Prod.mk.injEq] at hkey ⊢
  exact ⟨hkey.1, ha.trans hb.symm, hkey.2.2⟩

lemma mem_carriedGrants {n : ProjectGrant} : n ∈ carriedGrants reg source target ↔
    ∃ g ∈ reg.grants, g.projectId = source ∧ n = { g with projectId := target } := by
  rw [carriedGrants, List.mem_map]
  constructor
  · rintro ⟨g, hg, rfl⟩
    rw [List.mem_filter, decide_eq_true_eq] at hg
    exact ⟨g, hg.1, hg.2, rfl⟩
  · rintro ⟨g, hg, hsource, rfl⟩
    exact ⟨g, List.mem_filter.mpr ⟨hg, decide_eq_true hsource⟩, rfl⟩

lemma mergeGrants_keys (hkeys : KeyUnique ProjectGrant.key reg.grants) :
    KeyUnique ProjectGrant.key (mergeGrants reg source target).grants := by
  rw [mergeGrants_grants]
  exact (hkeys.foldl_upsert unitedGrant_key _).delete

lemma granted_mergeGrants (hkeys : KeyUnique ProjectGrant.key reg.grants)
    (hdiffer : source ≠ target) : granted (mergeGrants reg source target) ws target user need ↔
      granted reg ws target user need ∨ granted reg ws source user need := by
  have hmem : ∀ g : ProjectGrant, g.key = (ws, target, user) →
      (g ∈ (mergeGrants reg source target).grants ↔
        (g ∈ reg.grants ∧ ∀ n ∈ carriedGrants reg source target, g.key ≠ n.key) ∨
        (g ∈ carriedGrants reg source target ∧ ∀ r ∈ reg.grants, r.key ≠ g.key) ∨
        ∃ r ∈ reg.grants, ∃ n ∈ carriedGrants reg source target,
          r.key = n.key ∧ g = unitedGrant r n) := by
    intro g hkey
    have htarget : g.projectId = target := congrArg (·.2.1) hkey
    rw [mergeGrants_grants, mem_delete, mem_foldl_upsert unitedGrant_key (carriedGrants_key hkeys),
      htarget, decide_eq_false (Ne.symm hdiffer)]
    exact and_iff_left rfl
  have hcarried : ∀ g : ProjectGrant, g.key = (ws, source, user) →
      ({ g with projectId := target } : ProjectGrant).key = (ws, target, user) := by
    intro g hkey
    simp only [ProjectGrant.key, Prod.mk.injEq] at hkey ⊢
    exact ⟨hkey.1, trivial, hkey.2.2⟩
  rw [granted_iff (mergeGrants_keys hkeys), granted_iff hkeys, granted_iff hkeys]
  constructor
  · rintro ⟨g, hg, hkey, hlevel⟩
    rcases (hmem g hkey).mp hg with ⟨hold, -⟩ | ⟨hnew, -⟩ | ⟨r, hr, n, hn, hrn, rfl⟩
    · exact .inl ⟨g, hold, hkey, hlevel⟩
    · obtain ⟨g₀, hg₀, hsource, rfl⟩ := mem_carriedGrants.mp hnew
      simp only [ProjectGrant.key, Prod.mk.injEq] at hkey
      refine .inr ⟨g₀, hg₀, ?_, hlevel⟩
      rw [ProjectGrant.key, hkey.1, hsource, hkey.2.2]
    · obtain ⟨g₀, hg₀, hsource, rfl⟩ := mem_carriedGrants.mp hn
      rw [unitedGrant_key] at hkey
      have hkey₀ : g₀.key = (ws, source, user) := by
        rw [hkey] at hrn
        simp only [ProjectGrant.key, Prod.mk.injEq] at hrn ⊢
        exact ⟨hrn.1.symm, hsource, hrn.2.2.symm⟩
      -- the united grant is as high as the higher of the two
      by_cases hwrite : need = .write
      · rcases unitedGrant_level.mp (hlevel hwrite) with hr' | hn'
        · exact .inl ⟨r, hr, hkey, fun _ => hr'⟩
        · exact .inr ⟨g₀, hg₀, hkey₀, fun _ => hn'⟩
      · exact .inl ⟨r, hr, hkey, fun h => absurd h hwrite⟩
  · rintro (⟨g, hg, hkey, hlevel⟩ | ⟨g, hg, hkey, hlevel⟩)
    · by_cases hshared : ∃ n ∈ carriedGrants reg source target, g.key = n.key
      · obtain ⟨n, hn, hgn⟩ := hshared
        have hin := (hmem (unitedGrant g n) hkey).mpr (.inr (.inr ⟨g, hg, n, hn, hgn, rfl⟩))
        refine ⟨unitedGrant g n, hin, hkey, ?_⟩
        exact fun h => unitedGrant_level.mpr (.inl (hlevel h))
      · refine ⟨g, (hmem g hkey).mpr (.inl ⟨hg, fun n hn hgn => hshared ⟨n, hn, hgn⟩⟩), hkey, hlevel⟩
    · have hsource : g.projectId = source := congrArg (·.2.1) hkey
      have hn := mem_carriedGrants.mpr ⟨g, hg, hsource, (rfl : ({ g with projectId := target } :
        ProjectGrant) = _)⟩
      by_cases hshared : ∃ r ∈ reg.grants, r.key = (ws, target, user)
      · obtain ⟨r, hr, hrkey⟩ := hshared
        have hin := (hmem (unitedGrant r { g with projectId := target }) hrkey).mpr
          (.inr (.inr ⟨r, hr, _, hn, hrkey.trans (hcarried g hkey).symm, rfl⟩))
        refine ⟨_, hin, hrkey, ?_⟩
        exact fun h => unitedGrant_level.mpr (.inr (hlevel h))
      · refine ⟨_, (hmem _ (hcarried g hkey)).mpr (.inr (.inl ⟨hn, fun r hr hrkey => ?_⟩)),
          hcarried g hkey, hlevel⟩
        exact hshared ⟨r, hr, hrkey.trans (hcarried g hkey)⟩

def mergedRegistry (reg : Registry) (ws : WorkspaceId) (source target : ProjectId) : Registry :=
  deleteProjectRows (mergeGrants (mergePolicy reg source target) source target) ws source

lemma granted_merged (hkeys : KeyUnique ProjectGrant.key reg.grants) (hdiffer : source ≠ target) :
    granted (mergedRegistry reg ws source target) ws target user need ↔
      granted reg ws target user need ∨ granted reg ws source user need := by
  have hunited : KeyUnique ProjectGrant.key
      (mergeGrants (mergePolicy reg source target) source target).grants := mergeGrants_keys hkeys
  have hrest : (mergedRegistry reg ws source target).grants =
      (mergeGrants (mergePolicy reg source target) source target).grants := by
    have hgone : ∀ g ∈ (mergeGrants (mergePolicy reg source target) source target).grants,
        decide (g.projectId = source) = false := fun g hg => decide_eq_false (mem_mergeGrants hg).1
    change (if _ then _ else _) = _
    split
    · exact delete_eq_self hgone
    · rfl
  rw [granted_iff (by rw [hrest]; exact hunited), hrest, ← granted_iff hunited]
  exact granted_mergeGrants hkeys hdiffer

lemma merged_facts (h : Wf reg) (hdiffer : source ≠ target)
    (hsource : (reg.projects.any fun p => p.id = source && p.workspaceId = ws))
    (htarget : (reg.projects.any fun p => p.id = target && p.workspaceId = ws)) :
    readProjectRow (mergedRegistry reg ws source target) target = { readProjectRow reg target with
        accessMode :=
          if (readProjectRow reg target).accessMode = .restricted
            || (readProjectRow reg source).accessMode = .restricted then .restricted
          else .open } := by
  obtain ⟨t, ht, htmatch⟩ := List.any_eq_true.mp htarget
  obtain ⟨s, hs, hsmatch⟩ := List.any_eq_true.mp hsource
  rw [Bool.and_eq_true, decide_eq_true_eq, decide_eq_true_eq] at htmatch hsmatch
  have hmerged : Wf (mergedRegistry reg ws source target) := wf_merged h hdiffer hsource htarget
  obtain ⟨w, hw, hwid⟩ := h.homed t ht
  have hfind : reg.findWorkspace t.workspaceId = some w := h.workspaceIds.find?_eq_some.mpr ⟨hw, hwid⟩
  have hmode : accessModeOf reg source = some s.accessMode := by
    rw [accessModeOf, ← hsmatch.1, findProject_of_mem h hs]
    rfl
  -- the target's row, as the merge leaves it
  have hrow : ({ t with
      accessMode := if t.accessMode = .restricted || s.accessMode = .restricted then .restricted
        else .open } : Project) ∈ (mergedRegistry reg ws source target).projects := by
    refine mem_delete.mpr ⟨mem_update.mpr ⟨t, ht, ?_⟩, ?_⟩
    · rw [if_pos (decide_eq_true htmatch.1), hmode]
      simp
    · simp [htmatch.1, hdiffer.symm]
  have hreads : ∀ {reg' : Registry} {p : Project}, Wf reg' → p ∈ reg'.projects →
      reg'.workspaces = reg.workspaces → p.workspaceId = t.workspaceId →
      readProjectRow reg' p.id = ⟨p.accessMode, p.createdBy, isReservedGlobal w.name p.name⟩ := by
    intro reg' p h' hp hspaces hpws
    have hfind' : reg'.findWorkspace p.workspaceId = some w := by
      rw [Registry.findWorkspace, hspaces, hpws]
      exact hfind
    rw [readProjectRow, findProject_of_mem h' hp, Option.bind_some, hfind']
    rfl
  have hold := hreads h ht rfl rfl
  have hnew := hreads hmerged hrow rfl rfl
  have hold' := hreads h hs rfl (hsmatch.2.trans htmatch.2.symm)
  rw [htmatch.1] at hold
  rw [hsmatch.1] at hold'
  rw [show t.id = target from htmatch.1] at hnew
  rw [hnew, hold, hold']

/-- What a user must have for a merge not to let them do what one of the two
projects refused. -/
structure KeepsOut (reg : Registry) (ws : WorkspaceId) (source target : ProjectId) (user : UserId)
    (need : ProjectAccess) : Prop where
  /-- A title to the target goes with one to a source that asks for it. -/
  sourceTitle : gated (readProjectRow reg source) need = true →
    entitled reg ws target user need = true → entitled reg ws source user need = true
  /-- A grant on the source goes with a title to a target that asks for it. -/
  targetTitle : gated (readProjectRow reg target) need = true →
    granted reg ws source user need = true → entitled reg ws target user need = true
  /-- An open shared scope that goes into an open project which is none loses its
  gate, so that the user must have had a title to it. -/
  scope : gated (readProjectRow reg source) need = true →
    entitled reg ws source user need = true ∨
      (readProjectRow reg source).accessMode = .restricted ∨
        gated (readProjectRow reg target) need = true

lemma admits_merged_iff (h : Wf reg) (hkeys : KeyUnique ProjectGrant.key reg.grants)
    (hdiffer : source ≠ target)
    (hsource : (reg.projects.any fun p => p.id = source && p.workspaceId = ws))
    (htarget : (reg.projects.any fun p => p.id = target && p.workspaceId = ws)) :
    Admits (mergedRegistry reg ws source target) ws target user need ↔
      ((readProjectRow reg source).accessMode = .restricted ∨
          gated (readProjectRow reg target) need →
        entitled reg ws target user need ∨ granted reg ws source user need) := by
  have hgate : gated (readProjectRow (mergedRegistry reg ws source target) target) need ↔
      (readProjectRow reg source).accessMode = .restricted ∨
        gated (readProjectRow reg target) need := by
    rw [merged_facts h hdiffer hsource htarget, gated, gated]
    cases (readProjectRow reg source).accessMode <;> cases (readProjectRow reg target).accessMode <;>
      simp
  have htitle : entitled (mergedRegistry reg ws source target) ws target user need ↔
      entitled reg ws target user need ∨ granted reg ws source user need := by
    simp only [entitled, merged_facts h hdiffer hsource htarget, Bool.or_eq_true,
      granted_merged hkeys hdiffer]
    tauto
  rw [authorize_iff, hgate, htitle]

end Projects

namespace Database

open Store Projects

/-- A committed merge refuses a user whatever one of the two projects refused
them, exactly if titles to the one go with titles to the other. -/
theorem merge_keeps_refusals_iff (C : IndexCodec) (n : Directory) (db : Database)
    (h : Wf db.registry) (hkeys : KeyUnique ProjectGrant.key db.registry.grants)
    (ws : WorkspaceId) (source target : ProjectId) (pages : List MergeProjectPage) (now : ℤ)
    (draws : MergeDraws) (summary : MergeProjectSummary) (db' : Database)
    (hok : mergeProject C n db ws source target pages true now draws = .ok (summary, db'))
    (user : UserId) (need : ProjectAccess) :
    ((¬ Admits db.registry ws source user need ∨ ¬ Admits db.registry ws target user need →
        ¬ Admits db'.registry ws target user need) ↔
      KeepsOut db.registry ws source target user need) := by
  obtain ⟨hacc, merged, hmerged, rfl⟩ := mergeProject_ok hok
  obtain ⟨index, index', streams, -, -, -, hthere, rfl⟩ := mergeStatements_ok hmerged
  have hreg : ((mergedRows db source target index' streams).deleteProjectRow ws source).registry =
      mergedRegistry db.registry ws source target := by
    rw [deleteProjectRow_registry hthere]
    rfl
  rw [hreg, admits_merged_iff h hkeys hacc.differ hacc.sourceThere hacc.targetThere, authorize_iff,
    authorize_iff]
  -- a grant is a title
  have hgrant : granted db.registry ws source user need = true →
      entitled db.registry ws source user need = true := fun hgrant => by
    rw [entitled, hgrant, Bool.true_or]
  constructor
  · intro hkept
    rw [← not_and_or, not_imp_not] at hkept
    refine ⟨fun hgate htitle => (hkept fun _ => .inl htitle).1 hgate,
      fun hgate hheld => (hkept fun _ => .inr hheld).2 hgate, fun hgate => ?_⟩
    by_cases hclosed : (readProjectRow db.registry source).accessMode = .restricted ∨
        gated (readProjectRow db.registry target) need = true
    · exact .inr hclosed
    · exact .inl ((hkept fun hgated => absurd hgated hclosed).1 hgate)
  · rintro ⟨hsource, htarget, hscope⟩ (hrefused | hrefused) hadmits
    · obtain ⟨hgate, hnone⟩ := Classical.not_imp.mp hrefused
      rcases hscope hgate with htitle | hclosed
      · exact hnone htitle
      · rcases hadmits hclosed with htitle | hheld
        · exact hnone (hsource hgate htitle)
        · exact hnone (hgrant hheld)
    · obtain ⟨hgate, hnone⟩ := Classical.not_imp.mp hrefused
      rcases hadmits (.inr hgate) with htitle | hheld
      · exact hnone htitle
      · exact hnone (htarget hgate hheld)

/-- A restricted project and an open one beside it, of two creators; the user 8
is granted a write on the open one. -/
def secretAndNotes : List DbOp :=
  [.registry (.getOrCreateWorkspace "default" 0),
    .registry (.getOrCreateProjectAs 0 "secret" (some 5) .restricted 1),
    .registry (.getOrCreateProjectAs 0 "notes" (some 9) .open 2),
    .registry (.grant 8 2 .write none 0)]

/-- The user 6 has a title to neither, and stays out. -/
theorem merge_keeps_refusals_iff_stranger :
    ∃ summary db', mergeProject sampleEnv.codec noNames
        (exec (dbStep sampleEnv) empty secretAndNotes) 0 1 2 [] true 9 sampleDraws =
          .ok (summary, db') ∧ ¬ Admits db'.registry 0 2 6 .read := by
  cases hok : mergeProject sampleEnv.codec noNames
      (exec (dbStep sampleEnv) empty secretAndNotes) 0 1 2 [] true 9 sampleDraws with
  | error e =>
    have hdone : (mergeProject sampleEnv.codec noNames
        (exec (dbStep sampleEnv) empty secretAndNotes) 0 1 2 [] true 9 sampleDraws).isOk = true := by
      decide +kernel
    rw [hok] at hdone
    cases hdone
  | ok out =>
    refine ⟨out.1, out.2, rfl, ?_⟩
    refine (merge_keeps_refusals_iff sampleEnv.codec noNames _ (registry_wf sampleEnv secretAndNotes)
      (by decide +kernel) 0 1 2 [] 9 sampleDraws out.1 out.2 hok 6 .read).mpr ⟨?_, ?_, ?_⟩ (.inl ?_)
    · decide +kernel
    · decide +kernel
    · decide +kernel
    · unfold Admits
      decide +kernel

/-- The restricted project is merged into the open one: it refused the user 9, who
created the open one, and the user 8; the merged project admits both. -/
theorem merge_admits_refused :
    let db := exec (dbStep sampleEnv) empty secretAndNotes
    let db' := dbStep sampleEnv db (.mergeProject noNames 0 1 2 [] true 9 sampleDraws)
    (mergeProject sampleEnv.codec noNames db 0 1 2 [] true 9 sampleDraws).isOk = true ∧
      (¬ Admits db.registry 0 1 9 .read ∧ Admits db'.registry 0 2 9 .read) ∧
      ¬ Admits db.registry 0 1 8 .write ∧ Admits db'.registry 0 2 8 .write := by
  unfold Admits
  decide +kernel

end Database
