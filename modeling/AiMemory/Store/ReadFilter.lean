/-
The list filter and the choke point, in every run of the database.

Both rules read the same rows, and they agree but for one project: the filter
always keeps the global preferences scope, while the choke point refuses it to a
stranger once it is restricted.  A merge of a restricted project into that scope
restricts it.
-/
import AiMemory.Store.MergeSteps
import AiMemory.Store.RegistryRuns

open Table Runs List

namespace Projects

open Store

variable {reg reg' : Registry}

/-! ### The two rules over the rows -/

def Holds (reg : Registry) (proj : ProjectId) (user : UserId) : Prop :=
  ∃ g ∈ reg.grants, g.projectId = proj ∧ g.userId = user

/-- The project is the global preferences scope, `default/_global`. -/
def IsGlobalScope (reg : Registry) (p : Project) : Prop :=
  p.name = globalScopeProject ∧ ∃ w ∈ reg.workspaces, w.id = p.workspaceId ∧
    w.name = defaultWorkspaceName

lemma findProject_of_mem (h : Wf reg) {p : Project} (hp : p ∈ reg.projects) :
    reg.findProject p.id = some p :=
  h.projectIds.find?_eq_some.mpr ⟨hp, rfl⟩

lemma readProjectRow_of_mem (h : Wf reg) {p : Project} (hp : p ∈ reg.projects) :
    ∃ reserved, readProjectRow reg p.id = ⟨p.accessMode, p.createdBy, reserved⟩ := by
  obtain ⟨w, hw, hid⟩ := h.homed p hp
  have hfind : reg.findWorkspace p.workspaceId = some w :=
    h.workspaceIds.find?_eq_some.mpr ⟨hw, hid⟩
  refine ⟨isReservedGlobal w.name p.name, ?_⟩
  rw [readProjectRow, findProject_of_mem h hp, Option.bind_some, hfind]
  rfl

lemma readGrant_isSome_iff (h : Wf reg) {p : Project} (hp : p ∈ reg.projects) (user : UserId) :
    (readGrant reg p.workspaceId p.id user).isSome ↔ Holds reg p.id user := by
  rw [readGrant, Option.isSome_map, find?_isSome]
  constructor
  · rintro ⟨g, hg, hkey⟩
    rw [decide_eq_true_eq, ProjectGrant.key, Prod.mk.injEq, Prod.mk.injEq] at hkey
    exact ⟨g, hg, hkey.2⟩
  · rintro ⟨g, hg, hproj, huser⟩
    obtain ⟨q, hq, hid, hws⟩ := h.granted g hg
    have hqp : q = p := h.projectIds.eq hq hp (hid.trans hproj)
    refine ⟨g, hg, ?_⟩
    rw [decide_eq_true_eq, ProjectGrant.key, hproj, huser, ← hws, hqp]

lemma authorize_read_iff (h : Wf reg) {p : Project} (hp : p ∈ reg.projects) (user : UserId) :
    authorizeProject (resolveProjectAuthz reg p.workspaceId p.id (.user user) true) .read = .ok () ↔
      p.accessMode ≠ .restricted ∨ p.createdBy = some user ∨ Holds reg p.id user := by
  obtain ⟨reserved, hrow⟩ := readProjectRow_of_mem h hp
  rw [authorizeProject, ProjectAuthz.authorize, resolveProjectAuthz, hrow]
  cases hmode : p.accessMode with
  | «open» => simp
  | restricted =>
    simp only [Bool.not_true, Bool.false_eq_true, if_false, reduceCtorEq, decide_false,
      Bool.and_false, ProjectPrincipal.user, Bool.false_or, decide_true, Bool.or_true, if_true,
      Option.bind_some, ne_eq, not_true_eq_false, false_or]
    rw [← readGrant_isSome_iff h hp user]
    by_cases hcreator : p.createdBy = some user
    · simp [hcreator]
    · cases hgrant : (readGrant reg p.workspaceId p.id user).isSome <;> simp [hcreator]

lemma readable_iff (h : Wf reg) {p : Project} (hp : p ∈ reg.projects) (user : UserId) :
    readableRepositoryFilter reg p.id (some user) ↔
      p.accessMode ≠ .restricted ∨ p.createdBy = some user ∨ Holds reg p.id user ∨
        IsGlobalScope reg p := by
  have hone : ∀ q ∈ reg.projects, q.id = p.id → q = p := fun q hq hid =>
    h.projectIds.eq hq hp hid
  have hown : (reg.projects.any fun op => op.id = p.id
      && (op.accessMode ≠ .restricted || op.createdBy = some user)) ↔
      p.accessMode ≠ .restricted ∨ p.createdBy = some user := by
    rw [any_eq_true]
    constructor
    · rintro ⟨q, hq, hmatch⟩
      rw [Bool.and_eq_true, decide_eq_true_eq] at hmatch
      rw [hone q hq hmatch.1] at hmatch
      simpa using hmatch.2
    · intro hp'
      exact ⟨p, hp, by simpa using hp'⟩
  have hglobal : (reg.projects.any fun gp => gp.id = p.id && gp.name = globalScopeProject
      && reg.workspaces.any fun gw => gw.id = gp.workspaceId
        && gw.name = defaultWorkspaceName) ↔ IsGlobalScope reg p := by
    rw [any_eq_true]
    constructor
    · rintro ⟨q, hq, hmatch⟩
      rw [Bool.and_eq_true, Bool.and_eq_true, decide_eq_true_eq, decide_eq_true_eq,
        any_eq_true] at hmatch
      obtain ⟨⟨hid, hname⟩, w, hw, hwmatch⟩ := hmatch
      rw [hone q hq hid] at hname hwmatch
      exact ⟨hname, w, hw, by simpa using hwmatch⟩
    · rintro ⟨hname, w, hw, hwid, hwname⟩
      refine ⟨p, hp, ?_⟩
      rw [Bool.and_eq_true, Bool.and_eq_true, decide_eq_true_eq, decide_eq_true_eq, any_eq_true]
      exact ⟨⟨rfl, hname⟩, w, hw, by simp [hwid, hwname]⟩
  have hgrants : (reg.grants.any fun pg => pg.projectId = p.id && pg.userId = user) ↔
      Holds reg p.id user := by
    simp [Holds]
  rw [readableRepositoryFilter, Option.all_some, readableRepositorySql, Bool.or_eq_true,
    Bool.or_eq_true, hown, hglobal, hgrants, or_assoc, or_assoc]

lemma mem_mergeGrants {source target : ProjectId} {g : ProjectGrant}
    (hg : g ∈ (mergeGrants reg source target).grants) :
    g.projectId ≠ source ∧ ∃ g₀ ∈ reg.grants, g.workspaceId = g₀.workspaceId ∧
      (g.projectId = g₀.projectId ∨ (g.projectId = target ∧ g₀.projectId = source)) := by
  obtain ⟨hg, hkept⟩ := mem_delete.mp hg
  refine ⟨of_decide_eq_false hkept, ?_⟩
  -- the invariant of the loop over the source's grants
  have hloop : ∀ (moved grants : List ProjectGrant),
      (∀ g ∈ moved, ∃ g₀ ∈ reg.grants, g.workspaceId = g₀.workspaceId ∧
        (g.projectId = g₀.projectId ∨ (g.projectId = target ∧ g₀.projectId = source))) →
      (∀ g ∈ grants, ∃ g₀ ∈ reg.grants, g.workspaceId = g₀.workspaceId ∧
        (g.projectId = g₀.projectId ∨ (g.projectId = target ∧ g₀.projectId = source))) →
      ∀ g ∈ moved.foldl (upsertGrant fun g new => { g with
          level := if g.level = .write || new.level = .write then .write else .read
          grantedAt := min g.grantedAt new.grantedAt }) grants,
        ∃ g₀ ∈ reg.grants, g.workspaceId = g₀.workspaceId ∧
          (g.projectId = g₀.projectId ∨ (g.projectId = target ∧ g₀.projectId = source)) := by
    intro moved
    induction moved with
    | nil => exact fun grants _ hgrants => hgrants
    | cons new moved ih =>
      intro grants hmoved hgrants
      refine ih _ (fun g hg => hmoved g (mem_cons_of_mem new hg)) fun g hg => ?_
      obtain ⟨g₁, hg₁, hproj, hws⟩ := mem_upsertGrant hg fun _ _ => ⟨rfl, rfl⟩
      rw [hproj, hws]
      rcases hg₁ with hg₁ | rfl
      · exact hgrants g₁ hg₁
      · exact hmoved g₁ mem_cons_self
  refine hloop _ _ ?_ ?_ g hg
  · intro g' hg'
    obtain ⟨g₀, hg₀, rfl⟩ := mem_map.mp hg'
    rw [mem_filter, decide_eq_true_eq] at hg₀
    exact ⟨g₀, hg₀.1, rfl, .inr ⟨rfl, hg₀.2⟩⟩
  · exact fun g' hg' => ⟨g', hg', rfl, .inl rfl⟩

lemma wf_merged (h : Wf reg) {ws : WorkspaceId} {source target : ProjectId}
    (hdiffer : source ≠ target)
    (hsource : (reg.projects.any fun p => p.id = source && p.workspaceId = ws))
    (htarget : (reg.projects.any fun p => p.id = target && p.workspaceId = ws)) :
    Wf (deleteProjectRows (mergeGrants (mergePolicy reg source target) source target) ws
      source) := by
  have hwrites : Writes reg (mergePolicy reg source target) :=
    .change _ (keeps_of_columns h (fun _ => rfl) (fun _ => rfl) (fun _ => rfl))
  have hpolicy := hwrites.wf h
  have hthere : ∀ proj, (reg.projects.any fun p => p.id = proj && p.workspaceId = ws) = true →
      ∃ p ∈ (mergePolicy reg source target).projects, p.id = proj ∧ p.workspaceId = ws := by
    intro proj hproj
    obtain ⟨p, hp, hmatch⟩ := any_eq_true.mp hproj
    rw [Bool.and_eq_true, decide_eq_true_eq, decide_eq_true_eq] at hmatch
    refine ⟨_, mem_map_of_mem hp, ?_⟩
    split <;> exact hmatch
  obtain ⟨s, hs, hsid, hsws⟩ := hthere source hsource
  obtain ⟨t, ht, htid, htws⟩ := hthere target htarget
  have hkept : ∀ p ∈ (mergePolicy reg source target).projects, p.id ≠ source →
      p ∈ delete (fun p => decide (p.id = source) && decide (p.workspaceId = ws))
        (mergePolicy reg source target).projects := by
    intro p hp hne
    exact mem_delete.mpr ⟨hp, by simp [hne]⟩
  refine ⟨hpolicy.workspaceIds, hpolicy.projectIds.delete, ?_, ?_, ?_⟩
  · exact fun p hp => hpolicy.homed p (delete_subset hp)
  · intro g hg
    have hg' : g ∈ (mergeGrants (mergePolicy reg source target) source target).grants := by
      unfold deleteProjectRows at hg
      simp only at hg
      split at hg
      · exact delete_subset hg
      · exact hg
    obtain ⟨hne, g₀, hg₀, hws, hproj⟩ := mem_mergeGrants hg'
    obtain ⟨p, hp, hid, hpws⟩ := hpolicy.granted g₀ hg₀
    rcases hproj with hproj | ⟨hproj, hproj₀⟩
    · exact ⟨p, hkept p hp (by rw [hid, ← hproj]; exact hne), hid.trans hproj.symm,
        hpws.trans hws.symm⟩
    · -- the grant came with the source, so its workspace is the one of both
      have hps : p = s := hpolicy.projectIds.eq hp hs (hid.trans (hproj₀.trans hsid.symm))
      refine ⟨t, hkept t ht (by rw [htid]; exact hdiffer.symm), htid.trans hproj.symm, ?_⟩
      rw [htws, hws, ← hpws, hps, hsws]
  · exact fun p hp q hq => hpolicy.identities p (delete_subset hp) q (delete_subset hq)

lemma wf_moved (h : Wf reg) {proj : ProjectId} {source target : WorkspaceId}
    (hok : moveProjectRows reg proj source target = .ok reg') : Wf reg' := by
  unfold moveProjectRows at hok
  simp only at hok
  split at hok
  · cases hok
  · rename_i hws
    split at hok
    · cases hok
    · split at hok
      · cases hok
      · rename_i p hfind
        split at hok
        · cases hok
        · rename_i hfree
          cases hok
          rw [Option.isNone_iff_eq_none] at hws
          obtain ⟨w, hw⟩ := Option.ne_none_iff_exists'.mp hws
          obtain ⟨hwmem, hwid⟩ := find?_key_some hw
          have hp := mem_of_find?_eq_some hfind
          have hmoves := find?_some hfind
          rw [Bool.and_eq_true, decide_eq_true_eq, decide_eq_true_eq] at hmoves
          -- only the row of `proj` moves, and it is `p`
          have hone : ∀ q ∈ reg.projects, q.id = proj → q = p := fun q hq hid =>
            h.projectIds.eq hq hp (hid.trans hmoves.1.symm)
          have hnew : ∀ q ∈ reg.projects, q.id ≠ proj → target = q.workspaceId →
              p.identity = q.identity → p.identity = "" := by
            intro q hq hne hws hid
            by_contra hnonempty
            refine hfree (any_eq_true.mpr ⟨q, hq, ?_⟩)
            simp [hne, Project.clashes, hws, hid, hid ▸ hnonempty]
          refine ⟨h.workspaceIds, h.projectIds.update fun _ => rfl, ?_, ?_, ?_⟩
          · intro q' hq'
            obtain ⟨q, hq, rfl⟩ := mem_update.mp hq'
            split
            · exact ⟨w, hwmem, hwid⟩
            · exact h.homed q hq
          · intro g' hg'
            obtain ⟨g, hg, rfl⟩ := mem_update.mp hg'
            obtain ⟨q, hq, hid, hqws⟩ := h.granted g hg
            refine ⟨_, mem_update.mpr ⟨q, hq, rfl⟩, ?_⟩
            by_cases hgp : g.projectId = proj
            · have hqp : q = p := hone q hq (hid.trans hgp)
              simp [hgp, hqp, hmoves]
            · simp [hgp, hid, hqws]
          · intro a' ha' b' hb' hws' hid' hne'
            obtain ⟨a, ha, rfl⟩ := mem_update.mp ha'
            obtain ⟨b, hb, rfl⟩ := mem_update.mp hb'
            by_cases hap : a.id = proj
            · by_cases hbp : b.id = proj
              · rw [hone a ha hap, hone b hb hbp]
              · exfalso
                rw [hone a ha hap] at hws' hid' hne'
                simp only [hmoves, hbp, decide_true, decide_false, Bool.and_self, Bool.false_and,
                  Bool.false_eq_true, if_true, if_false] at hws' hid' hne'
                exact hne' (hnew b hb hbp hws' hid')
            · by_cases hbp : b.id = proj
              · exfalso
                rw [hone b hb hbp] at hws' hid'
                simp only [hmoves, hap, decide_true, decide_false, Bool.and_self, Bool.false_and,
                  Bool.false_eq_true, if_true, if_false] at hws' hid' hne'
                exact hne' (hid'.trans (hnew a ha hap hws'.symm hid'.symm))
              · simp only [hap, hbp, decide_false, Bool.false_and, Bool.false_eq_true,
                  if_false] at hws' hid' hne' ⊢
                exact h.identities a ha b hb hws' hid' hne'

end Projects

namespace Database

open Store Projects

variable {E : Env} {db : Database}

/-! ### Runs -/

theorem deleteProjectRow_registry {ws : WorkspaceId} {proj : ProjectId} (h : db.present ws proj) :
    (db.deleteProjectRow ws proj).registry = deleteProjectRows db.registry ws proj := by
  rw [deleteProjectRow, if_pos h]

lemma onStore_registry (r : Except StoreError Store) : (db.onStore r).registry = db.registry := by
  cases r <;> rfl

lemma dbStep_registry_wf (h : Wf db.registry) (op : DbOp) : Wf (dbStep E db op).registry := by
  cases op with
  | pages n op => exact h
  | registry op => exact registryStep_wf h op
  | endSession sid page now | insertObservationKeyed obs key id now
  | admitEvent session obs filter key movedFrom id now | completeIngest proj key now =>
    exact (onStore_registry _).symm ▸ h
  | mergeProject n ws source target pages commit now draws =>
    refine dbStep_mergeProject (P := fun d => Wf d.registry) h fun _ merged _ hacc hmerged _ => ?_
    obtain ⟨index, index', streams, -, -, -, hthere, rfl⟩ := mergeStatements_ok hmerged
    rw [deleteProjectRow_registry hthere]
    exact wf_merged h hacc.differ hacc.sourceThere hacc.targetThere
  | moveProject proj source target =>
    exact dbStep_moveProject (P := fun d => Wf d.registry) h fun reg hreg _ => wf_moved h hreg
  | moveSession sid ws proj mode commit now =>
    exact dbStep_moveSession (P := fun d => Wf d.registry) h fun _ _ _ _ _ _ => h

lemma registry_wf (E : Env) (ops : List DbOp) : Wf (exec (dbStep E) empty ops).registry :=
  exec_invariant (I := fun db : Database => Wf db.registry)
    (fun _ op h => dbStep_registry_wf h op) wf_empty ops

/-- The filter and the choke point agree about a reading user and a project in
every state a run reaches, unless the project is the global preferences scope,
restricted, and the user neither created it nor holds a grant on it. -/
theorem read_filter_iff (E : Env) (ops : List DbOp) (user : UserId) (p : Project)
    (hp : p ∈ (exec (dbStep E) empty ops).registry.projects) :
    let reg := (exec (dbStep E) empty ops).registry
    ((readableRepositoryFilter reg p.id (some user) = true ↔
        authorizeProject (resolveProjectAuthz reg p.workspaceId p.id (.user user) true) .read =
          .ok ()) ↔
      ¬ (IsGlobalScope reg p ∧ p.accessMode = .restricted ∧ p.createdBy ≠ some user ∧
        ¬ Holds reg p.id user)) := by
  intro reg
  have hwf : Wf reg := registry_wf E ops
  rw [authorize_read_iff hwf hp user, readable_iff hwf hp user]
  tauto

/-- The global scope and a restricted project beside it; the user 7 is granted a
read on the latter. -/
def openScopes : List DbOp :=
  [.registry (.getOrCreateWorkspace "default" 0),
    .registry (.getOrCreateProjectAs 0 "_global" none .restricted 1),
    .registry (.getOrCreateProjectAs 0 "secret" (some 5) .restricted 2),
    .registry (.grant 7 2 .read none 0)]

theorem read_filter_iff_granted :
    (⟨2, 0, "secret", .restricted, some 5, "", none, "", ""⟩ : Project) ∈
        (exec (dbStep sampleEnv) empty openScopes).registry.projects ∧
      ((readableRepositoryFilter (exec (dbStep sampleEnv) empty openScopes).registry 2 (some 7) =
          true ↔
        authorizeProject (resolveProjectAuthz
          (exec (dbStep sampleEnv) empty openScopes).registry 0 2 (.user 7) true) .read = .ok ())) := by
  have hmem : (⟨2, 0, "secret", .restricted, some 5, "", none, "", ""⟩ : Project) ∈
      (exec (dbStep sampleEnv) empty openScopes).registry.projects := by
    decide +kernel
  refine ⟨hmem, (read_filter_iff sampleEnv openScopes 7 _ hmem).mpr fun hbad => ?_⟩
  exact absurd hbad.1.1 (by decide)

def mergedIntoGlobal : List DbOp :=
  openScopes ++ [.mergeProject noNames 0 2 1 [] true 9 sampleDraws]

/-- Then the lists of the user 8, who has no grant, keep the rows of the global
scope, and the choke point refuses that user. -/
theorem merged_global_scope :
    ∃ p ∈ (exec (dbStep sampleEnv) empty mergedIntoGlobal).registry.projects,
      readableRepositoryFilter (exec (dbStep sampleEnv) empty mergedIntoGlobal).registry p.id
          (some 8) = true ∧
        authorizeProject (resolveProjectAuthz
          (exec (dbStep sampleEnv) empty mergedIntoGlobal).registry p.workspaceId p.id (.user 8)
            true) .read = .error (.forbidden restrictedProjectForbidden) := by
  refine ⟨⟨1, 0, "_global", .restricted, none, "", none, "", ""⟩, ?_, ?_, ?_⟩ <;> decide +kernel

end Database
