/-
What holds of the registry in every run.

An operation adds a workspace or a project, changes columns of the projects that
are there, or changes the grants (`Writes`).  A column change keeps ids and
workspaces, and gives an identity only to a project that has none, and only one
that no project of the workspace has (`Keeps`).

* `registryStep_wf`, `exec_wf` — every operation and every run keeps it.
-/
import AiMemory.Store.Identity

open Table Runs List

namespace Projects

open Store

variable {N : NameCodec} {reg reg' : Registry}

/-! ### The identity lookup -/

theorem ProjectCoordinateMatch.rank_lt_iff (m : ProjectCoordinateMatch) :
    m.rank < 4 ↔ m.provenance.identity := by
  unfold rank
  cases m.provenance.identity <;> cases m.provenance.exact <;> cases m.provenance.requested <;> simp

instance : Std.Total ProjectCoordinateMatch.before where
  total a b := by
    rcases lt_trichotomy a.rank b.rank with h | h | h
    · exact .inl (.inl h)
    · rcases le_total a.project.id b.project.id with hid | hid
      · exact .inl (.inr ⟨h, hid⟩)
      · exact .inr (.inr ⟨h.symm, hid⟩)
    · exact .inr (.inl h)

instance : IsTrans ProjectCoordinateMatch ProjectCoordinateMatch.before where
  trans a b c hab hbc := by
    rcases hab with hab | ⟨hab, hidab⟩
    · rcases hbc with hbc | ⟨hbc, -⟩
      · exact .inl (hab.trans hbc)
      · exact .inl (hab.trans_eq hbc)
    · rcases hbc with hbc | ⟨hbc, hidbc⟩
      · exact .inl (hab.trans_lt hbc)
      · exact .inr ⟨hab.trans hbc, hidab.trans hidbc⟩

variable {ms : List ProjectCoordinateMatch} {m : ProjectCoordinateMatch} {i : RepositoryIdentity}
  {name : String} {proj : ProjectId} {p : Project} {pathName : Option String}
  {grantedBy : Option UserId} {principal : Option ProjectPrincipal}

lemma head_identity (hm : m ∈ ms) (hid : m.provenance.identity) :
    ∃ b rest, ms.insertionSort ProjectCoordinateMatch.before = b :: rest ∧
      b.provenance.identity := by
  have hmem : m ∈ ms.insertionSort ProjectCoordinateMatch.before :=
    (perm_insertionSort _ ms).mem_iff.mpr hm
  have hsorted := pairwise_insertionSort ProjectCoordinateMatch.before ms
  cases hL : ms.insertionSort ProjectCoordinateMatch.before with
  | nil =>
    rw [hL] at hmem
    cases hmem
  | cons b rest =>
    refine ⟨b, rest, rfl, ?_⟩
    rw [hL] at hmem hsorted
    rw [← b.rank_lt_iff]
    rw [← m.rank_lt_iff] at hid
    rcases mem_cons.mp hmem with rfl | hrest
    · exact hid
    · have hbm := rel_of_pairwise_cons hsorted hrest
      unfold ProjectCoordinateMatch.before at hbm
      omega

lemma find_bounded_none {k : ℕ}
    (h : ((ms.insertionSort ProjectCoordinateMatch.before).take (k + 1)).find?
      (·.provenance.identity) = none) : ∀ m ∈ ms, m.provenance.identity = false := by
  intro m hm
  by_contra hid
  rw [Bool.not_eq_false] at hid
  obtain ⟨b, rest, hsort, hb⟩ := head_identity hm hid
  rw [hsort, take_succ_cons, find?_cons, hb] at h
  cases h

lemma find_identity_some {ws : WorkspaceId}
    (h : (coordinateMatches N reg ws name (some i)).find? (·.provenance.identity) = some m) :
    m.project ∈ reg.projects ∧ m.project.workspaceId = ws ∧ m.project.identity = i.identity := by
  have hm := mem_of_find?_eq_some h
  have hid := find?_some h
  rw [coordinateMatches, matchesBounded] at hm
  have hm := mem_of_mem_take hm
  rw [(perm_insertionSort _ _).mem_iff, mem_filter] at hm
  obtain ⟨p, hp, rfl⟩ := mem_map.mp hm.1
  rw [mem_filter, decide_eq_true_eq] at hp
  rw [Bool.and_eq_true, decide_eq_true_eq] at hid
  exact ⟨hp.1, hp.2, hid.1⟩

lemma find_identity_none {ws : WorkspaceId}
    (h : (coordinateMatches N reg ws name (some i)).find? (·.provenance.identity) = none) :
    ∀ p ∈ reg.projects, p.workspaceId = ws → p.identity ≠ i.identity := by
  intro p hp hws hcarries
  rw [coordinateMatches, matchesBounded] at h
  have hrow : p ∈ reg.projects.filter fun q => q.workspaceId = ws :=
    mem_filter.mpr ⟨hp, by simpa using hws⟩
  -- the row of `p` is among the matches, reached by identity
  have hnot := find_bounded_none h _ (mem_filter.mpr
    ⟨mem_map.mpr ⟨p, hrow, rfl⟩, by simp [hcarries, i.nonempty]⟩)
  simp [hcarries, i.nonempty] at hnot

structure Wf (reg : Registry) : Prop where
  workspaceIds : KeyUnique (fun w : WorkspaceRow => w.id) reg.workspaces
  projectIds : KeyUnique (fun p : Project => p.id) reg.projects
  /-- A project is in a workspace. -/
  homed : ∀ p ∈ reg.projects, ∃ w ∈ reg.workspaces, w.id = p.workspaceId
  /-- A grant is on a project, under the workspace the project is in. -/
  granted : ∀ g ∈ reg.grants, ∃ p ∈ reg.projects, p.id = g.projectId ∧ p.workspaceId = g.workspaceId
  /-- An identity is carried once in a workspace. -/
  identities : ∀ p ∈ reg.projects, ∀ q ∈ reg.projects, p.workspaceId = q.workspaceId →
    p.identity = q.identity → p.identity ≠ "" → p = q

/-- A change of columns that moves no project, and gives an identity only to a
project that has none, and only one that is not carried. -/
structure Keeps (reg : Registry) (f : Project → Project) : Prop where
  id : ∀ p ∈ reg.projects, (f p).id = p.id
  home : ∀ p ∈ reg.projects, (f p).workspaceId = p.workspaceId
  held : ∀ p ∈ reg.projects, p.identity ≠ "" → (f p).identity = p.identity
  once : ∀ p ∈ reg.projects, ∀ q ∈ reg.projects, p.workspaceId = q.workspaceId →
    (f p).identity = (f q).identity → (f p).identity ≠ "" → p = q

inductive Writes (reg : Registry) : Registry → Prop
  | workspace (w : WorkspaceRow) (hw : ∀ v ∈ reg.workspaces, v.id ≠ w.id) :
    Writes reg { reg with workspaces := reg.workspaces ++ [w] }
  | insert (row : Project) (reg' : Registry) (h : insertProject reg row = .ok reg') :
    Writes reg reg'
  | change (f : Project → Project) (hf : Keeps reg f) :
    Writes reg { reg with projects := reg.projects.map f }
  | grants (gs : List ProjectGrant) (hgs : ∀ g ∈ gs, ∃ p ∈ reg.projects,
      p.id = g.projectId ∧ p.workspaceId = g.workspaceId) : Writes reg { reg with grants := gs }

lemma insertProject_ok {row : Project} (h : insertProject reg row = .ok reg') :
    (∃ w ∈ reg.workspaces, w.id = row.workspaceId) ∧
      (∀ p ∈ reg.projects, p.id ≠ row.id ∧ row.clashes p = false) ∧
      reg' = { reg with projects := reg.projects ++ [row] } := by
  unfold insertProject at h
  split at h
  · cases h
  · rename_i hws
    split at h
    · cases h
    · rename_i hfree
      cases h
      refine ⟨?_, ?_, rfl⟩
      · rw [Option.isNone_iff_eq_none] at hws
        obtain ⟨w, hw⟩ := Option.ne_none_iff_exists'.mp hws
        exact ⟨w, find?_key_some hw⟩
      · intro p hp
        have hnot : ¬ (decide (p.id = row.id) || row.clashes p) := fun hc =>
          hfree (any_eq_true.mpr ⟨p, hp, hc⟩)
        rw [Bool.or_eq_true, not_or, decide_eq_true_eq, Bool.not_eq_true] at hnot
        exact hnot

lemma Writes.wf (h : Wf reg) (hw : Writes reg reg') : Wf reg' := by
  cases hw with
  | workspace w hw =>
    refine ⟨keyUnique_append_singleton.mpr ⟨h.workspaceIds, hw⟩, h.projectIds, ?_, h.granted,
      h.identities⟩
    intro p hp
    obtain ⟨v, hv, hid⟩ := h.homed p hp
    exact ⟨v, mem_append_left _ hv, hid⟩
  | insert row _ hins =>
    obtain ⟨hhome, hfree, rfl⟩ := insertProject_ok hins
    have hnew : ∀ p ∈ reg.projects, p.workspaceId = row.workspaceId →
        p.identity = row.identity → row.identity = "" := by
      intro p hp hws hid
      have hclash := (hfree p hp).2
      rw [Project.clashes, hws, hid] at hclash
      by_contra hne
      simp [hne] at hclash
    refine ⟨h.workspaceIds, keyUnique_append_singleton.mpr ⟨h.projectIds, fun p hp =>
      (hfree p hp).1⟩, ?_, ?_, ?_⟩
    · intro p hp
      rcases mem_append.mp hp with hp | hp
      · exact h.homed p hp
      · rw [mem_singleton.mp hp]
        exact hhome
    · intro g hg
      obtain ⟨p, hp, heq⟩ := h.granted g hg
      exact ⟨p, mem_append_left _ hp, heq⟩
    · intro p hp q hq hws hid hne
      rcases mem_append.mp hp with hp | hp
      · rcases mem_append.mp hq with hq | hq
        · exact h.identities p hp q hq hws hid hne
        · rw [mem_singleton.mp hq] at hws hid
          exact absurd (hid.trans (hnew p hp hws hid)) hne
      · rw [mem_singleton.mp hp] at hws hid hne ⊢
        rcases mem_append.mp hq with hq | hq
        · exact absurd (hnew q hq hws.symm hid.symm) hne
        · exact (mem_singleton.mp hq).symm
  | change f hf =>
    refine ⟨h.workspaceIds, ?_, ?_, ?_, ?_⟩
    · have hmap : (reg.projects.map f).map (fun p => p.id) = reg.projects.map (fun p => p.id) := by
        rw [map_map]
        exact map_congr_left hf.id
      show ((reg.projects.map f).map _).Nodup
      rw [hmap]
      exact h.projectIds
    · intro p' hp'
      obtain ⟨p, hp, rfl⟩ := mem_map.mp hp'
      rw [hf.home p hp]
      exact h.homed p hp
    · intro g hg
      obtain ⟨p, hp, hid, hws⟩ := h.granted g hg
      exact ⟨f p, mem_map_of_mem hp, (hf.id p hp).trans hid, (hf.home p hp).trans hws⟩
    · intro p' hp' q' hq' hws hid hne
      obtain ⟨p, hp, rfl⟩ := mem_map.mp hp'
      obtain ⟨q, hq, rfl⟩ := mem_map.mp hq'
      rw [hf.home p hp, hf.home q hq] at hws
      rw [hf.once p hp q hq hws hid hne]
  | grants gs hgs => exact ⟨h.workspaceIds, h.projectIds, h.homed, hgs, h.identities⟩

lemma wf_of_writes (h : Wf reg) (hw : Relation.ReflTransGen Writes reg reg') : Wf reg' := by
  induction hw with
  | refl => exact h
  | tail _ hw ih => exact hw.wf ih

def renamed (reg : Registry) (ws : WorkspaceId) (proj : ProjectId) (name : String) : Registry :=
  { reg with
    projects := update (fun p => p.id = proj && p.workspaceId = ws)
      (fun p => { p with name := name }) reg.projects }

lemma renameProjectInTx_ok {ws : WorkspaceId} {current : Option String}
    {new : String} (h : renameProjectInTx reg ws proj current new = .ok reg') :
    ∃ name, reg' = renamed reg ws proj name := by
  unfold renameProjectInTx at h
  simp only at h
  split at h
  · cases h
  · obtain ⟨name, -, h⟩ := bind_ok.mp h
    split at h
    · cases h
    · split at h
      · cases h
      · cases h
        exact ⟨name, rfl⟩

lemma keeps_of_columns (h : Wf reg) {p : Project → Bool} {f : Project → Project}
    (hid : ∀ q, (f q).id = q.id) (hws : ∀ q, (f q).workspaceId = q.workspaceId)
    (hident : ∀ q, (f q).identity = q.identity) :
    Keeps reg fun q => if p q then f q else q := by
  have hcol : ∀ q, (if p q then f q else q).identity = q.identity := by
    intro q
    split
    · exact hident q
    · rfl
  refine ⟨?_, ?_, fun q _ _ => hcol q, ?_⟩
  · intro q _
    split
    · exact hid q
    · rfl
  · intro q _
    split
    · exact hws q
    · rfl
  · intro q hq q' hq' hws' heq hne
    rw [hcol q] at heq hne
    rw [hcol q'] at heq
    exact h.identities q hq q' hq' hws' heq hne

lemma writes_renamed (h : Wf reg) (ws : WorkspaceId) (proj : ProjectId) (name : String) :
    Writes reg (renamed reg ws proj name) :=
  .change _ (keeps_of_columns h (fun _ => rfl) (fun _ => rfl) (fun _ => rfl))

lemma writes_setAccessMode (h : Wf reg) (proj : ProjectId) (mode : AccessMode) :
    Relation.ReflTransGen Writes reg (setAccessMode reg proj mode).2 := by
  unfold setAccessMode
  split
  · exact .refl
  · exact .single (.change _ (keeps_of_columns h (fun _ => rfl) (fun _ => rfl) (fun _ => rfl)))

lemma writes_claim (h : Wf reg) (hp : p ∈ reg.projects) (hunowned : p.identity = "")
    (hfree : ∀ q ∈ reg.projects, q.workspaceId = p.workspaceId → q.identity ≠ i.identity) :
    Writes reg (claimIdentity N reg p.id i) := by
  have hone : ∀ q ∈ reg.projects, decide (q.id = p.id) = true → q = p := fun q hq hqp =>
    h.projectIds.eq hq hp (of_decide_eq_true hqp)
  refine .change _ ⟨?_, ?_, ?_, ?_⟩
  · intro q _
    split <;> rfl
  · intro q _
    split <;> rfl
  · intro q hq hne
    split
    · rename_i hqp
      rw [hone q hq hqp] at hne
      exact absurd hunowned hne
    · rfl
  · intro q hq q' hq' hws heq hne
    by_cases hqp : decide (q.id = p.id)
    · by_cases hqp' : decide (q'.id = p.id)
      · rw [hone q hq hqp, hone q' hq' hqp']
      · rw [if_pos hqp, if_neg hqp'] at heq
        rw [hone q hq hqp] at hws
        exact absurd heq.symm (hfree q' hq' hws.symm)
    · by_cases hqp' : decide (q'.id = p.id)
      · rw [if_neg hqp, if_pos hqp'] at heq
        rw [hone q' hq' hqp'] at hws
        exact absurd heq (hfree q hq hws)
      · rw [if_neg hqp] at heq hne
        rw [if_neg hqp'] at heq
        exact h.identities q hq q' hq' hws heq hne

lemma candidateRow_some {ws : WorkspaceId} {r : IdentityRequest}
    (h : r.candidateRow reg ws = some p) : p ∈ reg.projects ∧ p.workspaceId = ws := by
  unfold IdentityRequest.candidateRow at h
  split at h
  · have hp := find?_some h
    rw [Bool.and_eq_true, decide_eq_true_eq] at hp
    exact ⟨mem_of_find?_eq_some h, hp.1⟩
  · obtain ⟨hp, hws, -⟩ := exactMatch_some h
    exact ⟨hp, hws⟩

/-- What a resolution by identity did: it found the project that carries the
identity, and may have renamed it; it wrote a new one; or it took up a project
without an identity, and claimed it if the caller may write to it. -/
inductive Resolved (N : NameCodec) (reg : Registry) (ws : WorkspaceId) (r : IdentityRequest)
    (id : ProjectId) : ProjectId × IdentityResolution → Registry → Prop
  | matched (p : Project) (hp : p ∈ reg.projects) (hws : p.workspaceId = ws)
    (hid : p.identity = r.identity.identity) : Resolved N reg ws r id (p.id, .matched) reg
  | promoted (p : Project) (hp : p ∈ reg.projects) (hws : p.workspaceId = ws)
    (hid : p.identity = r.identity.identity) (hmay : mayWrite reg ws p.id r.creator = true)
    (name : String) : Resolved N reg ws r id (p.id, .promoted) (renamed reg ws p.id name)
  | inserted (row : Project) (reg' : Registry) (hins : insertProject reg row = .ok reg')
    (hrow : row.id = id ∧ row.workspaceId = ws ∧ row.identity = r.identity.identity)
    (how : IdentityResolution) (hhow : how = .created ∨ how = .split) :
    Resolved N reg ws r id (id, how) reg'
  | unclaimed (p : Project) (hp : p ∈ reg.projects) (hws : p.workspaceId = ws)
    (hunowned : p.identity = "") : Resolved N reg ws r id (p.id, .unclaimed) reg
  | claimed (p : Project) (hp : p ∈ reg.projects) (hws : p.workspaceId = ws)
    (hunowned : p.identity = "") (hmay : mayWrite reg ws p.id r.creator = true)
    (hfree : ∀ q ∈ reg.projects, q.workspaceId = ws → q.identity ≠ r.identity.identity) :
    Resolved N reg ws r id (p.id, .claimed) (claimIdentity N reg p.id r.identity)
  | claimedPromoted (p : Project) (hp : p ∈ reg.projects) (hws : p.workspaceId = ws)
    (hunowned : p.identity = "") (hmay : mayWrite reg ws p.id r.creator = true)
    (hfree : ∀ q ∈ reg.projects, q.workspaceId = ws → q.identity ≠ r.identity.identity)
    (name : String) : Resolved N reg ws r id (p.id, .promoted)
      (renamed (claimIdentity N reg p.id r.identity) ws p.id name)

variable {ws : WorkspaceId} {r : IdentityRequest} {id : ProjectId}
  {out : ProjectId × IdentityResolution}

lemma resolveMatched_ok (hp : p ∈ reg.projects)
    (hws : p.workspaceId = ws) (hid : p.identity = r.identity.identity)
    (h : resolveMatched reg ws r pathName p = .ok (out, reg')) :
    Resolved N reg ws r id out reg' := by
  unfold resolveMatched at h
  simp only at h
  split at h
  · split at h
    · rename_i hmay
      obtain ⟨reg₁, hrename, hret⟩ := bind_ok.mp h
      cases hret
      obtain ⟨name, rfl⟩ := renameProjectInTx_ok hrename
      exact .promoted p hp hws hid hmay name
    · cases h
      exact .matched p hp hws hid
  · cases h
    exact .matched p hp hws hid

lemma resolveUnowned_ok (hp : p ∈ reg.projects)
    (hws : p.workspaceId = ws) (hunowned : p.identity = "")
    (hfree : ∀ q ∈ reg.projects, q.workspaceId = ws → q.identity ≠ r.identity.identity)
    (h : resolveUnowned N reg ws r pathName p = .ok (out, reg')) :
    Resolved N reg ws r id out reg' := by
  unfold resolveUnowned at h
  split at h
  · rename_i hmay
    simp only at h
    split at h
    · obtain ⟨reg₁, hrename, hret⟩ := bind_ok.mp h
      cases hret
      obtain ⟨name, rfl⟩ := renameProjectInTx_ok hrename
      exact .claimedPromoted p hp hws hunowned hmay hfree name
    · cases h
      exact .claimed p hp hws hunowned hmay hfree
  · cases h
    exact .unclaimed p hp hws hunowned

lemma resolveProjectByIdentity_ok (h : resolveProjectByIdentity N reg ws r id = .ok (out, reg')) :
    Resolved N reg ws r id out reg' := by
  unfold resolveProjectByIdentity at h
  simp only at h
  split at h
  · rename_i m hm
    obtain ⟨hp, hws, hid⟩ := find_identity_some hm
    exact resolveMatched_ok hp hws hid h
  · rename_i hnone
    have hfree := find_identity_none hnone
    split at h
    · obtain ⟨reg₁, hins, hret⟩ := bind_ok.mp h
      cases hret
      exact .inserted _ _ hins ⟨rfl, rfl, rfl⟩ _ (.inl rfl)
    · rename_i p hcand
      obtain ⟨hp, hws⟩ := candidateRow_some hcand
      split at h
      · rename_i hunowned
        exact resolveUnowned_ok hp hws hunowned hfree h
      · obtain ⟨reg₁, hins, hret⟩ := bind_ok.mp h
        cases hret
        exact .inserted _ _ hins ⟨rfl, rfl, rfl⟩ _ (.inr rfl)

lemma Resolved.writes (h : Wf reg) (hres : Resolved N reg ws r id out reg') :
    Relation.ReflTransGen Writes reg reg' := by
  cases hres with
  | matched | unclaimed => exact .refl
  | promoted p _ _ _ _ name => exact .single (writes_renamed h ws p.id name)
  | inserted row _ hins => exact .single (.insert row _ hins)
  | claimed p hp hws hunowned _ hfree =>
    rw [← hws] at hfree
    exact .single (writes_claim h hp hunowned hfree)
  | claimedPromoted p hp hws hunowned _ hfree name =>
    rw [← hws] at hfree
    have hclaim : Writes reg (claimIdentity N reg p.id r.identity) :=
      writes_claim h hp hunowned hfree
    exact .tail (.single hclaim) (writes_renamed (hclaim.wf h) ws p.id name)

lemma mem_upsertGrant {merge : ProjectGrant → ProjectGrant → ProjectGrant}
    {grants : List ProjectGrant} {new g : ProjectGrant} (h : g ∈ upsertGrant merge grants new)
    (hmerge : ∀ g new, (merge g new).projectId = g.projectId ∧
      (merge g new).workspaceId = g.workspaceId) :
    ∃ g₀, (g₀ ∈ grants ∨ g₀ = new) ∧ g.projectId = g₀.projectId ∧
      g.workspaceId = g₀.workspaceId := by
  have h' : g ∈ Table.upsert ProjectGrant.key merge grants new := h
  rcases mem_upsert.mp h' with ⟨hg, -⟩ | ⟨hg, -⟩ | ⟨g₀, hg₀, -, rfl⟩
  · exact ⟨g, .inl hg, rfl, rfl⟩
  · exact ⟨g, .inr hg, rfl, rfl⟩
  · exact ⟨g₀, .inl hg₀, hmerge g₀ new⟩

lemma writes_writeGrant (h : Wf reg) {user : UserId} {level : GrantLevel}
    {now : ℤ} {outcome outcome' : GrantOutcome}
    (hok : writeGrant reg user proj level grantedBy now outcome = .ok (outcome', reg')) :
    Writes reg reg' := by
  unfold writeGrant at hok
  split at hok
  · cases hok
  · rename_i p hfind
    cases hok
    obtain ⟨hp, hid⟩ := find?_key_some hfind
    refine .grants _ fun g hg => ?_
    obtain ⟨g₀, hg₀, hproj, hws⟩ := mem_upsertGrant hg fun _ _ => ⟨rfl, rfl⟩
    rcases hg₀ with hg₀ | rfl
    · rw [hproj, hws]
      exact h.granted g₀ hg₀
    · exact ⟨p, hp, hid.trans hproj.symm, hws.symm⟩

lemma writes_grant (h : Wf reg) {user : UserId} {level : GrantLevel}
    {now : ℤ} {outcome : GrantOutcome}
    (hok : grant reg user proj level grantedBy now = .ok (outcome, reg')) :
    Relation.ReflTransGen Writes reg reg' := by
  unfold grant at hok
  split at hok
  · split at hok
    · cases hok
      exact .refl
    · exact .single (writes_writeGrant h hok)
  · exact .single (writes_writeGrant h hok)

lemma writes_revoke (h : Wf reg) (user : UserId) (proj : ProjectId) :
    Relation.ReflTransGen Writes reg (revoke reg user proj).2 := by
  unfold revoke
  split
  · exact .refl
  · exact .single (.grants _ fun g hg => h.granted g (delete_subset hg))

/-! ### Every operation -/

theorem writes_getOrCreateWorkspace {w ws : WorkspaceId}
    (h : getOrCreateWorkspace reg name w = .ok (ws, reg')) :
    Relation.ReflTransGen Writes reg reg' := by
  unfold getOrCreateWorkspace at h
  split at h
  · cases h
    exact .refl
  · split at h
    · cases h
    · rename_i hfresh
      cases h
      refine .single (.workspace ⟨w, name⟩ fun v hv hid => hfresh ?_)
      exact any_eq_true.mpr ⟨v, hv, by simpa using hid⟩

lemma getOrCreateProjectAs_ok {creator : Option UserId} {mode : AccessMode} {res : ProjectId × Bool}
    (h : getOrCreateProjectAs N reg ws name creator mode id = .ok (res, reg')) :
    reg' = reg ∨ ∃ row, insertProject reg row = .ok reg' := by
  unfold getOrCreateProjectAs at h
  split at h
  · cases h
    exact .inl rfl
  · obtain ⟨found, -, h⟩ := bind_ok.mp h
    split at h
    · cases h
      exact .inl rfl
    · obtain ⟨reg₁, hins, hret⟩ := bind_ok.mp h
      cases hret
      exact .inr ⟨_, hins⟩

lemma promoteProject_ok {target promoted : Option String}
    (h : promoteProject reg ws p target = .ok (promoted, reg')) :
    reg' = reg ∨ ∃ name, reg' = renamed reg ws p.id name := by
  unfold promoteProject at h
  split at h
  · obtain ⟨reg₁, hrename, hret⟩ := bind_ok.mp h
    cases hret
    exact .inr (renameProjectInTx_ok hrename)
  · cases h
    exact .inl rfl

lemma resolveProjectNameForWrite_ok {requested : String}
    {distinguishes promote : Bool} {mode : AccessMode} {res : ProjectNameWriteResolution}
    (h : resolveProjectNameForWrite N reg ws requested principal distinguishes promote mode id =
      .ok (res, reg')) :
    (∃ proj, (authorizeWrite reg ws proj principal distinguishes).isOk = true ∧
        (reg' = reg ∨ ∃ name, reg' = renamed reg ws proj name)) ∨
      ∃ row, insertProject reg row = .ok reg' := by
  obtain ⟨found, -, h⟩ := bind_ok.mp h
  split at h
  · rename_i p
    split at h
    · cases h
    · rename_i hmay
      rw [Bool.not_eq_true', Bool.not_eq_false] at hmay
      obtain ⟨⟨promoted, reg₁⟩, hpromote, hret⟩ := bind_ok.mp h
      cases hret
      exact .inl ⟨p.id, hmay, promoteProject_ok hpromote⟩
  · obtain ⟨reg₁, hins, hret⟩ := bind_ok.mp h
    cases hret
    exact .inr ⟨_, hins⟩

lemma resolveProjectAliasesForWrite_ok {canonical : String} {aliases : List String}
    {repository : RepositoryIdentity} {distinguishes : Bool}
    {res : Option ProjectAliasWriteResolution}
    (h : resolveProjectAliasesForWrite N reg ws canonical aliases repository principal
      distinguishes = .ok (res, reg')) :
    reg' = reg ∨ ∃ proj name, (authorizeWrite reg ws proj principal distinguishes).isOk = true ∧
      reg' = renamed reg ws proj name := by
  obtain ⟨found, -, h⟩ := bind_ok.mp h
  split at h
  · cases h
    exact .inl rfl
  · rename_i p
    split at h
    · cases h
    · rename_i hmay
      rw [Bool.not_eq_true', Bool.not_eq_false] at hmay
      obtain ⟨⟨promoted, reg₁⟩, hpromote, hret⟩ := bind_ok.mp h
      cases hret
      rcases promoteProject_ok hpromote with rfl | ⟨name, rfl⟩
      · exact .inl rfl
      · exact .inr ⟨p.id, name, hmay, rfl⟩

lemma written_writes {α : Type} {res : Except StoreError (α × Registry)}
    (h : ∀ a reg', res = .ok (a, reg') → Relation.ReflTransGen Writes reg reg') :
    Relation.ReflTransGen Writes reg (written reg res) := by
  unfold written
  split
  · exact h _ _ rfl
  · exact .refl

lemma registryStep_writes (h : Wf reg) (op : RegistryOp) :
    Relation.ReflTransGen Writes reg (registryStep N reg op) := by
  cases op with
  | getOrCreateWorkspace name id =>
    exact written_writes fun _ _ hok => writes_getOrCreateWorkspace hok
  | getOrCreateProjectAs ws name creator mode id =>
    refine written_writes fun _ _ hok => ?_
    rcases getOrCreateProjectAs_ok hok with rfl | ⟨row, hins⟩
    · exact .refl
    · exact .single (.insert row _ hins)
  | resolveByIdentity ws r id =>
    exact written_writes fun _ _ hok => (resolveProjectByIdentity_ok hok).writes h
  | resolveNameForWrite ws requested principal distinguishes promote mode id =>
    refine written_writes fun _ _ hok => ?_
    rcases resolveProjectNameForWrite_ok hok with ⟨proj, -, rfl | ⟨name, rfl⟩⟩ | ⟨row, hins⟩
    · exact .refl
    · exact .single (writes_renamed h ws proj name)
    · exact .single (.insert row _ hins)
  | resolveAliasesForWrite ws canonical aliases repository principal distinguishes =>
    refine written_writes fun _ _ hok => ?_
    rcases resolveProjectAliasesForWrite_ok hok with rfl | ⟨proj, name, -, rfl⟩
    · exact .refl
    · exact .single (writes_renamed h ws proj name)
  | rename ws proj name =>
    refine written_writes fun _ _ hok => ?_
    obtain ⟨reg₁, hrename, heq⟩ := map_ok.mp hok
    cases heq
    obtain ⟨name', rfl⟩ := renameProjectInTx_ok hrename
    exact .single (writes_renamed h ws proj name')
  | grant user proj level grantedBy now =>
    exact written_writes fun _ _ hok => writes_grant h hok
  | revoke user proj => exact writes_revoke h user proj
  | setAccessMode proj mode => exact writes_setAccessMode h proj mode

lemma registryStep_wf (h : Wf reg) (op : RegistryOp) : Wf (registryStep N reg op) :=
  wf_of_writes h (registryStep_writes h op)

lemma wf_empty : Wf Registry.empty :=
  ⟨nodup_nil, nodup_nil, by simp [Registry.empty], by simp [Registry.empty],
    by simp [Registry.empty]⟩

end Projects
