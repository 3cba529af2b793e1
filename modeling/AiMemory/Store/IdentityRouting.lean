/-
Routing by repository identity is stable.

In every run of the registry an identity is carried by one project of a
workspace, a project keeps the identity it has, and a resolution that returned a
project carrying the identity is repeated by every later one.  The exception is
a project that the caller may not write to: it is returned unclaimed, for the
grant check to refuse, and the identity stays free.
-/
import AiMemory.Store.RegistryRuns

open Table Runs List
open Strings (isWhitespace)

namespace Projects

open Store

variable {N : NameCodec} {reg reg' : Registry} {ws : WorkspaceId} {r : IdentityRequest}
  {id : ProjectId} {out : ProjectId × IdentityResolution}

def Follows (reg reg' : Registry) : Prop :=
  ∀ p ∈ reg.projects, ∃ p' ∈ reg'.projects, p'.id = p.id ∧ p'.workspaceId = p.workspaceId ∧
    (p.identity ≠ "" → p'.identity = p.identity)

lemma Follows.refl (reg : Registry) : Follows reg reg :=
  fun p hp => ⟨p, hp, rfl, rfl, fun _ => rfl⟩

lemma Follows.trans {reg'' : Registry} (h : Follows reg reg') (h' : Follows reg' reg'') :
    Follows reg reg'' := by
  intro p hp
  obtain ⟨p', hp', hid, hws, hident⟩ := h p hp
  obtain ⟨p'', hp'', hid', hws', hident'⟩ := h' p' hp'
  refine ⟨p'', hp'', hid'.trans hid, hws'.trans hws, fun hne => ?_⟩
  have heq := hident hne
  rw [hident' (by rw [heq]; exact hne), heq]

lemma Writes.follows (hw : Writes reg reg') : Follows reg reg' := by
  cases hw with
  | workspace w _ | grants gs _ => exact Follows.refl reg
  | insert row _ hins =>
    obtain ⟨-, -, rfl⟩ := insertProject_ok hins
    exact fun p hp => ⟨p, mem_append_left _ hp, rfl, rfl, fun _ => rfl⟩
  | change f hf =>
    exact fun p hp => ⟨f p, mem_map_of_mem hp, hf.id p hp, hf.home p hp, hf.held p hp⟩

lemma follows_of_writes (hw : Relation.ReflTransGen Writes reg reg') : Follows reg reg' := by
  induction hw with
  | refl => exact Follows.refl reg
  | tail _ hw ih => exact ih.trans hw.follows

lemma registryStep_follows (h : Wf reg) (op : RegistryOp) :
    Follows reg (registryStep N reg op) :=
  follows_of_writes (registryStep_writes h op)

lemma exec_follows (h : Wf reg) (later : List RegistryOp) :
    Wf (exec (registryStep N) reg later) ∧ Follows reg (exec (registryStep N) reg later) :=
  exec_invariant (I := fun reg' => Wf reg' ∧ Follows reg reg')
    (fun _ op hI => ⟨registryStep_wf hI.1 op, hI.2.trans (registryStep_follows hI.1 op)⟩)
    ⟨h, Follows.refl reg⟩ later

lemma resolved_carries (hres : Resolved N reg ws r id out reg') :
    ∃ p ∈ reg'.projects, p.id = out.1 ∧ p.workspaceId = ws ∧
      ((out.2 ≠ .unclaimed ∧ p.identity = r.identity.identity) ∨
        (out.2 = .unclaimed ∧ p.identity = "")) := by
  cases hres with
  | matched p hp hws hid => exact ⟨p, hp, rfl, hws, .inl ⟨by simp, hid⟩⟩
  | promoted p hp hws hid hmay name =>
    refine ⟨_, mem_map_of_mem hp, ?_⟩
    rw [if_pos (by simp [hws])]
    exact ⟨rfl, hws, .inl ⟨by simp, hid⟩⟩
  | inserted row _ hins hrow how hhow =>
    obtain ⟨-, -, rfl⟩ := insertProject_ok hins
    obtain ⟨hid, hws, hident⟩ := hrow
    refine ⟨row, by simp, hid, hws, .inl ⟨?_, hident⟩⟩
    rcases hhow with rfl | rfl <;> simp
  | unclaimed p hp hws hunowned => exact ⟨p, hp, rfl, hws, .inr ⟨rfl, hunowned⟩⟩
  | claimed p hp hws hunowned hmay hfree =>
    refine ⟨_, mem_map_of_mem hp, ?_⟩
    rw [if_pos (by simp)]
    exact ⟨rfl, hws, .inl ⟨by simp, rfl⟩⟩
  | claimedPromoted p hp hws hunowned hmay hfree name =>
    refine ⟨_, mem_map_of_mem (mem_map_of_mem hp), ?_⟩
    rw [if_pos (by simp [hws])]
    exact ⟨by simp, by simp [hws], .inl ⟨by simp, by simp⟩⟩

/-! ### Names of identities -/

def NameCodec.carries (N : NameCodec) (c : Char) : Prop :=
  N.alphanumeric c = true ∨ c = '-' ∨ c = '_' ∨ c = '.'

lemma NameCodec.carries_plain {c : Char} (h : N.carries c) : c ≠ '/' ∧ isWhitespace c = false := by
  rcases h with h | rfl | rfl | rfl
  · exact N.plain c h
  all_goals decide

lemma foldl_pushNameChar_carries (raw out : Text) (hout : ∀ c ∈ out, N.carries c) :
    ∀ c ∈ raw.foldl (pushNameChar N) out, N.carries c := by
  induction raw generalizing out with
  | nil => exact hout
  | cons d raw ih =>
    refine ih _ fun c hc => ?_
    have hpushed : c ∈ out ∨
        c = if N.alphanumeric d || d = '-' || d = '_' || d = '.' then d else '-' := by
      unfold pushNameChar at hc
      generalize (if N.alphanumeric d || d = '-' || d = '_' || d = '.' then d else '-') = e at hc
      simp only at hc
      split at hc
      · exact .inl hc
      · simpa using hc
    rcases hpushed with hc | rfl
    · exact hout c hc
    · split
      · rename_i hkeep
        simpa [NameCodec.carries, or_assoc] using hkeep
      · exact .inr (.inl rfl)

lemma mem_trimDashes {s : Text} {c : Char} (h : c ∈ trimDashes s) : c ∈ s := by
  rw [trimDashes, mem_reverse] at h
  have h := (dropWhile_sublist _).mem h
  rw [mem_reverse] at h
  exact (dropWhile_sublist _).mem h

lemma projectNameFrom_plain (raw : Text) :
    projectNameFrom N raw ≠ "" ∧
      ∀ c ∈ (projectNameFrom N raw).toList, c ≠ '/' ∧ isWhitespace c = false := by
  unfold projectNameFrom
  simp only
  split
  · have hall : "repository".toList.all Char.isAlphanum := by decide
    exact ⟨by decide, fun c hc => alphanum_plain c (all_eq_true.mp hall c hc)⟩
  · rename_i hne
    constructor
    · intro hempty
      refine hne ?_
      have hlist := congrArg String.toList hempty
      simpa using hlist
    · intro c hc
      rw [String.toList_ofList] at hc
      exact NameCodec.carries_plain (foldl_pushNameChar_carries raw []
        (fun _ hd => absurd hd not_mem_nil) c (mem_trimDashes hc))

lemma validateProjectRename_ok {current new : String} (hne : new ≠ "")
    (hplain : ∀ c ∈ new.toList, c ≠ '/' ∧ isWhitespace c = false)
    (hnew : isProfileProject new = false) (hcurrent : isProfileProject current = false) :
    validateProjectRename current new = .ok new := by
  have hhead : ∀ s : Text, (∀ c ∈ s, isWhitespace c = false) → s.dropWhile isWhitespace = s := by
    intro s hs
    cases s with
    | nil => rfl
    | cons c s => rw [dropWhile_cons_of_neg (by simp [hs c mem_cons_self])]
  have htrim : String.ofList
      ((new.toList.dropWhile isWhitespace).reverse.dropWhile isWhitespace).reverse = new := by
    rw [hhead _ fun c hc => (hplain c hc).2, hhead _ fun c hc => (hplain c (mem_reverse.mp hc)).2,
      reverse_reverse, String.ofList_toList]
  have hslash : '/' ∉ new.toList := fun hmem => (hplain '/' hmem).1 rfl
  unfold validateProjectRename
  simp only [htrim]
  rw [if_neg hne, if_neg hslash, if_neg (by simp [hnew]), if_neg (by simp [hcurrent])]

variable {name : String} {p : Project} {proj : ProjectId} {G : ProjectId → Prop}

lemma pathStyleName_plain {i : RepositoryIdentity} (h : pathStyleName N i = some name) :
    name ≠ "" ∧ ∀ c ∈ name.toList, c ≠ '/' ∧ isWhitespace c = false := by
  unfold pathStyleName at h
  split at h
  · cases h
  · rw [Option.some.injEq] at h
    rw [← h]
    exact projectNameFrom_plain _

lemma canonicalNameAvailable_iff {identity : String} (hname : name ≠ "")
    (h : canonicalNameAvailable reg ws name identity) :
    ∀ q ∈ reg.projects, q.workspaceId = ws → q.name = name → q.identity = identity := by
  intro q hq hws hqname
  by_contra hne
  rw [canonicalNameAvailable, Bool.and_eq_true, Bool.not_eq_true', any_eq_false] at h
  refine h.1 q hq ?_
  simp [hws, hqname, hname, hne]

lemma rename_promotion (h : Wf reg) (hp : p ∈ reg.projects) (hws : p.workspaceId = ws)
    (hid : p.identity = r.identity.identity) (hname : r.pathName N reg ws = some name)
    (hnew : isProfileProject name = false) (hcurrent : isProfileProject p.name = false) :
    ∃ reg', renameProjectInTx reg ws p.id (some p.name) name = .ok reg' := by
  have hpath : pathStyleName N r.identity = some name ∧
      canonicalNameAvailable reg ws name r.identity.identity := by
    unfold IdentityRequest.pathName at hname
    split at hname
    · exact Option.filter_eq_some_iff.mp hname
    · cases hname
  obtain ⟨hne, hplain⟩ := pathStyleName_plain hpath.1
  have hfree := canonicalNameAvailable_iff hne hpath.2
  have hhere : (reg.projects.any fun q => q.id = p.id && q.workspaceId = ws) :=
    any_eq_true.mpr ⟨p, hp, by simp [hws]⟩
  have htaken : (reg.projects.any fun q => q.id ≠ p.id && q.workspaceId = ws && q.name = name) =
      false := by
    rw [any_eq_false]
    intro q hq hmatch
    rw [Bool.and_eq_true, Bool.and_eq_true, decide_eq_true_eq, decide_eq_true_eq,
      decide_eq_true_eq] at hmatch
    obtain ⟨⟨hqid, hqws⟩, hqname⟩ := hmatch
    have hqident := hfree q hq hqws hqname
    refine hqid ?_
    rw [h.identities q hq p hp (hqws.trans hws.symm) (hqident.trans hid.symm)
      (by rw [hqident]; exact r.identity.nonempty)]
  unfold renameProjectInTx
  simp only [Option.orElse_eq_orElse, Option.orElse_eq_or, Option.some_or]
  rw [validateProjectRename_ok hne hplain hnew hcurrent]
  refine ⟨renamed reg ws p.id name, bind_ok.mpr ⟨name, rfl, ?_⟩⟩
  rw [if_neg (by simp [hhere]), if_neg (by rw [htaken]; exact Bool.false_ne_true)]
  rfl

/-- Whatever is asked for, the project that carries the identity is returned. -/
theorem resolve_same (h : Wf reg) (hp : p ∈ reg.projects) (hws : p.workspaceId = ws)
    (hid : p.identity = r.identity.identity) {out : ProjectId × IdentityResolution}
    {reg' : Registry} (hok : resolveProjectByIdentity N reg ws r id = .ok (out, reg')) :
    out.1 = p.id := by
  unfold resolveProjectByIdentity at hok
  simp only at hok
  split at hok
  · rename_i m hm
    obtain ⟨hmp, hmws, hmid⟩ := find_identity_some hm
    have hmatch : m.project = p :=
      h.identities _ hmp p hp (hmws.trans hws.symm) (hmid.trans hid.symm)
        (by rw [hmid]; exact r.identity.nonempty)
    rw [hmatch, resolveMatched] at hok
    split at hok
    · split at hok
      · obtain ⟨reg₁, -, hret⟩ := bind_ok.mp hok
        cases hret
        rfl
      · cases hok
        rfl
    · cases hok
      rfl
  · rename_i hnone
    exact absurd hid (find_identity_none hnone p hp hws)

lemma resolve_again (h : Wf reg) (hp : p ∈ reg.projects) (hws : p.workspaceId = ws)
    (hid : p.identity = r.identity.identity) (hcurrent : isProfileProject p.name = false)
    (hnew : ∀ name, pathStyleName N r.identity = some name → isProfileProject name = false) :
    ∃ how reg', resolveProjectByIdentity N reg ws r id = .ok ((p.id, how), reg') := by
  unfold resolveProjectByIdentity
  simp only
  split
  · rename_i m hm
    obtain ⟨hmp, hmws, hmid⟩ := find_identity_some hm
    have hmatch : m.project = p :=
      h.identities _ hmp p hp (hmws.trans hws.symm) (hmid.trans hid.symm)
        (by rw [hmid]; exact r.identity.nonempty)
    rw [hmatch, resolveMatched]
    split
    · rename_i canonical hpromote
      split
      · have hname : r.pathName N reg ws = some canonical := by
          split at hpromote
          · obtain ⟨name, hname, htarget⟩ := Option.bind_eq_some_iff.mp hpromote
            unfold promotionTarget at htarget
            split at htarget
            · rename_i hcond
              rw [Option.some.injEq] at htarget
              rw [hname, ← htarget, hcond.2.1]
            · cases htarget
          · cases hpromote
        have hreserved : isProfileProject canonical = false := by
          refine hnew canonical ?_
          unfold IdentityRequest.pathName at hname
          split at hname
          · exact (Option.filter_eq_some_iff.mp hname).1
          · cases hname
        obtain ⟨reg', hrename⟩ := rename_promotion h hp hws hid hname hreserved hcurrent
        exact ⟨.promoted, reg', by rw [hrename]; rfl⟩
      · exact ⟨.matched, reg, rfl⟩
    · exact ⟨.matched, reg, rfl⟩
  · rename_i hnone
    exact absurd hid (find_identity_none hnone p hp hws)

/-! ### Who a resolution renames or claims for -/

def RegistryOp.resolves : RegistryOp → Bool
  | .getOrCreateProjectAs .. | .resolveByIdentity .. | .resolveNameForWrite ..
  | .resolveAliasesForWrite .. => true
  | _ => false

def CallerMayWrite (reg : Registry) (proj : ProjectId) : RegistryOp → Prop
  | .resolveByIdentity ws r _ => mayWrite reg ws proj r.creator = true
  | .resolveNameForWrite ws _ principal distinguishes _ _ _ =>
    (authorizeWrite reg ws proj principal distinguishes).isOk = true
  | .resolveAliasesForWrite ws _ _ _ principal distinguishes =>
    (authorizeWrite reg ws proj principal distinguishes).isOk = true
  | _ => False

/-- The row of `p` in a later registry is still as it was, or `G` holds. -/
def Untouched (reg reg' : Registry) (G : ProjectId → Prop) : Prop :=
  ∀ p ∈ reg.projects, ∀ p' ∈ reg'.projects, p'.id = p.id →
    (p'.name = p.name ∧ p'.identity = p.identity) ∨ G p.id

lemma untouched_refl (h : Wf reg) (G : ProjectId → Prop) : Untouched reg reg G := by
  intro p hp p' hp' hid
  rw [h.projectIds.eq hp' hp hid]
  exact .inl ⟨rfl, rfl⟩

lemma untouched_insert (h : Wf reg) {row : Project} (hins : insertProject reg row = .ok reg')
    (G : ProjectId → Prop) : Untouched reg reg' G := by
  obtain ⟨-, hfresh, rfl⟩ := insertProject_ok hins
  intro p hp p' hp' hid
  rcases mem_append.mp hp' with hp' | hp'
  · exact untouched_refl h G p hp p' hp' hid
  · rw [mem_singleton.mp hp'] at hid
    exact absurd hid.symm (hfresh p hp).1

lemma untouched_renamed (h : Wf reg) (ws : WorkspaceId) (name : String) (hG : G proj) :
    Untouched reg (renamed reg ws proj name) G := by
  intro p hp p' hp' hid
  have hrow := h.projectIds.update_eq hp hp' hid fun _ => rfl
  by_cases hproj : p.id = proj
  · rw [hproj]
    exact .inr hG
  · rw [hrow, if_neg (by simp [hproj])]
    exact .inl ⟨rfl, rfl⟩

lemma untouched_claimed (h : Wf reg) (i : RepositoryIdentity) (hG : G proj) :
    Untouched reg (claimIdentity N reg proj i) G := by
  intro p hp p' hp' hid
  have hrow := h.projectIds.update_eq hp hp' hid fun _ => rfl
  by_cases hproj : p.id = proj
  · rw [hproj]
    exact .inr hG
  · rw [hrow, if_neg (by simp [hproj])]
    exact .inl ⟨rfl, rfl⟩

lemma untouched_claimedPromoted (h : Wf reg) (ws : WorkspaceId) (i : RepositoryIdentity)
    (name : String) (hG : G proj) :
    Untouched reg (renamed (claimIdentity N reg proj i) ws proj name) G := by
  intro p hp p' hp' hid
  obtain ⟨q, hq, rfl⟩ := mem_update.mp hp'
  by_cases hproj : q.id = proj
  · refine .inr ?_
    have hpid : p.id = proj := by
      rw [← hid, ← hproj]
      split <;> rfl
    rw [hpid]
    exact hG
  · rw [if_neg (by simp [hproj])] at hid ⊢
    exact untouched_claimed h i hG p hp q hq hid

lemma untouched_written {α : Type} {res : Except StoreError (α × Registry)} (h : Wf reg)
    (hok : ∀ a reg', res = .ok (a, reg') → Untouched reg reg' G) :
    Untouched reg (written reg res) G := by
  unfold written
  split
  · exact hok _ _ rfl
  · exact untouched_refl h G

lemma renamed_by_writer (h : Wf reg) (op : RegistryOp) (hop : op.resolves) :
    Untouched reg (registryStep N reg op) fun proj => CallerMayWrite reg proj op := by
  cases op with
  | getOrCreateProjectAs ws name creator mode id =>
    refine untouched_written h fun a reg' hok => ?_
    rcases getOrCreateProjectAs_ok hok with rfl | ⟨row, hins⟩
    · exact untouched_refl h _
    · exact untouched_insert h hins _
  | resolveByIdentity ws r id =>
    refine untouched_written h fun a reg' hok => ?_
    cases resolveProjectByIdentity_ok hok with
    | matched | unclaimed => exact untouched_refl h _
    | promoted p _ _ _ hmay name => exact untouched_renamed h ws name hmay
    | inserted row _ hins => exact untouched_insert h hins _
    | claimed p _ _ _ hmay => exact untouched_claimed h r.identity hmay
    | claimedPromoted p _ _ _ hmay _ name =>
      exact untouched_claimedPromoted h ws r.identity name hmay
  | resolveNameForWrite ws requested principal distinguishes promote mode id =>
    refine untouched_written h fun a reg' hok => ?_
    rcases resolveProjectNameForWrite_ok hok with ⟨proj, hmay, rfl | ⟨name, rfl⟩⟩ | ⟨row, hins⟩
    · exact untouched_refl h _
    · exact untouched_renamed h ws name hmay
    · exact untouched_insert h hins _
  | resolveAliasesForWrite ws canonical aliases repository principal distinguishes =>
    refine untouched_written h fun a reg' hok => ?_
    rcases resolveProjectAliasesForWrite_ok hok with rfl | ⟨proj, name, hmay, rfl⟩
    · exact untouched_refl h _
    · exact untouched_renamed h ws name hmay
  | getOrCreateWorkspace name id | rename ws proj name | grant user proj level grantedBy now
  | revoke user proj | setAccessMode proj mode => cases hop

/-- Identity routing in every run, from an empty registry: an identity has one
project of a workspace, and a project keeps its identity; a resolution that did
not leave its project unclaimed is repeated, whatever name, candidate and style
are asked for, and refused only for names reserved for profiles; the returned project carries
the identity, or none and is unclaimed; and only a caller that may write to a
project has it renamed or claimed. -/
theorem identity_routing (N : NameCodec) (ops : List RegistryOp) :
    let reg := exec (registryStep N) Registry.empty ops
    (∀ p ∈ reg.projects, ∀ q ∈ reg.projects, p.workspaceId = q.workspaceId →
        p.identity = q.identity → p.identity ≠ "" → p = q) ∧
      (∀ (later : List RegistryOp), ∀ p ∈ reg.projects, p.identity ≠ "" →
        ∀ p' ∈ (exec (registryStep N) reg later).projects, p'.id = p.id →
          p'.identity = p.identity) ∧
      (∀ ws r id proj how reg', resolveProjectByIdentity N reg ws r id = .ok ((proj, how), reg') →
        how ≠ .unclaimed → ∀ (later : List RegistryOp) (r' : IdentityRequest) (id' : ProjectId),
          r'.identity.identity = r.identity.identity →
          (∀ proj' how' reg'',
            resolveProjectByIdentity N (exec (registryStep N) reg' later) ws r' id' =
              .ok ((proj', how'), reg'') → proj' = proj) ∧
          ((∀ p ∈ (exec (registryStep N) reg' later).projects, p.id = proj →
              isProfileProject p.name = false) →
            (∀ name, pathStyleName N r'.identity = some name → isProfileProject name = false) →
            ∃ how' reg'', resolveProjectByIdentity N (exec (registryStep N) reg' later) ws r' id' =
              .ok ((proj, how'), reg''))) ∧
      (∀ ws r id proj how reg', resolveProjectByIdentity N reg ws r id = .ok ((proj, how), reg') →
        ∀ p ∈ reg'.projects, p.id = proj → p.workspaceId = ws ∧
          (p.identity = r.identity.identity ∨ (how = .unclaimed ∧ p.identity = ""))) ∧
      (∀ op : RegistryOp, op.resolves = true → ∀ p ∈ reg.projects,
        ∀ p' ∈ (registryStep N reg op).projects, p'.id = p.id →
          p'.name ≠ p.name ∨ p'.identity ≠ p.identity → CallerMayWrite reg p.id op) := by
  intro reg
  have hwf : Wf reg := exec_invariant (I := Wf) (fun _ op h => registryStep_wf h op) wf_empty ops
  refine ⟨hwf.identities, ?_, ?_, ?_, ?_⟩
  · intro later p hp hne p' hp' hid
    obtain ⟨hwf', hfollows⟩ := exec_follows (N := N) hwf later
    obtain ⟨q, hq, hqid, -, hident⟩ := hfollows p hp
    rw [hwf'.projectIds.eq hp' hq (hid.trans hqid.symm)]
    exact hident hne
  · intro ws r id proj how reg' hok hclaimed later r' id' hsame
    have hres := resolveProjectByIdentity_ok hok
    obtain ⟨p, hp, hid, hws, hcarries⟩ := resolved_carries hres
    have hident : p.identity = r.identity.identity := by
      rcases hcarries with ⟨-, hident⟩ | ⟨hun, -⟩
      · exact hident
      · exact absurd hun hclaimed
    obtain ⟨hwf', hfollows⟩ := exec_follows (N := N) (wf_of_writes hwf (hres.writes hwf)) later
    obtain ⟨q, hq, hqid, hqws, hqident⟩ := hfollows p hp
    have hqi : q.identity = r'.identity.identity := by
      rw [hqident (by rw [hident]; exact r.identity.nonempty), hident, hsame]
    refine ⟨fun proj' how' reg'' hagain => ?_, fun hcurrent hnew => ?_⟩
    · exact (resolve_same hwf' hq (hqws.trans hws) hqi hagain).trans (hqid.trans hid)
    · obtain ⟨how', reg'', hagain⟩ := resolve_again hwf' hq (hqws.trans hws) hqi
        (hcurrent q hq (hqid.trans hid)) hnew
      rw [hqid.trans hid] at hagain
      exact ⟨how', reg'', hagain⟩
  · intro ws r id proj how reg' hok p hp hid
    have hres := resolveProjectByIdentity_ok hok
    obtain ⟨q, hq, hqid, hqws, hcarries⟩ := resolved_carries hres
    have hwf' := wf_of_writes hwf (hres.writes hwf)
    rw [hwf'.projectIds.eq hp hq (hid.trans hqid.symm)]
    refine ⟨hqws, ?_⟩
    rcases hcarries with ⟨-, hident⟩ | hun
    · exact .inl hident
    · exact .inr hun
  · intro op hop p hp p' hp' hid hchanged
    rcases renamed_by_writer hwf op hop p hp p' hp' hid with ⟨hname, hident⟩ | hmay
    · rcases hchanged with hchanged | hchanged
      · exact absurd hname hchanged
      · exact absurd hident hchanged
    · exact hmay

def teamRemote : RepositoryIdentity := ⟨"github.com/acme/api", .gitRemote, by decide⟩

def routeTeamRemote (name : String) (creator : Option UserId) : IdentityRequest :=
  ⟨teamRemote, .hostPath, false, name, none, creator, .open⟩

def unownedProject : List RegistryOp :=
  [.getOrCreateWorkspace "default" 0, .getOrCreateProjectAs 0 "api" (some 5) .restricted 1]

/-- An outsider's capture is routed to the team's project, unclaimed; a later
one of the same identity, from a folder of another name, is routed to a new
project. -/
theorem unclaimed_is_not_kept :
    let reg := exec (registryStep asciiNaming) Registry.empty unownedProject
    ∃ reg', resolveProjectByIdentity asciiNaming reg 0 (routeTeamRemote "api" (some 7)) 2 =
        .ok ((1, .unclaimed), reg') ∧
      ∃ reg'', resolveProjectByIdentity asciiNaming reg' 0 (routeTeamRemote "checkout" none) 3 =
        .ok ((3, .created), reg'') := by
  refine ⟨_, rfl, _, rfl⟩

end Projects
