/-
One handoff call by any caller, and all that it can do to the table.

A call rewrites rows in place and adds at most one.  `Change` lists every way a
row can move, each with the conditions under which the code lets it; the
invariants of runs are read off that list.

* `Change`, `Adds`, `step_changes` — what a call does to the rows.
-/
import AiMemory.Store.Handoffs

open Table Runs List

namespace Handoffs

open Store
open Bool (not_eq_true not_eq_true' not_eq_false and_eq_true)

/-! ### Calls -/

/-- A call, with the clock readings and the fresh id it draws.  The last three
are what else happens to sessions in between. -/
inductive HandoffOp
  | insert (h : NewHandoff) (id : HandoffId) (now : ℤ)
  | checkpoint (h : NewHandoff) (id : HandoffId) (now : ℤ)
  | endWith (sid : SessionId) (summaryPageId : Option PageId) (h : NewHandoff) (id : HandoffId)
      (endedAt now : ℤ)
  | accept (a : HandoffAcceptance) (busySince : Option ℤ) (now : ℤ)
  | cancel (id : HandoffId) (ws : WorkspaceId) (proj : ProjectId) (filter : OwnerFilter)
  | expire (ws : WorkspaceId) (proj : ProjectId) (filter : OwnerFilter) (olderThan : Option ℤ)
  | endLifecycle (sid : SessionId) (now : ℤ)
  | beginSession (session : NewSession) (now : ℤ)
  | endSession (sid : SessionId) (now : ℤ)
  | capture (obs : NewObservation) (id : ObservationId) (now : ℤ)

inductive Answer
  | inserted (id : HandoffId)
  | checkpointed (id : Option HandoffId)
  | accepted (claimed : Bool)
  | cancelled (changed : Bool)
  | expired (changed : ℕ)
  | lifecycle (outcome : LifecycleEnd)
  | done
  | failed (e : StoreError)
  deriving DecidableEq

def commit {β : Type} (st : State) (answer : β → Answer) :
    Except StoreError (State × β) → State × Answer
  | .ok (st', b) => (st', answer b)
  | .error e => (st, .failed e)

def onStore (st : State) (x : Except StoreError Store) : Except StoreError (State × Unit) :=
  x.map fun s => ({ st with store := s }, ())

def call (v : String → Bool) (st : State) : HandoffOp → State × Answer
  | .insert h id now => commit st .inserted (insertHandoff v st h id now)
  | .checkpoint h id now => commit st .checkpointed (checkpointSessionHandoff v st h id now)
  | .endWith sid page h id endedAt now =>
    commit st .inserted (endSessionWithHandoff v st sid page h id endedAt now)
  | .accept a busySince now => commit st .accepted (acceptHandoff v st a busySince now)
  | .cancel id ws proj filter =>
    let (st', changed) := cancelHandoff st id ws proj filter
    (st', .cancelled changed)
  | .expire ws proj filter olderThan =>
    let (st', changed) := expireOpenHandoffs st ws proj filter olderThan
    (st', .expired changed)
  | .endLifecycle sid now => commit st .lifecycle (endLifecycleOnlySession st sid now)
  | .beginSession session now =>
    commit st (fun _ => .done) (onStore st (st.store.beginSession v session now))
  | .endSession sid now => commit st (fun _ => .done) (onStore st (st.store.endSession sid none now))
  | .capture obs id now =>
    commit st (fun _ => .done) (onStore st (st.store.insertObservation obs id now))

def step (v : String → Bool) (st : State) (op : HandoffOp) : State := (call v st op).1

def HandoffOp.publishes : HandoffOp → Option NewHandoff
  | .insert h _ _ => some h
  | .checkpoint h _ _ => some h
  | .endWith _ _ h _ _ _ => some h
  | _ => none

/-- The ways a call moves a row of the table `t`. -/
inductive Change (t : List HandoffRow) (op : HandoffOp) (r : HandoffRow) : HandoffRow → Prop
  | same : Change t op r r
  /-- An older baton from the directory of the one being published. -/
  | swept (h : NewHandoff) (hop : op.publishes = some h) (hopen : r.state = .open)
      (hscope : r.inScope h.workspaceId h.projectId = true) (howner : r.ownerUser = h.ownerUser)
      (hauto : r.fromSessionId.isSome) (hcwd : r.cwd = h.stored) : Change t op r r.expire
  /-- The session's own open baton. -/
  | refreshed (h : NewHandoff) (id : HandoffId) (now : ℤ) (sid : SessionId)
      (hop : op = .checkpoint h id now)
      (hown : ownBaton sid h.workspaceId h.projectId h.ownerUser r = true) :
    Change t op r (h.refresh now r)
  /-- The claim, by a receiver that holds no baton yet. -/
  | claimed (a : HandoffAcceptance) (busySince : Option ℤ) (now : ℤ)
      (hop : op = .accept a busySince now) (htarget : a.target r = true)
      (howner : a.ownerFilter.admits r.ownerUser = true)
      (hfree : ∀ sid, a.acceptingSession = some sid → holdsBaton t sid = false) :
    Change t op r (a.stamp now r)
  /-- An older baton of the owner whose baton is claimed. -/
  | superseded (a : HandoffAcceptance) (busySince : Option ℤ) (now : ℤ) (owner : Option String)
      (hop : op = .accept a busySince now) (hopen : r.state = .open)
      (hscope : r.inScope a.workspaceId a.projectId = true) (hauto : r.fromSessionId.isSome)
      (howner : r.ownerUser = owner) (hadmits : a.ownerFilter.admits owner = true) :
    Change t op r r.expire
  | cancelled (id : HandoffId) (ws : WorkspaceId) (proj : ProjectId) (filter : OwnerFilter)
      (hop : op = .cancel id ws proj filter) (hopen : r.state = .open)
      (howner : filter.admits r.ownerUser = true) : Change t op r r.expire
  | expired (ws : WorkspaceId) (proj : ProjectId) (filter : OwnerFilter) (olderThan : Option ℤ)
      (hop : op = .expire ws proj filter olderThan) (hopen : r.state = .open)
      (howner : filter.admits r.ownerUser = true) : Change t op r r.expire
  /-- The release of a baton held by the session that ends. -/
  | released (sid : SessionId) (now : ℤ) (hop : op = .endLifecycle sid now)
      (hheld : r.heldBy sid = true) : Change t op r r.release

/-- The rows a call adds: none, or the one it publishes, under a new id.  Of the
batons of its session, scope and owner only those from other directories are
left open; a checkpoint only adds where there are none. -/
def Adds (st : State) (op : HandoffOp) (g : HandoffRow → HandoffRow)
    (new : List HandoffRow) : Prop :=
  new = [] ∨ ∃ h id now, op.publishes = some h ∧ new = [h.row id now] ∧
    (∀ r ∈ st.handoffs, r.id ≠ id) ∧
    ∀ sid, h.fromSessionId = some sid → (st.store.findSession sid).isSome ∧
      ∀ r ∈ st.handoffs, ownBaton sid h.workspaceId h.projectId h.ownerUser r = true →
        (r.cwd = h.stored → g r = r.expire) ∧ ∀ id' now', op ≠ .checkpoint h id' now'

structure Changes (st : State) (op : HandoffOp) (g : HandoffRow → HandoffRow)
    (new t' : List HandoffRow) : Prop where
  table : t' = st.handoffs.map g ++ new
  change : ∀ r ∈ st.handoffs, Change st.handoffs op r (g r)
  adds : Adds st op g new

variable {v : String → Bool} {st : State}

lemma changes_refl (op : HandoffOp) : Changes st op id [] st.handoffs :=
  ⟨by simp, fun r _ => .same, .inl rfl⟩

variable {op : HandoffOp} {r : HandoffRow} {sid : SessionId} {h : NewHandoff} {s : Store} {now : ℤ}
  {id : HandoffId} {st' : State} {a : HandoffAcceptance} {busySince : Option ℤ}

lemma changes_update {p : HandoffRow → Bool} {f : HandoffRow → HandoffRow}
    (h : ∀ r ∈ st.handoffs, p r = true → Change st.handoffs op r (f r)) :
    Changes st op (fun r => if p r then f r else r) [] (update p f st.handoffs) := by
  refine ⟨by rw [append_nil, update], fun r hr => ?_, .inl rfl⟩
  by_cases hp : p r
  · rw [if_pos hp]
    exact h r hr hp
  · rw [if_neg hp]
    exact .same

/-! ### Publishing -/

theorem ownBaton_iff {ws : WorkspaceId} {proj : ProjectId} {owner : Option String} :
    ownBaton sid ws proj owner r ↔ r.fromSessionId = some sid ∧
      r.inScope ws proj ∧ r.ownerUser = owner ∧ r.state = .open := by
  simp [ownBaton, and_assoc]

lemma sameCwdSuperseded_iff {keep : Option HandoffId} :
    sameCwdSuperseded s h keep r ↔ r.inScope h.workspaceId h.projectId ∧
      r.state = .open ∧ r.cwd = h.stored ∧ r.ownerUser = h.ownerUser ∧
      (∀ id, keep = some id → id ≠ r.id) ∧
      ∃ sid, r.fromSessionId = some sid ∧ (h.fromSessionId = some sid ∨ isLive s sid = false) := by
  rw [sameCwdSuperseded]
  cases keep <;> cases hfrom : r.fromSessionId <;> simp [and_assoc]

def publishMove (s : Store) (h : NewHandoff) (r : HandoffRow) : HandoffRow :=
  if h.fromSessionId.isSome && sameCwdSuperseded s h none r then r.expire else r

lemma insertHandoffRow_ok {t t' : List HandoffRow}
    (hok : insertHandoffRow v s t h id now = .ok t') :
    t' = t.map (publishMove s h) ++ [h.row id now] ∧ (∀ r ∈ t, r.id ≠ id) ∧
      ∀ sid, h.fromSessionId = some sid → (s.findSession sid).isSome := by
  have hmoved : (if h.fromSessionId.isSome then expireSameCwdAutoHandoffs s t h none else t) =
      t.map (publishMove s h) := by
    cases hfrom : h.fromSessionId with
    | none =>
      have hstay : publishMove s h = fun r => r := by
        funext r
        simp [publishMove, hfrom]
      rw [hstay]
      simp
    | some sid =>
      have hsweep : publishMove s h = fun r =>
          if sameCwdSuperseded s h none r then r.expire else r := by
        funext r
        simp [publishMove, hfrom]
      rw [hsweep]
      rfl
  unfold insertHandoffRow at hok
  split at hok
  · cases hok
  simp only [hmoved] at hok
  split at hok
  · cases hok
  rename_i hkeys
  cases hok
  simp only [Bool.or_eq_true, not_or, not_eq_true, not_eq_true'] at hkeys
  obtain ⟨⟨-, hfresh⟩, hsession⟩ := hkeys
  refine ⟨rfl, fun r hr => ?_, fun sid hsid => ?_⟩
  · rw [any_eq_false] at hfresh
    have hmem : publishMove s h r ∈ t.map (publishMove s h) := mem_map_of_mem hr
    have hid : (publishMove s h r).id = r.id := by
      rw [publishMove]
      split <;> rfl
    have hne := hfresh _ hmem
    rw [hid] at hne
    simpa using hne
  · rw [hsid, Option.all_some, not_eq_false] at hsession
    exact hsession

lemma change_publishMove {t : List HandoffRow}
    (hop : op.publishes = some h) (r : HandoffRow) : Change t op r (publishMove s h r) := by
  rw [publishMove]
  split
  · rename_i hsweep
    rw [and_eq_true] at hsweep
    obtain ⟨hscope, hopen, hcwd, howner, -, sid, hfrom, -⟩ := sameCwdSuperseded_iff.mp hsweep.2
    exact .swept h hop hopen hscope howner (by rw [hfrom]; rfl) hcwd
  · exact .same

lemma publishMove_own (hsid : h.fromSessionId = some sid)
    (hown : ownBaton sid h.workspaceId h.projectId h.ownerUser r)
    (hcwd : r.cwd = h.stored) : publishMove s h r = r.expire := by
  obtain ⟨hfrom, hscope, howner, hopen⟩ := ownBaton_iff.mp hown
  have hsweep : sameCwdSuperseded s h none r :=
    sameCwdSuperseded_iff.mpr ⟨hscope, hopen, hcwd, howner, by simp, sid, hfrom, .inl hsid⟩
  rw [publishMove, hsid, hsweep]
  rfl

lemma insert_changes {id id' : HandoffId} (hok : insertHandoff v st h id now = .ok (st', id')) :
    st'.store = st.store ∧ ∃ g new, Changes st (.insert h id now) g new st'.handoffs := by
  obtain ⟨t', ht', hret⟩ := bind_ok.mp hok
  cases hret
  obtain ⟨htable, hfresh, hsession⟩ := insertHandoffRow_ok ht'
  refine ⟨rfl, publishMove st.store h, [h.row id now], htable,
    fun r _ => change_publishMove rfl r, .inr ⟨h, id, now, rfl, rfl, hfresh, ?_⟩⟩
  intro sid hsid
  refine ⟨hsession sid hsid, fun r _ hown => ⟨publishMove_own hsid hown, ?_⟩⟩
  intro id' now' hop
  cases hop

lemma endWith_changes {page : Option PageId} {id id' : HandoffId} {endedAt now : ℤ}
    (hok : endSessionWithHandoff v st sid page h id endedAt now = .ok (st', id')) :
    st.store.endSessionRow sid page endedAt = .ok st'.store ∧ h.fromSessionId = some sid ∧
      ∃ g new, Changes st (.endWith sid page h id endedAt now) g new st'.handoffs := by
  unfold endSessionWithHandoff at hok
  split at hok
  · cases hok
  rename_i hsource
  split at hok
  · cases hok
  rename_i r hr
  split at hok
  · cases hok
  split at hok
  · cases hok
  obtain ⟨s, hs, hok⟩ := bind_ok.mp hok
  obtain ⟨t', ht', hret⟩ := bind_ok.mp hok
  cases hret
  obtain ⟨htable, hfresh, -⟩ := insertHandoffRow_ok ht'
  have hfrom : h.fromSessionId = some sid := not_not.mp hsource
  refine ⟨hs, hfrom, publishMove s h, [h.row id now], htable,
    fun r _ => change_publishMove rfl r, .inr ⟨h, id, now, rfl, rfl, hfresh, ?_⟩⟩
  intro sid' hsid'
  rw [hfrom, Option.some.injEq] at hsid'
  subst hsid'
  refine ⟨by rw [hr]; rfl, fun r _ hown => ⟨publishMove_own hfrom hown, ?_⟩⟩
  intro id' now' hop
  cases hop

lemma checkpoint_store {out : Option HandoffId}
    (hok : checkpointSessionHandoff v st h id now = .ok (st', out)) :
    st'.store = st.store := by
  unfold checkpointSessionHandoff at hok
  split at hok
  · cases hok
  split at hok
  · cases hok
    rfl
  split at hok
  · cases hok
  simp only at hok
  split at hok
  · cases hok
    rfl
  · obtain ⟨t', -, hret⟩ := bind_ok.mp hok
    cases hret
    rfl

lemma checkpoint_changes {out : Option HandoffId}
    (hok : checkpointSessionHandoff v st h id now = .ok (st', out))
    (hkeyed : KeyUnique (fun r : HandoffRow => r.id) st.handoffs) :
    ∃ g new, Changes st (.checkpoint h id now) g new st'.handoffs := by
  unfold checkpointSessionHandoff at hok
  split at hok
  · cases hok
  rename_i sid hsid
  split at hok
  · cases hok
    exact ⟨_, _, changes_refl _⟩
  rename_i live hlive
  split at hok
  · cases hok
  rename_i hscope
  rw [not_or, not_or, not_not, not_not, not_not] at hscope
  obtain ⟨hws, hproj, howner⟩ := hscope
  simp only [hws, hproj, howner] at hok
  split at hok
  · rename_i mine hmine
    cases hok
    have hmem := argmax_mem hmine
    rw [mem_filter] at hmem
    obtain ⟨hin, hown⟩ := hmem
    refine ⟨fun r => if r.id = mine.id && r.state = .open then h.refresh now r
      else if sameCwdSuperseded st.store h (some mine.id) r then r.expire else r, [], ?_, ?_,
      .inl rfl⟩
    · rw [append_nil, refreshHandoffRow, expireSameCwdAutoHandoffs, update, update, map_map]
      refine map_congr_left fun r _ => ?_
      rw [Function.comp_apply]
      by_cases hsweep : sameCwdSuperseded st.store h (some mine.id) r
      · -- the baton being refreshed is spared by the sweep
        have hne : r.id ≠ mine.id := by
          obtain ⟨-, -, -, -, hkeep, -⟩ := sameCwdSuperseded_iff.mp hsweep
          exact fun heq => hkeep mine.id rfl heq.symm
        have hexp : r.expire.id ≠ mine.id := hne
        simp [hsweep, hne, hexp]
      · simp [hsweep]
    · intro r hr
      by_cases hid : (r.id = mine.id && r.state = .open)
      · rw [if_pos hid]
        rw [and_eq_true, decide_eq_true_eq] at hid
        have hsame : r = mine := hkeyed.eq hr hin hid.1
        rw [hsame]
        exact .refreshed h id now sid rfl hown
      · rw [if_neg hid]
        by_cases hsweep : sameCwdSuperseded st.store h (some mine.id) r
        · rw [if_pos hsweep]
          obtain ⟨hsc, hopen, hcwd, hown', -, sid', hfrom, -⟩ := sameCwdSuperseded_iff.mp hsweep
          exact .swept h rfl hopen hsc hown' (by rw [hfrom]; rfl) hcwd
        · rw [if_neg hsweep]
          exact .same
  · rename_i hnone
    obtain ⟨t', ht', hret⟩ := bind_ok.mp hok
    cases hret
    obtain ⟨htable, hfresh, hsession⟩ := insertHandoffRow_ok ht'
    refine ⟨publishMove st.store h, [h.row id now], htable,
      fun r _ => change_publishMove rfl r, .inr ⟨h, id, now, rfl, rfl, hfresh, ?_⟩⟩
    intro sid' hsid'
    rw [hsid, Option.some.injEq] at hsid'
    subst hsid'
    refine ⟨hsession sid hsid, fun r hr hown => ?_⟩
    rw [argmax_eq_none, filter_eq_nil_iff] at hnone
    exact absurd hown (hnone r hr)

/-! ### Claiming -/

def revived (s : Store) (sid : SessionId) : Store :=
  { s with
    sessions := update (fun r => r.id = sid) (fun r => { r with endedAt := none }) s.sessions }

/-- An ended receiver that holds no baton, of an agent that reuses the id: the
claim opens its row again. -/
def Revives (v : String → Bool) (st : State) (a : HandoffAcceptance) (sid : SessionId) : Prop :=
  a.acceptingUser.all v = true ∧ operatorAgrees a.ownerFilter a.acceptingUser = true ∧
    a.acceptingSession = some sid ∧ reusesSessionIdAfterEnd a.acceptingAgent = true ∧
    holdsBaton st.handoffs sid = false ∧
    ∃ r, st.store.findSession sid = some r ∧ r.workspaceId = a.workspaceId ∧
      r.projectId = a.projectId ∧ r.agentKind = a.acceptingAgent ∧ r.endedAt.isSome

lemma admitReceiver_ok (huser : a.acceptingUser.all v)
    (hagrees : operatorAgrees a.ownerFilter a.acceptingUser)
    (h : admitReceiver st a = .ok (some s)) :
    (∀ sid, a.acceptingSession = some sid → holdsBaton st.handoffs sid = false) ∧
      (s = st.store ∨ ∃ sid, Revives v st a sid ∧ s = revived st.store sid) := by
  unfold admitReceiver at h
  split at h
  · rename_i hnone
    cases h
    exact ⟨fun sid hsid => (by rw [hnone] at hsid; cases hsid), .inl rfl⟩
  rename_i sid hsid
  have hfree : holdsBaton st.handoffs sid = false →
      ∀ sid', a.acceptingSession = some sid' → holdsBaton st.handoffs sid' = false := by
    intro hf sid' hsid'
    rw [hsid, Option.some.injEq] at hsid'
    rwa [← hsid']
  split at h
  · cases h
  rename_i r hr
  split at h
  · cases h
  rename_i hscope
  rw [not_or, not_or, not_not, not_not, not_not] at hscope
  split at h
  · cases h
  rename_i hholds
  rw [not_eq_true] at hholds
  split at h
  · cases h
    exact ⟨hfree hholds, .inl rfl⟩
  rename_i hended
  split at h
  · rename_i hreuses
    cases h
    refine ⟨hfree hholds, .inr ⟨sid, ⟨huser, hagrees, hsid, hreuses, hholds, r, hr, hscope.1,
      hscope.2.1, hscope.2.2, ?_⟩, rfl⟩⟩
    rw [Option.isNone_iff_eq_none] at hended
    exact Option.isSome_iff_ne_none.mpr hended
  · cases h

/-- The claim can go through: the baton is open in its scope, its source is not
in use, and its owner admits the caller. -/
def Claimable (s : Store) (t : List HandoffRow) (a : HandoffAcceptance) (busySince : Option ℤ) :
    Prop :=
  ∃ h, t.find? a.target = some h ∧ a.ownerFilter.admits h.ownerUser = true ∧
    (busySince.any fun t => h.fromSessionId.any fun sid => busyAfter s sid t) = false

lemma target_iff :
    a.target r ↔ r.id = a.handoffId ∧
      r.inScope a.workspaceId a.projectId ∧ r.state = .open := by
  simp [HandoffAcceptance.target, and_assoc]

def claimMove (s : Store) (h : HandoffRow) (a : HandoffAcceptance) (busySince : Option ℤ)
    (now : ℤ) (r : HandoffRow) : HandoffRow :=
  if a.target r && a.ownerFilter.admits r.ownerUser then a.stamp now r
  else if h.fromSessionId.isSome && superseded s h a.receivingCwd busySince r then r.expire
  else r

lemma update_claim (s : Store) (t : List HandoffRow) (h : HandoffRow) (a : HandoffAcceptance)
    (busySince : Option ℤ) (now : ℤ) :
    (if h.fromSessionId.isSome then
        update (superseded s h a.receivingCwd busySince) HandoffRow.expire
          (update (fun r => a.target r && a.ownerFilter.admits r.ownerUser) (a.stamp now) t)
      else update (fun r => a.target r && a.ownerFilter.admits r.ownerUser) (a.stamp now) t) =
      t.map (claimMove s h a busySince now) := by
  have hstamped : ∀ r, superseded s h a.receivingCwd busySince (a.stamp now r) = false := by
    intro r
    simp [superseded, HandoffAcceptance.stamp]
  by_cases hauto : h.fromSessionId.isSome
  · rw [if_pos hauto, update, update, map_map]
    refine map_congr_left fun r _ => ?_
    rw [Function.comp_apply, claimMove, hauto, Bool.true_and]
    by_cases hhit : (a.target r && a.ownerFilter.admits r.ownerUser)
    · rw [if_pos hhit, if_pos hhit, if_neg (by rw [hstamped]; decide)]
    · rw [if_neg hhit, if_neg hhit]
  · rw [if_neg hauto, update]
    refine map_congr_left fun r _ => ?_
    rw [not_eq_true] at hauto
    rw [claimMove, hauto, Bool.false_and, if_neg Bool.false_ne_true]

lemma acceptHandoff_ok
    {claimed : Bool} (hok : acceptHandoff v st a busySince now = .ok (st', claimed)) :
    (claimed = false ∧ st' = st) ∨
      ∃ s, (∀ sid, a.acceptingSession = some sid → holdsBaton st.handoffs sid = false) ∧
        (s = st.store ∨ ∃ sid, Revives v st a sid ∧ s = revived st.store sid) ∧
        ((claimed = false ∧ st' = ⟨s, st.handoffs⟩ ∧ ¬ Claimable s st.handoffs a busySince) ∨
          claimed ∧ ∃ h, st.handoffs.find? a.target = some h ∧
            (∃ r ∈ st.handoffs, a.target r = true ∧ a.ownerFilter.admits r.ownerUser) ∧
            st' = ⟨s, st.handoffs.map (claimMove s h a busySince now)⟩) := by
  unfold acceptHandoff at hok
  split at hok
  · cases hok
  rename_i huser
  split at hok
  · cases hok
  rename_i hagrees
  rw [not_eq_true', not_eq_false] at huser hagrees
  obtain ⟨receiver, hreceiver, hok⟩ := bind_ok.mp hok
  split at hok
  · cases hok
    exact .inl ⟨rfl, rfl⟩
  rename_i s
  obtain ⟨hfree, hstore⟩ := admitReceiver_ok huser hagrees hreceiver
  refine .inr ⟨s, hfree, hstore, ?_⟩
  simp only at hok
  split at hok
  · rename_i hnone
    cases hok
    refine .inl ⟨rfl, rfl, ?_⟩
    rintro ⟨h, hh, -⟩
    rw [hnone] at hh
    cases hh
  rename_i h hfind
  split at hok
  · rename_i hbusy
    cases hok
    refine .inl ⟨rfl, rfl, ?_⟩
    rintro ⟨h', hh', -, hfree'⟩
    rw [hfind, Option.some.injEq] at hh'
    rw [← hh', hbusy] at hfree'
    cases hfree'
  split at hok
  · rename_i hmiss
    cases hok
    refine .inl ⟨rfl, rfl, ?_⟩
    rintro ⟨h', hh', howner, -⟩
    rw [not_eq_true', any_eq_false] at hmiss
    refine hmiss h' (mem_of_find?_eq_some hh') ?_
    rw [find?_some hh', howner]
    rfl
  rename_i hhit
  cases hok
  refine .inr ⟨rfl, h, hfind, ?_, ?_⟩
  · rw [not_eq_true', not_eq_false, any_eq_true] at hhit
    obtain ⟨r, hr, hp⟩ := hhit
    rw [and_eq_true] at hp
    exact ⟨r, hr, hp⟩
  · rw [← update_claim]

lemma endLifecycle_ok {out : LifecycleEnd}
    (hok : endLifecycleOnlySession st sid now = .ok (st', out)) :
    (st' = st ∧ out = .substantive) ∨ (st.store.hasSubstantive sid = false ∧
      st.store.endSessionRow sid none now = .ok st'.store ∧
      ((st'.handoffs = st.handoffs ∧ out = .ended none) ∨
        ∃ h ∈ st.handoffs, h.heldBy sid = true ∧ out = .ended (some h.id) ∧ st'.handoffs =
            update (fun r => r.id = h.id && r.heldBy sid) HandoffRow.release st.handoffs)) := by
  obtain ⟨ended, hended, hok⟩ := bind_ok.mp hok
  unfold endLifecycleOnly at hended
  by_cases hwork : st.store.hasSubstantive sid
  · rw [if_pos hwork] at hended
    cases hended
    cases hok
    exact .inl ⟨rfl, rfl⟩
  · rw [if_neg hwork] at hended
    rw [not_eq_true] at hwork
    cases hrow : st.store.endSessionRow sid none now with
    | error e => rw [hrow] at hended; cases hended
    | ok s =>
      rw [hrow] at hended
      cases hended
      refine .inr ⟨hwork, ?_⟩
      simp only at hok
      split at hok
      · cases hok
        exact ⟨rfl, .inl ⟨rfl, rfl⟩⟩
      · rename_i h hlast
        cases hok
        have hmem := argmax_mem hlast
        rw [mem_filter] at hmem
        exact ⟨rfl, .inr ⟨h, hmem.1, hmem.2, rfl, rfl⟩⟩

abbrev Keyed (t : List HandoffRow) : Prop := KeyUnique (fun r : HandoffRow => r.id) t

lemma superseded_iff {h : HandoffRow} {cwd : Option String}
    (hsup : superseded s h cwd busySince r) :
    r.inScope h.workspaceId h.projectId ∧ r.state = .open ∧
      r.fromSessionId.isSome ∧ r.ownerUser = h.ownerUser := by
  simp only [superseded, and_eq_true, decide_eq_true_eq] at hsup
  obtain ⟨⟨⟨⟨⟨hscope, hopen⟩, hfrom⟩, howner⟩, -⟩, -⟩ := hsup
  refine ⟨hscope, hopen, ?_, howner⟩
  cases hr : r.fromSessionId with
  | none => rw [hr] at hfrom; cases hfrom
  | some sid => rfl

lemma accept_changes {h : HandoffRow} (hkeyed : Keyed st.handoffs)
    (hfree : ∀ sid, a.acceptingSession = some sid → holdsBaton st.handoffs sid = false)
    (hfind : st.handoffs.find? a.target = some h)
    (hhit : ∃ r ∈ st.handoffs, a.target r = true ∧ a.ownerFilter.admits r.ownerUser) :
    Changes st (.accept a busySince now) (claimMove s h a busySince now) []
      (st.handoffs.map (claimMove s h a busySince now)) := by
  -- the row the metadata was read from is the row that is claimed
  obtain ⟨r₀, hr₀, htarget₀, howner₀⟩ := hhit
  have htarget := target_iff.mp (find?_some hfind)
  have hsame : r₀ = h := hkeyed.eq hr₀ (mem_of_find?_eq_some hfind)
    ((target_iff.mp htarget₀).1.trans htarget.1.symm)
  refine ⟨by rw [append_nil], fun r _ => ?_, .inl rfl⟩
  rw [claimMove]
  by_cases hclaim : (a.target r && a.ownerFilter.admits r.ownerUser)
  · rw [if_pos hclaim]
    rw [and_eq_true] at hclaim
    exact .claimed a busySince now rfl hclaim.1 hclaim.2 hfree
  rw [if_neg hclaim]
  by_cases hsup : (h.fromSessionId.isSome && superseded s h a.receivingCwd busySince r)
  · rw [if_pos hsup]
    rw [and_eq_true] at hsup
    obtain ⟨hscope, hopen, hauto, howner⟩ := superseded_iff hsup.2
    have hws : h.workspaceId = a.workspaceId ∧ h.projectId = a.projectId := by
      simpa [HandoffRow.inScope] using htarget.2.1
    rw [hws.1, hws.2] at hscope
    exact .superseded a busySince now h.ownerUser rfl hopen hscope hauto howner (hsame ▸ howner₀)
  · rw [if_neg hsup]
    exact .same

lemma step_changes (op : HandoffOp) (hkeyed : Keyed st.handoffs) :
    ∃ g new, Changes st op g new (step v st op).handoffs := by
  have hrefl : ∃ g new, Changes st op g new st.handoffs := ⟨_, _, changes_refl op⟩
  cases op with
  | insert h id now =>
    rw [step, call]
    cases hx : insertHandoff v st h id now with
    | error e => exact hrefl
    | ok out => exact (insert_changes hx).2
  | checkpoint h id now =>
    rw [step, call]
    cases hx : checkpointSessionHandoff v st h id now with
    | error e => exact hrefl
    | ok out => exact checkpoint_changes hx hkeyed
  | endWith sid page h id endedAt now =>
    rw [step, call]
    cases hx : endSessionWithHandoff v st sid page h id endedAt now with
    | error e => exact hrefl
    | ok out => exact (endWith_changes hx).2.2
  | accept a busySince now =>
    rw [step, call]
    cases hx : acceptHandoff v st a busySince now with
    | error e => exact hrefl
    | ok out =>
      obtain ⟨st', claimed⟩ := out
      rw [commit]
      rcases acceptHandoff_ok hx with ⟨-, rfl⟩ | ⟨s, hfree, -, ⟨-, rfl, -⟩ | ⟨-, h, hfind, hhit, rfl⟩⟩
      · exact hrefl
      · exact hrefl
      · exact ⟨_, _, accept_changes hkeyed hfree hfind hhit⟩
  | cancel id ws proj filter =>
    refine ⟨_, _, changes_update fun r _ hp => ?_⟩
    simp only [and_eq_true, decide_eq_true_eq] at hp
    exact .cancelled id ws proj filter rfl hp.1.2 hp.2
  | expire ws proj filter olderThan =>
    refine ⟨_, _, changes_update fun r _ hp => ?_⟩
    simp only [and_eq_true, decide_eq_true_eq] at hp
    exact .expired ws proj filter olderThan rfl hp.1.1.2 hp.1.2
  | endLifecycle sid now =>
    rw [step, call]
    cases hx : endLifecycleOnlySession st sid now with
    | error e => exact hrefl
    | ok out =>
      obtain ⟨st', outcome⟩ := out
      rw [commit]
      rcases endLifecycle_ok hx with ⟨rfl, -⟩ | ⟨-, -, ⟨htable, -⟩ | ⟨h, -, -, -, htable⟩⟩
      · exact hrefl
      · rw [htable]
        exact hrefl
      · rw [htable]
        refine ⟨_, _, changes_update fun r _ hp => ?_⟩
        rw [and_eq_true] at hp
        exact .released sid now rfl hp.2
  | beginSession session now =>
    rw [step, call]
    cases st.store.beginSession v session now <;> exact hrefl
  | endSession sid now =>
    rw [step, call]
    cases st.store.endSession sid none now <;> exact hrefl
  | capture obs id now =>
    rw [step, call]
    cases st.store.insertObservation obs id now <;> exact hrefl

lemma Change.keeps {t : List HandoffRow} {r r' : HandoffRow}
    (h : Change t op r r') : r'.id = r.id ∧ r'.ownerUser = r.ownerUser ∧
      r'.fromSessionId = r.fromSessionId ∧
      ∀ ws proj, r'.inScope ws proj = r.inScope ws proj := by
  cases h <;> exact ⟨rfl, rfl, rfl, fun _ _ => rfl⟩

lemma keyed_step (op : HandoffOp) (hkeyed : Keyed st.handoffs) :
    Keyed (step v st op).handoffs := by
  obtain ⟨g, new, htable, hchange, hadds⟩ := step_changes (v := v) op hkeyed
  rw [htable]
  have hids : (st.handoffs.map g).map (·.id) = st.handoffs.map (·.id) := by
    rw [map_map]
    exact map_congr_left fun r hr => (hchange r hr).keeps.1
  have hmoved : Keyed (st.handoffs.map g) := by
    rw [Keyed, KeyUnique, hids]
    exact hkeyed
  rcases hadds with rfl | ⟨h, id, now, -, rfl, hfresh, -⟩
  · rw [append_nil]
    exact hmoved
  · refine keyUnique_append_singleton.mpr ⟨hmoved, fun r' hr' => ?_⟩
    obtain ⟨r, hr, rfl⟩ := mem_map.mp hr'
    rw [(hchange r hr).keeps.1]
    exact hfresh r hr

lemma keyed_exec (s : Store) (ops : List HandoffOp) :
    Keyed (exec (step v) ⟨s, []⟩ ops).handoffs := by
  have hstep : ∀ (st : State) (op : HandoffOp),
      Keyed st.handoffs → Keyed (step v st op).handoffs := fun st op h => keyed_step op h
  have hnil : Keyed (State.handoffs ⟨s, []⟩) := nodup_nil
  exact exec_invariant (I := fun st : State => Keyed st.handoffs) hstep hnil ops

end Handoffs
