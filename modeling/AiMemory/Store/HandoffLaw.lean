/-
The law of the baton, over every interleaving of handoff calls by any callers.

A claim goes through at most once between two releases of the handoff, a
receiver holds at most one accepted handoff, a release gives back only what the
ending session held: these hold along every run.  Two more parts depend on how
the calls meet.  A session that publishes checkpoints has one open baton of its
own, unless a baton is put beside the one it refreshes — by a release of an
older one, by an insert from another directory, or by opening the session
again.  And a refused claim changes nothing, unless it has opened the ended
receiver again before it is refused.  `Clean` says of a call that it does none
of this.
-/
import AiMemory.Store.HandoffSteps

open Table Runs List

namespace Handoffs

open Store

/-! ### The law -/

variable (ops : List HandoffOp)

def Publishes (sid : SessionId) : Prop :=
  ∃ h id now, HandoffOp.checkpoint h id now ∈ ops ∧ h.fromSessionId = some sid

/-- A session has one open baton in a scope, for an owner. -/
def OneBaton (t : List HandoffRow) (sid : SessionId) : Prop :=
  ∀ ws proj owner, ∀ r ∈ t, ∀ r' ∈ t, ownBaton sid ws proj owner r = true →
    ownBaton sid ws proj owner r' = true → r.id = r'.id

/-- A session holds at most one handoff. -/
def OneHolder (t : List HandoffRow) : Prop :=
  ∀ sid, ∀ r ∈ t, ∀ r' ∈ t, r.heldBy sid = true → r'.heldBy sid = true → r.id = r'.id

def after (v : String → Bool) (s : Store) (ops : List HandoffOp) : State :=
  exec (step v) ⟨s, []⟩ ops

/-- An `accept` that claims the handoff. -/
def Claims (v : String → Bool) (st : State) (op : HandoffOp) (id : HandoffId) : Prop :=
  ∃ a busySince now, op = .accept a busySince now ∧ a.handoffId = id ∧
    (call v st op).2 = .accepted true

/-- The end of a session that gives the handoff back. -/
def Releases (v : String → Bool) (st : State) (op : HandoffOp) (id : HandoffId) : Prop :=
  (call v st op).2 = .lifecycle (.ended (some id))

/-- An `accept` that claims nothing, or fails. -/
def ClaimRefused (v : String → Bool) (st : State) (op : HandoffOp) : Prop :=
  (∃ a busySince now, op = .accept a busySince now) ∧
    ((call v st op).2 = .accepted false ∨ ∃ e, (call v st op).2 = .failed e)

/-- What every run of handoff and session calls keeps. -/
structure HandoffLaw (v : String → Bool) (s : Store) (ops : List HandoffOp) : Prop where
  claimOnce : ∀ as op₁ bs op₂ cs id, ops = as ++ op₁ :: (bs ++ op₂ :: cs) →
    Claims v (after v s as) op₁ id → Claims v (after v s (as ++ op₁ :: bs)) op₂ id →
    ∃ bs₁ op bs₂, bs = bs₁ ++ op :: bs₂ ∧ Releases v (after v s (as ++ op₁ :: bs₁)) op id
  oneHolder : ∀ as bs, ops = as ++ bs → OneHolder (after v s as).handoffs
  releasesOwn : ∀ as op bs, ops = as ++ op :: bs →
    ∀ r ∈ (after v s as).handoffs, r.state = .accepted →
    ∀ r' ∈ (step v (after v s as) op).handoffs, r'.id = r.id → r'.state = .open →
      ∃ sid now, op = .endLifecycle sid now ∧ r.heldBy sid = true
  oneBaton : ∀ as bs, ops = as ++ bs → ∀ sid, Publishes ops sid →
    isLive (after v s as).store sid = true → OneBaton (after v s as).handoffs sid
  refusedUnchanged : ∀ as op bs, ops = as ++ op :: bs → ClaimRefused v (after v s as) op →
    step v (after v s as) op = after v s as

/-- What keeps the law.  `P` are the sessions that publish checkpoints.

An insert from an open publisher finds its open batons in the same directory;
a claim that opens its ended receiver again goes through, and the receiver has
not left two batons open; a release finds no open baton of the same open
publisher, scope and owner. -/
def Clean (v : String → Bool) (P : SessionId → Prop) (st : State) : HandoffOp → Prop
  | .insert h _ _ => ∀ sid, h.fromSessionId = some sid → P sid → isLive st.store sid = true →
    ∀ r ∈ st.handoffs, ownBaton sid h.workspaceId h.projectId h.ownerUser r = true →
      r.cwd = h.stored
  | .accept a busySince _ => ∀ sid, Revives v st a sid →
    Claimable (revived st.store sid) st.handoffs a busySince ∧
      (P sid → OneBaton st.handoffs sid)
  | .endLifecycle sid _ => st.store.hasSubstantive sid = false →
    ∀ r ∈ st.handoffs, r.heldBy sid = true → ∀ source, r.fromSessionId = some source →
      source ≠ sid → P source → isLive st.store source = true →
      ∀ r' ∈ st.handoffs,
        ownBaton source r.workspaceId r.projectId r.ownerUser r' = false
  | _ => True

structure Inv (P : SessionId → Prop) (st : State) : Prop where
  keyed : Keyed st.handoffs
  oneHolder : OneHolder st.handoffs
  sources : ∀ r ∈ st.handoffs, ∀ sid, r.fromSessionId = some sid →
    (st.store.findSession sid).isSome = true
  oneBaton : ∀ sid, P sid → isLive st.store sid = true → OneBaton st.handoffs sid

variable {v : String → Bool} {P : SessionId → Prop} {st : State} {op : HandoffOp}

/-! ### Sessions -/

variable {sid : SessionId} {page : Option PageId} {now : ℤ} {id : HandoffId} {r r' : HandoffRow}
  {t : List HandoffRow}

lemma isLive_iff {s : Store} :
    isLive s sid ↔ ∃ r ∈ s.sessions, r.id = sid ∧ r.endedAt = none := by
  simp [isLive]

lemma findSession_isSome_iff {s : Store} :
    (s.findSession sid).isSome ↔ ∃ r ∈ s.sessions, r.id = sid := by
  simp [findSession]

lemma endSessionRow_sessions {s s' : Store} (h : s.endSessionRow sid page now = .ok s') :
    isLive s' sid = false ∧ (∀ x, isLive s' x = true → isLive s x) ∧
      ∀ x, (s.findSession x).isSome = true → (s'.findSession x).isSome := by
  rw [endSession_ok h, stampEnd]
  refine ⟨?_, fun x hx => ?_, fun x hx => ?_⟩
  · rw [Bool.eq_false_iff]
    intro hlive
    obtain ⟨r', hr', hid, hnone⟩ := isLive_iff.mp hlive
    obtain ⟨r, -, rfl⟩ := mem_update.mp hr'
    by_cases hmatch : r.id = sid
    · rw [if_pos (decide_eq_true hmatch)] at hnone
      cases hnone
    · rw [if_neg (by simpa using hmatch)] at hid
      exact hmatch hid
  · obtain ⟨r', hr', hid, hnone⟩ := isLive_iff.mp hx
    obtain ⟨r, hr, rfl⟩ := mem_update.mp hr'
    by_cases hmatch : r.id = sid
    · rw [if_pos (decide_eq_true hmatch)] at hnone
      cases hnone
    · rw [if_neg (by simpa using hmatch)] at hid hnone
      exact isLive_iff.mpr ⟨r, hr, hid, hnone⟩
  · obtain ⟨r, hr, hid⟩ := findSession_isSome_iff.mp hx
    refine findSession_isSome_iff.mpr ⟨_, mem_update.mpr ⟨r, hr, rfl⟩, ?_⟩
    split <;> exact hid

variable (s : Store)

lemma revived_sessions (sid : SessionId) :
    (∀ x, x ≠ sid → isLive (revived s sid) x → isLive s x) ∧
      ∀ x, (s.findSession x).isSome = true → ((revived s sid).findSession x).isSome := by
  refine ⟨fun x hne hx => ?_, fun x hx => ?_⟩
  · obtain ⟨r', hr', hid, hnone⟩ := isLive_iff.mp hx
    obtain ⟨r, hr, rfl⟩ := mem_update.mp hr'
    by_cases hmatch : r.id = sid
    · rw [if_pos (decide_eq_true hmatch)] at hid
      exact absurd (hid.symm.trans hmatch) hne
    · rw [if_neg (by simpa using hmatch)] at hid hnone
      exact isLive_iff.mpr ⟨r, hr, hid, hnone⟩
  · obtain ⟨r, hr, hid⟩ := findSession_isSome_iff.mp hx
    refine findSession_isSome_iff.mpr ⟨_, mem_update.mpr ⟨r, hr, rfl⟩, ?_⟩
    split <;> exact hid

/-- What a call may leave of the sessions: none is forgotten, and one that is
open afterwards was open and is not one the call has ended, or was opened again
by a claim, or is new. -/
def KeepsSessions (v : String → Bool) (st st' : State) (op : HandoffOp) : Prop :=
  (∀ x, (st.store.findSession x).isSome = true → (st'.store.findSession x).isSome = true) ∧
    ∀ x, isLive st'.store x = true →
      (isLive st.store x = true ∧ ((∃ now, op = .endLifecycle x now) → st' = st) ∧
        ((∃ page h id endedAt now, op = .endWith x page h id endedAt now) → st' = st)) ∨
      (∃ a busySince now, op = .accept a busySince now ∧ Revives v st a x) ∨
      st.store.findSession x = none

lemma keepsSessions_refl (op : HandoffOp) : KeepsSessions v st st op :=
  ⟨fun _ h => h, fun _ hx => .inl ⟨hx, fun _ => rfl, fun _ => rfl⟩⟩

lemma keepsSessions_of_eq {st' : State} (hstore : st'.store.sessions = st.store.sessions)
    (hlife : ∀ x now, op ≠ .endLifecycle x now)
    (hend : ∀ x page h id endedAt now, op ≠ .endWith x page h id endedAt now) :
    KeepsSessions v st st' op := by
  refine ⟨fun x hx => ?_, fun x hx => .inl ⟨?_, ?_, ?_⟩⟩
  · rw [findSession, hstore]
    exact hx
  · rw [isLive, ← hstore]
    exact hx
  · rintro ⟨now, hop⟩
    exact (hlife x now hop).elim
  · rintro ⟨page, h, id, endedAt, now, hop⟩
    exact (hend x page h id endedAt now hop).elim

lemma keepsSessions_of_end {st' : State} (h : st.store.endSessionRow sid page now = .ok st'.store)
    (hlife : ∀ x now, op = .endLifecycle x now → x = sid)
    (hend : ∀ x page h id endedAt now, op = .endWith x page h id endedAt now → x = sid) :
    KeepsSessions v st st' op := by
  obtain ⟨hclosed, hback, hknown⟩ := endSessionRow_sessions h
  refine ⟨hknown, fun x hx => .inl ⟨hback x hx, ?_, ?_⟩⟩
  · rintro ⟨now', hop⟩
    rw [hlife x now' hop, hclosed] at hx
    cases hx
  · rintro ⟨page', h', id, endedAt, now', hop⟩
    rw [hend x page' h' id endedAt now' hop, hclosed] at hx
    cases hx

lemma beginSession_keeps {session : NewSession} {s' : Store}
    (h : st.store.beginSession v session now = .ok s') :
    KeepsSessions v st { st with store := s' } (.beginSession session now) := by
  rcases beginSession_ok h with rfl | ⟨-, hnew, rfl⟩
  · exact keepsSessions_of_eq rfl (by simp) (by simp)
  refine ⟨fun x hx => ?_, fun x hx => ?_⟩
  · obtain ⟨r, hr, hid⟩ := findSession_isSome_iff.mp hx
    exact findSession_isSome_iff.mpr ⟨r, mem_append_left _ hr, hid⟩
  · obtain ⟨r, hr, hid, hnone⟩ := isLive_iff.mp hx
    rcases mem_append.mp hr with hr | hr
    · exact .inl ⟨isLive_iff.mpr ⟨r, hr, hid, hnone⟩, by simp, by simp⟩
    · rw [mem_singleton] at hr
      subst hr
      exact .inr (.inr (hid ▸ hnew))

lemma step_sessions (v : String → Bool) (st : State) (op : HandoffOp) :
    KeepsSessions v st (step v st op) op := by
  cases op with
  | insert h id now =>
    rw [step, call]
    cases hx : insertHandoff v st h id now with
    | error e => exact keepsSessions_refl _
    | ok out =>
      exact keepsSessions_of_eq (congrArg Store.sessions (insert_changes hx).1) (by simp) (by simp)
  | checkpoint h id now =>
    rw [step, call]
    cases hx : checkpointSessionHandoff v st h id now with
    | error e => exact keepsSessions_refl _
    | ok out =>
      exact keepsSessions_of_eq (congrArg Store.sessions (checkpoint_store hx)) (by simp) (by simp)
  | endWith sid page h id endedAt now =>
    rw [step, call]
    cases hx : endSessionWithHandoff v st sid page h id endedAt now with
    | error e => exact keepsSessions_refl _
    | ok out =>
      refine keepsSessions_of_end (endWith_changes hx).1 (by simp) ?_
      rintro x page' h' id' endedAt' now' hop
      injection hop with hsid
      exact hsid.symm
  | accept a busySince now =>
    rw [step, call]
    cases hx : acceptHandoff v st a busySince now with
    | error e => exact keepsSessions_refl _
    | ok out =>
      obtain ⟨st', claimed⟩ := out
      rw [commit]
      rcases acceptHandoff_ok hx with ⟨-, rfl⟩ | ⟨s, -, hstore, hout⟩
      · exact keepsSessions_refl _
      · have hst' : st'.store = s := by
          rcases hout with ⟨-, rfl, -⟩ | ⟨-, h, -, -, rfl⟩ <;> rfl
        rcases hstore with rfl | ⟨sid, hrev, rfl⟩
        · exact keepsSessions_of_eq (by rw [hst']) (by simp) (by simp)
        · obtain ⟨hother, hknown⟩ := revived_sessions st.store sid
          refine ⟨fun x hx => by rw [hst']; exact hknown x hx, fun x hx => ?_⟩
          rw [hst'] at hx
          by_cases hsid : x = sid
          · subst hsid
            exact .inr (.inl ⟨a, busySince, now, rfl, hrev⟩)
          · exact .inl ⟨hother x hsid hx, by simp, by simp⟩
  | cancel id ws proj filter | expire ws proj filter olderThan =>
    exact keepsSessions_of_eq rfl (by simp) (by simp)
  | endLifecycle sid now =>
    rw [step, call]
    cases hx : endLifecycleOnlySession st sid now with
    | error e => exact keepsSessions_refl _
    | ok out =>
      obtain ⟨st', outcome⟩ := out
      rw [commit]
      rcases endLifecycle_ok hx with ⟨rfl, -⟩ | ⟨-, hrow, -⟩
      · exact keepsSessions_refl _
      · refine keepsSessions_of_end hrow ?_ (by simp)
        rintro x now' hop
        injection hop with hsid
        exact hsid.symm
  | beginSession session now =>
    rw [step, call]
    cases hx : st.store.beginSession v session now with
    | error e => exact keepsSessions_refl _
    | ok s' => exact beginSession_keeps hx
  | endSession sid now =>
    rw [step, call]
    cases hx : st.store.endSession sid none now with
    | error e => exact keepsSessions_refl _
    | ok s' =>
      have hrow : st.store.endSessionRow sid none now = .ok (State.mk s' st.handoffs).store := hx
      exact keepsSessions_of_end hrow (by simp) (by simp)
  | capture obs id now =>
    rw [step, call]
    cases hx : st.store.insertObservation obs id now with
    | error e => exact keepsSessions_refl _
    | ok s' =>
      obtain ⟨o, rfl, -⟩ := insertObservation_ok hx
      exact keepsSessions_of_eq rfl (by simp) (by simp)

lemma endLifecycle_substantive
    (h : st.store.hasSubstantive sid) : step v st (.endLifecycle sid now) = st := by
  rw [step, call, endLifecycleOnlySession, endLifecycleOnly, if_pos h]
  rfl

lemma endWith_source {sid sid' : SessionId} {h : NewHandoff} {endedAt now : ℤ}
    (hmoved : step v st (.endWith sid' page h id endedAt now) ≠ st)
    (hfrom : h.fromSessionId = some sid) : sid' = sid := by
  rw [step, call] at hmoved
  cases hx : endSessionWithHandoff v st sid' page h id endedAt now with
  | error e =>
    rw [hx] at hmoved
    exact absurd rfl hmoved
  | ok out =>
    have hsource := (endWith_changes hx).2.1
    rw [hfrom, Option.some.injEq] at hsource
    exact hsource.symm

lemma Change.own_cases
    {ws : WorkspaceId} {proj : ProjectId} {owner : Option String} (h : Change t op r r')
    (hown : ownBaton sid ws proj owner r') :
    ownBaton sid ws proj owner r ∨ ∃ holder now, op = .endLifecycle holder now ∧
      r.heldBy holder ∧ r.fromSessionId = some sid ∧ r.inScope ws proj ∧
      r.ownerUser = owner := by
  cases h with
  | same => exact .inl hown
  | refreshed h id now sid' hop hown' =>
    refine .inl (ownBaton_iff.mpr ?_)
    exact ⟨(ownBaton_iff.mp hown).1, (ownBaton_iff.mp hown).2.1, (ownBaton_iff.mp hown).2.2.1,
      (ownBaton_iff.mp hown').2.2.2⟩
  | released holder now hop hheld =>
    obtain ⟨hfrom, hscope, howner, -⟩ := ownBaton_iff.mp hown
    exact .inr ⟨holder, now, hop, hheld, hfrom, hscope, howner⟩
  | swept | superseded | cancelled | expired =>
    exact absurd (ownBaton_iff.mp hown).2.2.2 (by simp [HandoffRow.expire])
  | claimed => exact absurd (ownBaton_iff.mp hown).2.2.2 (by simp [HandoffAcceptance.stamp])

lemma inScope_iff {ws : WorkspaceId} {proj : ProjectId} {r : HandoffRow} :
    r.inScope ws proj ↔ r.workspaceId = ws ∧ r.projectId = proj := by
  simp [HandoffRow.inScope]

lemma oneBaton_changes {g : HandoffRow → HandoffRow} {new t' : List HandoffRow}
    (hch : Changes st op g new t') (hone : OneBaton st.handoffs sid)
    (hholder : OneHolder st.handoffs)
    (hrel : ∀ holder now, op = .endLifecycle holder now → ∀ r ∈ st.handoffs,
      r.heldBy holder = true → r.fromSessionId = some sid → ∀ r' ∈ st.handoffs,
      ownBaton sid r.workspaceId r.projectId r.ownerUser r' = false)
    (hnew : ∀ h, op.publishes = some h → h.fromSessionId = some sid →
      (∃ id now, op = .checkpoint h id now) ∨ ∀ r ∈ st.handoffs,
        ownBaton sid h.workspaceId h.projectId h.ownerUser r = true → r.cwd = h.stored) :
    OneBaton t' sid := by
  obtain ⟨htable, hchange, hadds⟩ := hch
  -- an old baton that is still open does not meet the new one
  have hmeet : ∀ ws proj owner, ∀ r ∈ st.handoffs, ownBaton sid ws proj owner (g r) = true →
      ∀ x ∈ new, ownBaton sid ws proj owner x = true → False := by
    intro ws proj owner r hr hown x hx hownx
    rcases hadds with rfl | ⟨h, id, now, hop, rfl, -, hown'⟩
    · cases hx
    · rw [mem_singleton] at hx
      subst hx
      obtain ⟨hfrom, hscope, howner, -⟩ := ownBaton_iff.mp hownx
      change h.fromSessionId = some sid at hfrom
      change h.ownerUser = owner at howner
      obtain ⟨rfl, rfl⟩ := inScope_iff.mp hscope
      subst howner
      rcases (hchange r hr).own_cases hown with hold | ⟨holder, now', hop', -⟩
      · obtain ⟨hswept, hnotcheck⟩ := (hown' sid hfrom).2 r hr hold
        rcases hnew h hop hfrom with ⟨id', now', hcheck⟩ | hcwd
        · exact hnotcheck id' now' hcheck
        · rw [hswept (hcwd r hr hold)] at hown
          exact absurd (ownBaton_iff.mp hown).2.2.2 (by simp [HandoffRow.expire])
      · rw [hop'] at hop
        cases hop
  intro ws proj owner r₁' hr₁' r₂' hr₂' hown₁ hown₂
  rw [htable, mem_append] at hr₁' hr₂'
  rcases hr₁' with hr₁' | hr₁' <;> rcases hr₂' with hr₂' | hr₂'
  · obtain ⟨r₁, hr₁, rfl⟩ := mem_map.mp hr₁'
    obtain ⟨r₂, hr₂, rfl⟩ := mem_map.mp hr₂'
    rw [(hchange r₁ hr₁).keeps.1, (hchange r₂ hr₂).keeps.1]
    rcases (hchange r₁ hr₁).own_cases hown₁ with hold₁ | ⟨s₁, n₁, hop₁, hheld₁, hf₁, hs₁, ho₁⟩ <;>
      rcases (hchange r₂ hr₂).own_cases hown₂ with hold₂ | ⟨s₂, n₂, hop₂, hheld₂, hf₂, hs₂, ho₂⟩
    · exact hone ws proj owner r₁ hr₁ r₂ hr₂ hold₁ hold₂
    · obtain ⟨rfl, rfl⟩ := inScope_iff.mp hs₂
      subst ho₂
      rw [hrel s₂ n₂ hop₂ r₂ hr₂ hheld₂ hf₂ r₁ hr₁] at hold₁
      cases hold₁
    · obtain ⟨rfl, rfl⟩ := inScope_iff.mp hs₁
      subst ho₁
      rw [hrel s₁ n₁ hop₁ r₁ hr₁ hheld₁ hf₁ r₂ hr₂] at hold₂
      cases hold₂
    · -- both were released, so one session held both
      rw [hop₁] at hop₂
      cases hop₂
      exact hholder s₁ r₁ hr₁ r₂ hr₂ hheld₁ hheld₂
  · obtain ⟨r₁, hr₁, rfl⟩ := mem_map.mp hr₁'
    exact (hmeet ws proj owner r₁ hr₁ hown₁ r₂' hr₂' hown₂).elim
  · obtain ⟨r₂, hr₂, rfl⟩ := mem_map.mp hr₂'
    exact (hmeet ws proj owner r₂ hr₂ hown₂ r₁' hr₁' hown₁).elim
  · rcases hadds with rfl | ⟨h, id, now, -, rfl, -, -⟩
    · cases hr₁'
    · rw [mem_singleton] at hr₁' hr₂'
      rw [hr₁', hr₂']

lemma Change.held_cases (h : Change t op r r') (hheld : r'.heldBy sid) :
    r.heldBy sid ∨ ∃ a busySince now, op = .accept a busySince now ∧
      r.id = a.handoffId ∧ holdsBaton t sid = false := by
  have hstate : r'.state = .accepted ∧ r'.acceptedBySession = some sid := by
    simpa [HandoffRow.heldBy] using hheld
  cases h with
  | same => exact .inl hheld
  | claimed a busySince now hop htarget _ hfree =>
    exact .inr ⟨a, busySince, now, hop, (target_iff.mp htarget).1, hfree sid hstate.2⟩
  | refreshed h id now sid' hop hown =>
    have hopen := (ownBaton_iff.mp hown).2.2.2
    have haccepted : r.state = .accepted := hstate.1
    rw [hopen] at haccepted
    cases haccepted
  | released | swept | superseded | cancelled | expired => cases hstate.1

lemma oneHolder_step (op : HandoffOp) (hkeyed : Keyed st.handoffs)
    (h : OneHolder st.handoffs) : OneHolder (step v st op).handoffs := by
  obtain ⟨g, new, htable, hchange, hadds⟩ := step_changes (v := v) op hkeyed
  -- a held row is an old one, as new ones are open
  have hold : ∀ sid, ∀ r' ∈ (step v st op).handoffs, r'.heldBy sid = true →
      ∃ r ∈ st.handoffs, g r = r' := by
    intro sid r' hr' hheld
    rw [htable, mem_append] at hr'
    rcases hr' with hr' | hr'
    · exact mem_map.mp hr'
    · rcases hadds with rfl | ⟨h, id, now, -, rfl, -, -⟩
      · cases hr'
      · rw [mem_singleton] at hr'
        rw [hr'] at hheld
        simp [HandoffRow.heldBy, NewHandoff.row] at hheld
  have hholds : ∀ sid, ∀ r ∈ st.handoffs, r.heldBy sid = true → holdsBaton st.handoffs sid :=
    fun sid r hr hheld => any_eq_true.mpr ⟨r, hr, hheld⟩
  intro sid r₁' hr₁' r₂' hr₂' hheld₁ hheld₂
  obtain ⟨r₁, hr₁, rfl⟩ := hold sid r₁' hr₁' hheld₁
  obtain ⟨r₂, hr₂, rfl⟩ := hold sid r₂' hr₂' hheld₂
  rw [(hchange r₁ hr₁).keeps.1, (hchange r₂ hr₂).keeps.1]
  rcases (hchange r₁ hr₁).held_cases hheld₁ with hold₁ | ⟨a₁, b₁, n₁, hop₁, hid₁, hfree₁⟩ <;>
    rcases (hchange r₂ hr₂).held_cases hheld₂ with hold₂ | ⟨a₂, b₂, n₂, hop₂, hid₂, hfree₂⟩
  · exact h sid r₁ hr₁ r₂ hr₂ hold₁ hold₂
  · rw [hholds sid r₁ hr₁ hold₁] at hfree₂
    cases hfree₂
  · rw [hholds sid r₂ hr₂ hold₂] at hfree₁
    cases hfree₁
  · rw [hop₁] at hop₂
    cases hop₂
    rw [hid₁, hid₂]

lemma sources_step (op : HandoffOp) (hkeyed : Keyed st.handoffs)
    (h : ∀ r ∈ st.handoffs, ∀ sid, r.fromSessionId = some sid →
      (st.store.findSession sid).isSome) :
    ∀ r ∈ (step v st op).handoffs, ∀ sid, r.fromSessionId = some sid →
      ((step v st op).store.findSession sid).isSome := by
  obtain ⟨g, new, htable, hchange, hadds⟩ := step_changes (v := v) op hkeyed
  obtain ⟨hknown, -⟩ := step_sessions v st op
  intro r' hr' sid hfrom
  refine hknown sid ?_
  rw [htable, mem_append] at hr'
  rcases hr' with hr' | hr'
  · obtain ⟨r, hr, rfl⟩ := mem_map.mp hr'
    rw [(hchange r hr).keeps.2.2.1] at hfrom
    exact h r hr sid hfrom
  · rcases hadds with rfl | ⟨h, id, now, -, rfl, -, hsession⟩
    · cases hr'
    · rw [mem_singleton] at hr'
      rw [hr'] at hfrom
      exact (hsession sid hfrom).1

lemma oneBaton_step (hinv : Inv P st) (hclean : Clean v P st op) (hP : P sid)
    (hlive : isLive (step v st op).store sid) :
    OneBaton (step v st op).handoffs sid := by
  obtain ⟨g, new, hch⟩ := step_changes (v := v) op hinv.keyed
  obtain ⟨-, hcases⟩ := step_sessions v st op
  rcases hcases sid hlive with ⟨hbefore, hlife, hend⟩ | ⟨a, busySince, now, rfl, hrev⟩ | hunknown
  · have hone := hinv.oneBaton sid hP hbefore
    by_cases hsame : step v st op = st
    · rw [hsame]
      exact hone
    refine oneBaton_changes hch hone hinv.oneHolder ?_ ?_
    · rintro holder now rfl r hr hheld hfrom r' hr'
      -- the call released something, so the session had captured no real work
      have hne : sid ≠ holder := fun heq => hsame (hlife ⟨now, by rw [heq]⟩)
      by_cases hwork : st.store.hasSubstantive holder
      · exact absurd (endLifecycle_substantive hwork) hsame
      · rw [Bool.not_eq_true] at hwork
        exact hclean hwork r hr hheld sid hfrom hne hP hbefore r' hr'
    · intro h hop hfrom
      cases op with
      | insert h' id now =>
        cases hop
        exact .inr fun r hr hown => hclean sid hfrom hP hbefore r hr hown
      | checkpoint h' id now =>
        cases hop
        exact .inl ⟨id, now, rfl⟩
      | endWith sid' page h' id endedAt now =>
        cases hop
        have hsid : sid' = sid := endWith_source hsame hfrom
        subst hsid
        exact absurd (hend ⟨page, h, id, endedAt, now, rfl⟩) hsame
      | accept a busySince now | cancel id ws proj filter | expire ws proj filter olderThan
      | endLifecycle sid' now | beginSession session now | endSession sid' now
      | capture obs id now => cases hop
  · refine oneBaton_changes hch ((hclean sid hrev).2 hP) hinv.oneHolder ?_ ?_
    · intro holder now' hop
      cases hop
    · intro h hop
      cases hop
  · -- a session that is new has left nothing
    intro ws proj owner r' hr' _ _ hown _
    have hfrom := (ownBaton_iff.mp hown).1
    have hknown : (st.store.findSession sid).isSome := by
      obtain ⟨htable, hchange, hadds⟩ := hch
      rw [htable, mem_append] at hr'
      rcases hr' with hr' | hr'
      · obtain ⟨r, hr, rfl⟩ := mem_map.mp hr'
        rw [(hchange r hr).keeps.2.2.1] at hfrom
        exact hinv.sources r hr sid hfrom
      · rcases hadds with rfl | ⟨h, id, now, -, rfl, -, hsession⟩
        · cases hr'
        · rw [mem_singleton] at hr'
          rw [hr'] at hfrom
          exact (hsession sid hfrom).1
    rw [hunknown] at hknown
    cases hknown

lemma inv_step (hinv : Inv P st) (hclean : Clean v P st op) : Inv P (step v st op) where
  keyed := keyed_step op hinv.keyed
  oneHolder := oneHolder_step op hinv.keyed hinv.oneHolder
  sources := sources_step op hinv.keyed hinv.sources
  oneBaton _ hP hlive := oneBaton_step hinv hclean hP hlive

lemma inv_nil : Inv P ⟨s, []⟩ where
  keyed := nodup_nil
  oneHolder := by
    intro sid r hr
    cases hr
  sources := by
    intro r hr
    cases hr
  oneBaton := by
    intro sid _ _ ws proj owner r hr
    cases hr

def Accepted (t : List HandoffRow) (id : HandoffId) : Prop :=
  ∃ r ∈ t, r.id = id ∧ r.state = .accepted

lemma Change.of_closed (h : Change t op r r') (hclosed : r.state ≠ .open) :
    r' = r ∨ (r' = r.release ∧ ∃ sid now, op = .endLifecycle sid now ∧ r.heldBy sid) := by
  cases h with
  | same => exact .inl rfl
  | released sid now hop hheld => exact .inr ⟨rfl, sid, now, hop, hheld⟩
  | refreshed h id now sid hop hown => exact absurd (ownBaton_iff.mp hown).2.2.2 hclosed
  | claimed a busySince now hop htarget _ _ => exact absurd (target_iff.mp htarget).2.2 hclosed
  | swept h hop hopen | superseded a busySince now owner hop hopen
  | cancelled id ws proj filter hop hopen | expired ws proj filter olderThan hop hopen =>
    exact absurd hopen hclosed

lemma step_row (op : HandoffOp) (hkeyed : Keyed st.handoffs) (hr : r ∈ st.handoffs) :
    ∃ r' ∈ (step v st op).handoffs, Change st.handoffs op r r' := by
  obtain ⟨g, new, htable, hchange, -⟩ := step_changes (v := v) op hkeyed
  refine ⟨g r, ?_, hchange r hr⟩
  rw [htable]
  exact mem_append_left _ (mem_map_of_mem hr)

lemma Claims.spec (h : Claims v st op id) :
    (∃ r ∈ st.handoffs, r.id = id ∧ r.state = .open) ∧ Accepted (step v st op).handoffs id := by
  obtain ⟨a, busySince, now, rfl, rfl, hanswer⟩ := h
  rw [call] at hanswer
  rw [step, call]
  cases hx : acceptHandoff v st a busySince now with
  | error e => rw [hx] at hanswer; cases hanswer
  | ok out =>
    obtain ⟨st', claimed⟩ := out
    rw [hx] at hanswer
    have htrue : claimed := by
      rw [commit] at hanswer
      exact Answer.accepted.inj hanswer
    rw [commit]
    rcases acceptHandoff_ok hx with ⟨hfalse, -⟩ | ⟨s, -, -, ⟨hfalse, -⟩ | ⟨-, h, -, hhit, rfl⟩⟩
    · rw [hfalse] at htrue
      cases htrue
    · rw [hfalse] at htrue
      cases htrue
    · obtain ⟨r, hr, htarget, howner⟩ := hhit
      obtain ⟨hid, -, hopen⟩ := target_iff.mp htarget
      refine ⟨⟨r, hr, hid, hopen⟩, a.stamp now r, mem_map.mpr ⟨r, hr, ?_⟩, hid, rfl⟩
      rw [claimMove, htarget, howner]
      rfl

lemma accepted_step (op : HandoffOp) (hkeyed : Keyed st.handoffs) (h : Accepted st.handoffs id) :
    Accepted (step v st op).handoffs id ∨ Releases v st op id := by
  obtain ⟨r, hr, hid, hacc⟩ := h
  obtain ⟨r', hmoved, hchange⟩ := step_row (v := v) op hkeyed hr
  rcases hchange.of_closed (by rw [hacc]; decide) with hsame | ⟨hrel, sid, now, rfl, hheld⟩
  · rw [hsame] at hmoved
    exact .inl ⟨r, hmoved, hid, hacc⟩
  · -- the row was reopened, so the call names it in its answer
    have hnot : r ∉ (step v st (.endLifecycle sid now)).handoffs := by
      intro hin
      have heq := (keyed_step _ hkeyed).eq hin hmoved (by rw [hrel]; rfl)
      rw [heq, hrel] at hacc
      cases hacc
    rw [step, call] at hnot
    rw [Releases, call]
    cases hx : endLifecycleOnlySession st sid now with
    | error e =>
      rw [hx] at hnot
      exact absurd hr hnot
    | ok out =>
      obtain ⟨st', outcome⟩ := out
      rw [hx, commit] at hnot
      rw [commit]
      rcases endLifecycle_ok hx with ⟨rfl, -⟩ | ⟨-, -, ⟨htable', -⟩ | ⟨h, -, -, hout, htable'⟩⟩
      · exact absurd hr hnot
      · rw [htable'] at hnot
        exact absurd hr hnot
      · right
        rw [hout]
        by_cases hsame : r.id = h.id
        · rw [← hid, hsame]
        · rw [htable'] at hnot
          exact absurd (mem_update_of_not hr (by simp [hsame])) hnot

lemma accepted_exec (bs : List HandoffOp) (hkeyed : Keyed st.handoffs)
    (h : Accepted st.handoffs id) :
    Accepted (exec (step v) st bs).handoffs id ∨
      ∃ bs₁ op bs₂, bs = bs₁ ++ op :: bs₂ ∧ Releases v (exec (step v) st bs₁) op id := by
  induction bs generalizing st with
  | nil => exact .inl h
  | cons b bs ih =>
    rcases accepted_step (v := v) b hkeyed h with hacc | hrel
    · rcases ih (keyed_step b hkeyed) hacc with hdone | ⟨bs₁, op, bs₂, rfl, hrel⟩
      · exact .inl hdone
      · exact .inr ⟨b :: bs₁, op, bs₂, rfl, hrel⟩
    · exact .inr ⟨[], b, bs, rfl, hrel⟩

lemma claim_once (as : List HandoffOp) (op₁ : HandoffOp) (bs : List HandoffOp)
    (op₂ : HandoffOp) (id : HandoffId) (h₁ : Claims v (after v s as) op₁ id)
    (h₂ : Claims v (after v s (as ++ op₁ :: bs)) op₂ id) :
    ∃ bs₁ op bs₂, bs = bs₁ ++ op :: bs₂ ∧ Releases v (after v s (as ++ op₁ :: bs₁)) op id := by
  have hrun : ∀ xs, after v s (as ++ op₁ :: xs) = exec (step v) (step v (after v s as) op₁) xs := by
    intro xs
    rw [after, exec_append, exec_cons, after]
  have hkeyed : Keyed (step v (after v s as) op₁).handoffs := keyed_step op₁ (keyed_exec s as)
  obtain ⟨-, hacc⟩ := h₁.spec
  rcases accepted_exec (v := v) bs hkeyed hacc with ⟨r, hr, hid, hstate⟩ | ⟨bs₁, op, bs₂, hbs, hrel⟩
  · -- the second claim would have found it open
    obtain ⟨⟨r', hr', hid', hopen⟩, -⟩ := h₂.spec
    rw [← hrun] at hr
    have hsame : r = r' := (keyed_exec s (as ++ op₁ :: bs)).eq hr hr' (hid.trans hid'.symm)
    rw [hsame, hopen] at hstate
    cases hstate
  · exact ⟨bs₁, op, bs₂, hbs, by rw [hrun]; exact hrel⟩

lemma reopened_held (hkeyed : Keyed st.handoffs) (hr : r ∈ st.handoffs)
    (hacc : r.state = .accepted) (hr' : r' ∈ (step v st op).handoffs) (hid : r'.id = r.id)
    (hopen : r'.state = .open) : ∃ sid now, op = .endLifecycle sid now ∧ r.heldBy sid := by
  obtain ⟨q, hq, hchange⟩ := step_row (v := v) op hkeyed hr
  have hsame : r' = q := (keyed_step op hkeyed).eq hr' hq (hid.trans hchange.keeps.1.symm)
  rcases hchange.of_closed (by rw [hacc]; decide) with hkept | ⟨-, hrel⟩
  · rw [hsame, hkept, hacc] at hopen
    cases hopen
  · exact hrel

lemma refused_unchanged (hclean : Clean v P st op) (h : ClaimRefused v st op) :
    step v st op = st := by
  obtain ⟨⟨a, busySince, now, rfl⟩, hanswer⟩ := h
  rw [call] at hanswer
  rw [step, call]
  cases hx : acceptHandoff v st a busySince now with
  | error e => rfl
  | ok out =>
    obtain ⟨st', claimed⟩ := out
    rw [hx, commit] at hanswer
    have hfalse : claimed = false := by
      rcases hanswer with hanswer | ⟨e, hanswer⟩
      · exact Answer.accepted.inj hanswer
      · cases hanswer
    rw [commit]
    rcases acceptHandoff_ok hx with ⟨-, rfl⟩ | ⟨s, -, hstore, ⟨-, rfl, hmiss⟩ | ⟨htrue, -⟩⟩
    · rfl
    · rcases hstore with rfl | ⟨sid, hrev, rfl⟩
      · rfl
      · exact absurd (hclean sid hrev).1 hmiss
    · rw [htrue] at hfalse
      cases hfalse

/-- The law holds of every run of clean calls, from every store without
handoffs. -/
theorem handoffLaw_of_clean (v : String → Bool) (s : Store) (ops : List HandoffOp)
    (h : Guarded (step v) (Clean v (Publishes ops)) ⟨s, []⟩ ops) : HandoffLaw v s ops := by
  have hinv : ∀ as bs, ops = as ++ bs → Inv (Publishes ops) (after v s as) := by
    intro as bs hsplit
    have hguard : Guarded (step v) (Clean v (Publishes ops)) ⟨s, []⟩ (as ++ bs) := hsplit ▸ h
    exact exec_guarded_invariant (fun _ _ hi hc => inv_step hi hc) (inv_nil s)
      (guarded_append.mp hguard).1
  refine ⟨?_, ?_, ?_, ?_, ?_⟩
  · intro as op₁ bs op₂ cs id _ h₁ h₂
    exact claim_once s as op₁ bs op₂ id h₁ h₂
  · exact fun as bs hsplit => (hinv as bs hsplit).oneHolder
  · intro as op bs hsplit r hr hacc r' hr' hid hopen
    exact reopened_held (keyed_exec s as) hr hacc hr' hid hopen
  · exact fun as bs hsplit sid hP hlive => (hinv as bs hsplit).oneBaton sid hP hlive
  · intro as op bs hsplit hrefused
    have hguard : Guarded (step v) (Clean v (Publishes ops)) ⟨s, []⟩ (as ++ op :: bs) := hsplit ▸ h
    exact refused_unchanged (guarded_append.mp hguard).2.1 hrefused

def someSession (id : SessionId) (agent : String) (endedAt : Option ℤ) : SessionRow :=
  ⟨id, 1, 1, agent, none, 0, endedAt, none, 0, none⟩

def withSessions (sessions : List SessionRow) : Store :=
  { Store.empty with
    projects := [⟨1, 1⟩]
    sessions := sessions }

def batonOf (sid : SessionId) : NewHandoff where
  workspaceId := 1
  projectId := 1
  fromSessionId := some sid
  fromAgent := "claude-code"
  toAgent := none
  cwd := none
  summary := "half done"
  openQuestions := []
  nextSteps := []
  filesTouched := []
  ownerUser := none

def claimBy (agent : String) (receiver : Option SessionId) (id : HandoffId) : HandoffOp :=
  .accept ⟨id, 1, 1, agent, receiver, none, .unattributed, none⟩ none 20

def passedTwice : List HandoffOp :=
  [.checkpoint (batonOf 1) 1 10, claimBy "codex" (some 2) 1, .endLifecycle 2 30,
    claimBy "codex" none 1]

theorem handoffLaw_passedTwice :
    outputs (step fun _ => true) (fun st op => (call (fun _ => true) st op).2)
        ⟨withSessions [someSession 1 "claude-code" none, someSession 2 "codex" none], []⟩
        passedTwice =
      [.checkpointed (some 1), .accepted true, .lifecycle (.ended (some 1)), .accepted true] ∧
    HandoffLaw (fun _ => true)
      (withSessions [someSession 1 "claude-code" none, someSession 2 "codex" none])
      passedTwice := by
  refine ⟨by decide +kernel, handoffLaw_of_clean _ _ _ ⟨trivial, ?_, ?_, ?_, trivial⟩⟩
  · intro sid hrev
    exact absurd hrev.2.2.2.1 (by decide)
  · intro _ r hr hheld source hfrom hne _ _ r' hr'
    -- the only handoff there is has been accepted
    have hnone : ∀ r ∈ (exec (step fun _ => true)
        ⟨withSessions [someSession 1 "claude-code" none, someSession 2 "codex" none], []⟩
        [.checkpoint (batonOf 1) 1 10, claimBy "codex" (some 2) 1]).handoffs, r.state ≠ .open := by
      decide +kernel
    rw [Bool.eq_false_iff]
    exact fun hown => hnone r' hr' (ownBaton_iff.mp hown).2.2.2
  · intro sid hrev
    exact absurd hrev.2.2.2.1 (by decide)

/-- A claim of a handoff that is not there, by an ended session of an agent
that reuses its session ids: refused, and the session is open again. -/
theorem refused_claim_reopens :
    ¬ HandoffLaw (fun _ => true) (withSessions [someSession 7 "grok" (some 5)])
      [claimBy "grok" (some 7) 1] := by
  intro h
  have hrefused : ClaimRefused (fun _ => true)
      ⟨withSessions [someSession 7 "grok" (some 5)], []⟩ (claimBy "grok" (some 7) 1) :=
    ⟨⟨_, _, _, rfl⟩, .inl (by decide +kernel)⟩
  have hsame := h.refusedUnchanged [] _ [] rfl hrefused
  exact absurd hsame (by decide +kernel)

/-! ### The life of a handoff -/

/-- A later state of a handoff: still whose it was and where it was, and once
expired as it was. -/
def Outlives (r r' : HandoffRow) : Prop :=
  (r'.id = r.id ∧ r'.ownerUser = r.ownerUser ∧ r'.fromSessionId = r.fromSessionId ∧
    ∀ ws proj, r'.inScope ws proj = r.inScope ws proj) ∧ (r.state = .expired → r' = r)

lemma Change.outlives (h : Change t op r r') : Outlives r r' := by
  refine ⟨h.keeps, fun hexpired => ?_⟩
  rcases h.of_closed (by rw [hexpired]; decide) with hsame | ⟨-, sid, now, -, hheld⟩
  · exact hsame
  · simp [HandoffRow.heldBy, hexpired] at hheld

lemma Outlives.trans {a b c : HandoffRow} (h : Outlives a b) (h' : Outlives b c) :
    Outlives a c := by
  obtain ⟨⟨hid, howner, hsource, hscope⟩, hexpired⟩ := h
  obtain ⟨⟨hid', howner', hsource', hscope'⟩, hexpired'⟩ := h'
  refine ⟨⟨hid'.trans hid, howner'.trans howner, hsource'.trans hsource,
    fun ws proj => (hscope' ws proj).trans (hscope ws proj)⟩, fun hstate => ?_⟩
  obtain rfl : b = a := hexpired hstate
  exact hexpired' hstate

lemma exec_outlives (hkeyed : Keyed st.handoffs)
    (hr : r ∈ st.handoffs) : ∃ r' ∈ (exec (step v) st ops).handoffs, Outlives r r' := by
  induction ops generalizing st r with
  | nil => exact ⟨r, hr, ⟨rfl, rfl, rfl, fun _ _ => rfl⟩, fun _ => rfl⟩
  | cons op ops ih =>
    obtain ⟨q, hq, hchange⟩ := step_row (v := v) op hkeyed hr
    obtain ⟨r', hr', hlater⟩ := ih (keyed_step op hkeyed) hq
    exact ⟨r', hr', hchange.outlives.trans hlater⟩

/-- No handoff is lost or filed elsewhere, whatever calls follow, ids stay a key,
and an expired handoff never changes again. -/
theorem handoffs_outlive (v : String → Bool) (s : Store) (as bs : List HandoffOp) :
    Keyed (after v s (as ++ bs)).handoffs ∧ ∀ r ∈ (after v s as).handoffs,
      ∃ r' ∈ (after v s (as ++ bs)).handoffs, Outlives r r' := by
  refine ⟨keyed_exec s (as ++ bs), fun r hr => ?_⟩
  rw [after, exec_append]
  exact exec_outlives bs (keyed_exec s as) hr

end Handoffs
