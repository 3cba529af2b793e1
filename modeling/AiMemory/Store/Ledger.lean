/-
A ledger beside the database: which observation was inserted under which
ingest key.

The table of ingest keys forgets the observation a key was claimed for.  The
ledger does not: a claim follows its observation through merges and moves, so it
says what the answer to a delivery ought to be.  It leaves the ledger when the
retention of its key is over.
-/
import AiMemory.Store.DbInvariant

open Table Runs List

namespace Store

/-! ### Claims -/

/-- What `recovery_event_identity` hashes of an event, beside the agent. -/
def NewObservation.payload (obs : NewObservation) :
    SessionId × ObservationKind × Option String × Option String × String × String × ℤ :=
  (obs.sessionId, obs.kind, obs.extension, obs.sourceEvent, obs.title, obs.body,
    obs.occurredAt.getD 0)

def agentOf (s : Store) (sid : SessionId) : Option String := (s.findSession sid).map (·.agentKind)

structure Delivery where
  event : NewObservation
  agent : Option String
  key : String
  now : ℤ
  deriving DecidableEq

structure Claim where
  observation : ObservationId
  event : NewObservation
  agent : Option String
  key : String
  seenAt : ℤ
  completed : Bool
  deriving DecidableEq

def Delivery.claim (d : Delivery) (id : ObservationId) : Claim where
  observation := id
  event := d.event
  agent := d.agent
  key := d.key
  seenAt := d.now
  completed := false

def Delivery.entry (d : Delivery) : IngestOutcome → List Claim
  | .inserted id => [d.claim id]
  | .alreadyComplete | .resumePending => []

def Claim.livesIn (s : Store) (proj : ProjectId) (c : Claim) : Bool :=
  s.observations.any fun o => o.id = c.observation && o.projectId = proj

def Claim.holds (s : Store) (proj : ProjectId) (key : String) (c : Claim) : Bool :=
  c.livesIn s proj && c.key = key

def Claim.shares (s : Store) (c c' : Claim) : Bool :=
  s.observations.any fun o => o.id = c.observation && c'.holds s o.projectId c.key

/-- The retention of its key is not over: recovery keys stay, others for 30 days
from the latest claim. -/
def Claim.retained (s : Store) (ledger : List Claim) (now : ℤ) (c : Claim) : Bool :=
  recoveryIngestKey c.key
    || ledger.any fun c' => c.shares s c' && decide (now - ingestKeyTtlMicros ≤ c'.seenAt)

def Claim.mark (s : Store) (proj : ProjectId) (key : String) (c : Claim) : Claim :=
  if c.holds s proj key then { c with completed := true } else c

end Store

namespace Database

open Store Projects

def delivery (s : Store) : DbOp → Option Delivery
  | .insertObservationKeyed obs key _ now =>
    some ⟨obs, s.recoveryAgent obs.sessionId key, key, now⟩
  | .admitEvent session obs _ (some key) _ _ now =>
    let event := match s.findSession session.id with
      | some r => filed r session obs
      | none => obs
    some ⟨event, some session.agentKind, key, now⟩
  | _ => none

variable (E : Env) (db : Database)

def answer : DbOp → Option IngestOutcome
  | .insertObservationKeyed obs key id now =>
    (Store.insertObservationKeyed E.eventIdentity db.store obs key id now).toOption.map (·.1)
  | .admitEvent session obs filter key movedFrom id now =>
    (admitHookSessionEvent E.validOwner E.eventIdentity db.store session obs filter key movedFrom id
      now).toOption.bind (·.1.ingest)
  | _ => none

def accepts : DbOp → Bool
  | .insertObservationKeyed obs key id now =>
    (Store.insertObservationKeyed E.eventIdentity db.store obs key id now).isOk
  | .admitEvent session obs filter key movedFrom id now =>
    (admitHookSessionEvent E.validOwner E.eventIdentity db.store session obs filter key movedFrom id
      now).isOk
  | _ => true

def Admissible (s : Store) : DbOp → Prop
  | .admitEvent session obs filter _ _ _ _ =>
    (obs.sessionId = session.id ∧ obs.workspaceId = session.workspaceId ∧
        obs.projectId = session.projectId) ∧
      ∀ r, s.findSession session.id = some r → identityMatches E.validOwner r session filter = true
  | _ => True

/-- Nothing but its key stands against a delivery: its session is there or can be begun, its
projects are there, its identifier is new, and a session end has something to end. -/
def Unhindered (s : Store) : DbOp → Prop
  | .insertObservationKeyed obs _ id _ =>
    (s.findSession obs.sessionId).isSome ∧ s.paired obs.workspaceId obs.projectId ∧
      ∀ o ∈ s.observations, o.id ≠ id
  | .admitEvent session obs filter key movedFrom id now =>
    Admissible E s (.admitEvent session obs filter key movedFrom id now) ∧
      s.paired session.workspaceId session.projectId ∧ (∀ o ∈ s.observations, o.id ≠ id) ∧
      match s.findSession session.id with
      | some r => s.paired r.workspaceId r.projectId ∧ (obs.kind = .sessionEnd →
          (r.workspaceId = session.workspaceId ∧ r.projectId = session.projectId ∨
            sameCwd r.cwd session.cwd) ∧
          (r.endedAt.isSome → r.endedObservationCount < s.observationCount session.id))
      | none => obs.kind ≠ .sessionEnd ∧ session.actorUser.all E.validOwner ∧
          filter.admits session.actorUser ∧ ¬ s.sessionIsPurged session
  | _ => True

lemma Unhindered.admissible {E : Env} {s : Store} {op : DbOp} (h : Unhindered E s op) :
    Admissible E s op := by
  cases op with
  | admitEvent session obs filter key movedFrom id now => exact h.1
  | _ => trivial

/-- The ledger after an operation: a completion marks the claims of its key; an
answered delivery drops what is out of retention, and enters its observation if
it inserted one. -/
def advance (ledger : List Claim) (op : DbOp) : List Claim :=
  match op with
  | .completeIngest proj key _ => ledger.map (Claim.mark db.store proj key)
  | op => match delivery db.store op, answer E db op with
    | some d, some out => ledger.filter (Claim.retained db.store ledger d.now) ++ d.entry out
    | _, _ => ledger

def ledgerStep (x : Database × List Claim) (op : DbOp) : Database × List Claim :=
  (dbStep E x.1 op, advance E x.1 x.2 op)

/-- What becomes of a delivery, in terms of the claims of its key in its
project. -/
structure IngestLaw (E : Env) (db : Database) (ledger : List Claim) (op : DbOp) (d : Delivery) :
    Prop where
  /-- Nothing is inserted twice. -/
  inserted : ∀ id, answer E db op = some (.inserted id) →
    ∀ c ∈ ledger, c.holds db.store d.event.projectId d.key = true →
      c.retained db.store ledger d.now = false
  resumePending : answer E db op = some .resumePending →
    (∃ c ∈ ledger, c.holds db.store d.event.projectId d.key = true ∧
        c.retained db.store ledger d.now = true) ∧
      ∀ c ∈ ledger, c.holds db.store d.event.projectId d.key = true → c.completed = false
  alreadyComplete : answer E db op = some .alreadyComplete →
    ∃ c ∈ ledger, c.holds db.store d.event.projectId d.key = true ∧
      c.retained db.store ledger d.now = true ∧ c.completed = true
  /-- Unless another event has its recovery key, an unhindered delivery is answered: so it is
  inserted first, resumed until it is completed and skipped afterwards. -/
  answered : Unhindered E db.store op →
    (recoveryIngestKey d.key = true → ∀ c ∈ ledger,
      c.holds db.store d.event.projectId d.key = true → d.event.payload = c.event.payload) →
    ∃ out, answer E db op = some out
  /-- Another event under a recovery key is refused, and nothing changes. -/
  refused : recoveryIngestKey d.key = true → ∀ c ∈ ledger,
    c.holds db.store d.event.projectId d.key = true →
    d.event.payload ≠ c.event.payload ∨ d.agent ≠ c.agent →
    answer E db op = none ∧ dbStep E db op = db
  /-- The event itself is not, whoever may write to its session. -/
  accepted : recoveryIngestKey d.key = true → ∀ c ∈ ledger,
    c.holds db.store d.event.projectId d.key = true → d.event.payload = c.event.payload →
    Admissible E db.store op → accepts E db op = true

end Database

namespace Store

/-! ### The table and the ledger -/

def homes (s : Store) : List (ObservationId × SessionId × ProjectId) :=
  s.observations.map fun o => (o.id, o.sessionId, o.projectId)

def IngestKeyRow.binding (k : IngestKeyRow) :
    Option SessionId × Option String × Option ObservationKind × Option String × Bool :=
  (k.sessionId, k.agentKind, k.observationKind, k.eventIdentity, k.recoveryRetained)

def Claim.binding (f : NewObservation → Option String → String) (c : Claim) :
    Option SessionId × Option String × Option ObservationKind × Option String × Bool :=
  if recoveryIngestKey c.key then
    (some c.event.sessionId, c.agent, some c.event.kind, some (f c.event c.agent), true)
  else (none, none, none, none, false)

variable {f : NewObservation → Option String → String} {s s' : Store} {ledger : List Claim}
  {c c' : Claim} {proj : ProjectId} {now : ℤ}

lemma livesIn_iff : c.livesIn s proj ↔ ∃ sid, (c.observation, sid, proj) ∈ homes s := by
  rw [Claim.livesIn, any_eq_true]
  constructor
  · rintro ⟨o, ho, hboth⟩
    rw [Bool.and_eq_true, decide_eq_true_eq, decide_eq_true_eq] at hboth
    refine ⟨o.sessionId, mem_map.mpr ⟨o, ho, ?_⟩⟩
    rw [hboth.1, hboth.2]
  · rintro ⟨sid, hmem⟩
    obtain ⟨o, ho, heq⟩ := mem_map.mp hmem
    rw [Prod.mk.injEq, Prod.mk.injEq] at heq
    exact ⟨o, ho, by simp [heq.1, heq.2.2]⟩

lemma holds_iff {key : String} : c.holds s proj key ↔
    (∃ sid, (c.observation, sid, proj) ∈ homes s) ∧ c.key = key := by
  rw [Claim.holds, Bool.and_eq_true, livesIn_iff, decide_eq_true_eq]

lemma shares_iff : c.shares s c' ↔
    c'.key = c.key ∧ ∃ proj, c.livesIn s proj = true ∧ c'.livesIn s proj := by
  rw [Claim.shares, any_eq_true]
  constructor
  · rintro ⟨o, ho, hboth⟩
    rw [Bool.and_eq_true, decide_eq_true_eq, Claim.holds, Bool.and_eq_true, decide_eq_true_eq]
      at hboth
    obtain ⟨hid, hlives, hkey⟩ := hboth
    refine ⟨hkey, o.projectId, any_eq_true.mpr ⟨o, ho, ?_⟩, hlives⟩
    simp [hid]
  · rintro ⟨hkey, proj, hlives, hlives'⟩
    obtain ⟨o, ho, hboth⟩ := any_eq_true.mp hlives
    rw [Bool.and_eq_true, decide_eq_true_eq, decide_eq_true_eq] at hboth
    refine ⟨o, ho, ?_⟩
    rw [hboth.2, Claim.holds, hlives']
    simp [hboth.1, hkey]

/-- How the store and the ledger of claims agree. -/
structure Kept (f : NewObservation → Option String → String) (s : Store) (ledger : List Claim) :
    Prop where
  ids : KeyUnique Prod.fst (homes s)
  keys : KeyUnique IngestKeyRow.pk s.ingestKeys
  filed : ∀ c ∈ ledger, ∃ proj, (c.observation, c.event.sessionId, proj) ∈ homes s
  agents : ∀ c ∈ ledger, recoveryIngestKey c.key = true →
    c.agent.isSome = true ∧ s.agentOf c.event.sessionId = c.agent
  /-- A claim has a row, where its observation is. -/
  held : ∀ c ∈ ledger, ∀ proj, c.livesIn s proj = true → ∃ k ∈ s.ingestKeys,
    k.projectId = proj ∧ k.key = c.key ∧ k.binding = c.binding f ∧
      (recoveryIngestKey c.key = false → c.seenAt ≤ k.seenAt)
  /-- A row was claimed, when it says. -/
  claimed : ∀ k ∈ s.ingestKeys, ∃ c ∈ ledger, c.holds s k.projectId k.key = true ∧
    c.seenAt = k.seenAt
  completed : ∀ k ∈ s.ingestKeys, k.completedAt.isSome = true ↔
    ∃ c ∈ ledger, c.holds s k.projectId k.key = true ∧ c.completed = true

lemma kept_empty : Kept f empty [] where
  ids := nodup_nil
  keys := nodup_nil
  filed := fun _ hc => absurd hc not_mem_nil
  agents := fun _ hc => absurd hc not_mem_nil
  held := fun _ hc => absurd hc not_mem_nil
  claimed := fun _ hk => absurd hk not_mem_nil
  completed := fun _ hk => absurd hk not_mem_nil

lemma Kept.home_eq (h : Kept f s ledger) {sid sid' : SessionId} {proj' : ProjectId}
    (hmem : (c.observation, sid, proj) ∈ homes s) (hmem' : (c.observation, sid', proj') ∈ homes s) :
    sid = sid' ∧ proj = proj' := by
  have heq := h.ids.eq hmem hmem' rfl
  rw [Prod.mk.injEq, Prod.mk.injEq] at heq
  exact heq.2

lemma Kept.row (h : Kept f s ledger) (hc : c ∈ ledger) {k : IngestKeyRow} (hk : k ∈ s.ingestKeys)
    (hholds : c.holds s k.projectId k.key) :
    k.binding = c.binding f ∧ (recoveryIngestKey c.key = false → c.seenAt ≤ k.seenAt) := by
  rw [Claim.holds, Bool.and_eq_true, decide_eq_true_eq] at hholds
  obtain ⟨k', hk', hproj, hkey, hrow⟩ := h.held c hc k.projectId hholds.1
  rw [h.keys.eq hk hk' (IngestKeyRow.pk_eq_iff.mpr ⟨hproj.symm, (hkey.trans hholds.2).symm⟩)]
  exact hrow

lemma Kept.frame (h : Kept f s ledger) (hids : KeyUnique Prod.fst (homes s'))
    (hhomes : homes s ⊆ homes s')
    (hlives : ∀ c ∈ ledger, ∀ proj, c.livesIn s' proj = c.livesIn s proj)
    (hkeys : s'.ingestKeys = s.ingestKeys)
    (hagents : ∀ sid a, s.agentOf sid = some a → s'.agentOf sid = some a) : Kept f s' ledger := by
  have hholds : ∀ c ∈ ledger, ∀ proj key, c.holds s' proj key = c.holds s proj key := by
    intro c hc proj key
    rw [Claim.holds, hlives c hc, Claim.holds]
  refine ⟨hids, hkeys ▸ h.keys, fun c hc => ?_, fun c hc hrec => ?_, fun c hc proj hin => ?_,
    fun k hk => ?_, fun k hk => ?_⟩
  · obtain ⟨proj, hhome⟩ := h.filed c hc
    exact ⟨proj, hhomes hhome⟩
  · obtain ⟨hsome, hagent⟩ := h.agents c hc hrec
    obtain ⟨a, ha⟩ := Option.isSome_iff_exists.mp hsome
    refine ⟨hsome, ?_⟩
    rw [ha] at hagent ⊢
    exact hagents _ a hagent
  · rw [hlives c hc] at hin
    rw [hkeys]
    exact h.held c hc proj hin
  · rw [hkeys] at hk
    obtain ⟨c, hc, hrow, hseen⟩ := h.claimed k hk
    exact ⟨c, hc, (hholds c hc _ _).trans hrow, hseen⟩
  · rw [hkeys] at hk
    rw [h.completed k hk]
    refine exists_congr fun c => and_congr_right fun hc => ?_
    rw [hholds c hc]

lemma Kept.quiet (h : Kept f s ledger) (hhomes : homes s' = homes s)
    (hkeys : s'.ingestKeys = s.ingestKeys)
    (hagents : ∀ sid a, s.agentOf sid = some a → s'.agentOf sid = some a) : Kept f s' ledger := by
  refine h.frame (hhomes ▸ h.ids) (hhomes ▸ List.Subset.refl _) (fun c _ proj => ?_) hkeys hagents
  rw [Bool.eq_iff_iff, livesIn_iff, livesIn_iff, hhomes]

/-! ### Deliveries and completions -/

theorem binding_retained {k : IngestKeyRow} (h : k.binding = c.binding f) :
    k.recoveryRetained = recoveryIngestKey c.key := by
  rw [IngestKeyRow.binding, Claim.binding] at h
  split at h
  · rename_i hrec
    rw [hrec]
    simp only [Prod.mk.injEq] at h
    exact h.2.2.2.2
  · rename_i hrec
    rw [Bool.not_eq_true] at hrec
    rw [hrec]
    simp only [Prod.mk.injEq] at h
    exact h.2.2.2.2

lemma Kept.retained_iff (h : Kept f s ledger) (hc : c ∈ ledger) {k : IngestKeyRow}
    (hk : k ∈ s.ingestKeys) (hholds : c.holds s k.projectId k.key) :
    c.retained s ledger now ↔
      (!k.recoveryRetained && decide (k.seenAt < now - ingestKeyTtlMicros)) = false := by
  obtain ⟨hbinding, -⟩ := h.row hc hk hholds
  rw [binding_retained hbinding, Claim.retained, Bool.or_eq_true]
  by_cases hrec : recoveryIngestKey c.key
  · simp [hrec]
  · rw [Bool.not_eq_true] at hrec
    rw [hrec, Bool.not_false, Bool.true_and, decide_eq_false_iff_not, not_lt, any_eq_true]
    obtain ⟨⟨sid, hhome⟩, hkey⟩ := holds_iff.mp hholds
    constructor
    · rintro (hfalse | ⟨c', hc', hboth⟩)
      · cases hfalse
      · rw [Bool.and_eq_true, decide_eq_true_eq, shares_iff] at hboth
        obtain ⟨⟨hkey', proj, hlives, hlives'⟩, hseen⟩ := hboth
        -- the other claim is of this row too
        obtain ⟨sid', hhome'⟩ := livesIn_iff.mp hlives
        rw [← (h.home_eq hhome hhome').2] at hlives'
        have hholds' : c'.holds s k.projectId k.key :=
          holds_iff.mpr ⟨livesIn_iff.mp hlives', hkey'.trans hkey⟩
        exact hseen.trans ((h.row hc' hk hholds').2 (hkey' ▸ hrec))
    · intro hseen
      obtain ⟨c', hc', hholds', hlast⟩ := h.claimed k hk
      rw [Claim.holds, Bool.and_eq_true, decide_eq_true_eq] at hholds'
      refine .inr ⟨c', hc', ?_⟩
      rw [Bool.and_eq_true, decide_eq_true_eq, shares_iff, hlast]
      exact ⟨⟨hholds'.2.trans hkey.symm, k.projectId, livesIn_iff.mpr ⟨sid, hhome⟩, hholds'.1⟩,
        hseen⟩

lemma Kept.sweep (h : Kept f s ledger) (now : ℤ) :
    Kept f (s.sweepIngestKeys now) (ledger.filter (Claim.retained s ledger now)) := by
  have hmem : ∀ c, c ∈ ledger.filter (Claim.retained s ledger now) ↔
      c ∈ ledger ∧ c.retained s ledger now := fun c => mem_filter
  refine ⟨h.ids, h.keys.delete, fun c hc => h.filed c ((hmem c).mp hc).1,
    fun c hc => h.agents c ((hmem c).mp hc).1, fun c hc proj hlives => ?_, fun k hk => ?_,
    fun k hk => ?_⟩
  · rw [hmem] at hc
    obtain ⟨k, hk, hproj, hkey, hrow⟩ := h.held c hc.1 proj hlives
    have hholds : c.holds s k.projectId k.key :=
      holds_iff.mpr ⟨livesIn_iff.mp (hproj.symm ▸ hlives), hkey.symm⟩
    exact ⟨k, mem_delete.mpr ⟨hk, (h.retained_iff hc.1 hk hholds).mp hc.2⟩, hproj, hkey, hrow⟩
  · obtain ⟨hk, hstays⟩ := mem_delete.mp hk
    obtain ⟨c, hc, hholds, hseen⟩ := h.claimed k hk
    exact ⟨c, (hmem c).mpr ⟨hc, (h.retained_iff hc hk hholds).mpr hstays⟩, hholds, hseen⟩
  · obtain ⟨hk, hstays⟩ := mem_delete.mp hk
    rw [h.completed k hk]
    constructor
    · rintro ⟨c, hc, hholds, hdone⟩
      exact ⟨c, (hmem c).mpr ⟨hc, (h.retained_iff hc hk hholds).mpr hstays⟩, hholds, hdone⟩
    · rintro ⟨c, hc, hholds, hdone⟩
      exact ⟨c, ((hmem c).mp hc).1, hholds, hdone⟩

lemma homes_fresh {id : ObservationId} (hfresh : ∀ o ∈ s.observations, o.id ≠ id)
    {x : ObservationId × SessionId × ProjectId} (hx : x ∈ homes s) : x.1 ≠ id := by
  obtain ⟨o, ho, rfl⟩ := mem_map.mp hx
  exact hfresh o ho

section Append

variable {o : ObservationRow} (hobs : s'.observations = s.observations ++ [o])
  (hfresh : ∀ x ∈ s.observations, x.id ≠ o.id)
include hobs

lemma homes_append : homes s' = homes s ++ [(o.id, o.sessionId, o.projectId)] := by
  rw [homes, hobs, map_append]
  rfl

include hfresh

lemma Kept.ids_append (h : Kept f s ledger) : KeyUnique Prod.fst (homes s') := by
  rw [homes_append hobs]
  exact keyUnique_append_singleton.mpr ⟨h.ids, fun x hx => homes_fresh hfresh hx⟩

lemma Kept.livesIn_append (h : Kept f s ledger) (hc : c ∈ ledger) (proj : ProjectId) :
    c.livesIn s' proj = c.livesIn s proj := by
  obtain ⟨home, hhome⟩ := h.filed c hc
  have hother : decide (o.id = c.observation) = false :=
    decide_eq_false fun heq => homes_fresh hfresh hhome heq.symm
  rw [Claim.livesIn, hobs, any_append, any_cons, hother]
  simp [Claim.livesIn]

lemma Kept.append (h : Kept f s ledger) (hkeys : s'.ingestKeys = s.ingestKeys)
    (hagents : ∀ sid a, s.agentOf sid = some a → s'.agentOf sid = some a) : Kept f s' ledger := by
  refine h.frame (h.ids_append hobs hfresh) ?_ (fun c hc => h.livesIn_append hobs hfresh hc) hkeys
    hagents
  rw [homes_append hobs]
  exact subset_append_left _ _

end Append

lemma claimedKey_binding (d : Delivery) (id : ObservationId) :
    (claimedKey f d.event d.agent d.key d.now).binding = (d.claim id).binding f := by
  cases hrec : recoveryIngestKey d.key <;>
    simp [IngestKeyRow.binding, claimedKey, Claim.binding, Delivery.claim, recoveryIdentity, hrec]

lemma Kept.insert (h : Kept f s ledger) {d : Delivery} {id : ObservationId}
    (hfree : ∀ k ∈ s.ingestKeys, ¬ (k.projectId = d.event.projectId ∧ k.key = d.key))
    (hfresh : ∀ o ∈ s.observations, o.id ≠ id)
    (hagent : recoveryIngestKey d.key →
      d.agent.isSome ∧ s.agentOf d.event.sessionId = d.agent)
    (hkeys : s'.ingestKeys = s.ingestKeys ++ [claimedKey f d.event d.agent d.key d.now])
    (hobs : s'.observations = s.observations ++ [d.event.row id d.now])
    (hsessions : s'.sessions = s.sessions) : Kept f s' (ledger ++ [d.claim id]) := by
  have hhome : (id, d.event.sessionId, d.event.projectId) ∈ homes s' := by
    rw [homes_append hobs]
    exact mem_append_right _ mem_cons_self
  have hids := h.ids_append hobs hfresh
  have hagents : ∀ sid, s'.agentOf sid = s.agentOf sid := by
    intro sid
    rw [agentOf, findSession, hsessions]
    rfl
  -- the homes of the earlier claims, and that of the new one
  have hold : ∀ c ∈ ledger, ∀ proj key, c.holds s' proj key = c.holds s proj key := by
    intro c hc proj key
    rw [Claim.holds, h.livesIn_append hobs hfresh hc, Claim.holds]
  have hnew : ∀ proj, (d.claim id).livesIn s' proj = true ↔ proj = d.event.projectId := by
    intro proj
    rw [livesIn_iff]
    constructor
    · rintro ⟨sid, hmem⟩
      have heq := hids.eq hmem hhome rfl
      rw [Prod.mk.injEq, Prod.mk.injEq] at heq
      exact heq.2.2
    · rintro rfl
      exact ⟨_, hhome⟩
  have hmem : ∀ c, c ∈ ledger ++ [d.claim id] ↔ c ∈ ledger ∨ c = d.claim id := by
    intro c
    rw [mem_append, mem_singleton]
  have hrow : ∀ k, k ∈ s'.ingestKeys ↔
      k ∈ s.ingestKeys ∨ k = claimedKey f d.event d.agent d.key d.now := by
    intro k
    rw [hkeys, mem_append, mem_singleton]
  have hnone : ∀ c ∈ ledger, c.holds s d.event.projectId d.key = false := by
    intro c hc
    rw [← Bool.not_eq_true]
    intro hholds
    rw [Claim.holds, Bool.and_eq_true, decide_eq_true_eq] at hholds
    obtain ⟨k, hk, hproj, hkey, -⟩ := h.held c hc _ hholds.1
    exact hfree k hk ⟨hproj, hkey.trans hholds.2⟩
  refine ⟨hids, ?_, fun c hc => ?_, fun c hc hrec => ?_, fun c hc proj hlives => ?_,
    fun k hk => ?_, fun k hk => ?_⟩
  · rw [hkeys]
    exact keyUnique_append_singleton.mpr
      ⟨h.keys, fun k hk hpk => hfree k hk (IngestKeyRow.pk_eq_iff.mp hpk)⟩
  · rcases (hmem c).mp hc with hc | rfl
    · obtain ⟨proj, hfiled⟩ := h.filed c hc
      rw [homes_append hobs]
      exact ⟨proj, mem_append_left _ hfiled⟩
    · exact ⟨_, hhome⟩
  · rw [hagents]
    rcases (hmem c).mp hc with hc | rfl
    · exact h.agents c hc hrec
    · exact hagent hrec
  · rcases (hmem c).mp hc with hc | rfl
    · rw [h.livesIn_append hobs hfresh hc] at hlives
      obtain ⟨k, hk, hfound⟩ := h.held c hc proj hlives
      exact ⟨k, (hrow k).mpr (.inl hk), hfound⟩
    · refine ⟨_, (hrow _).mpr (.inr rfl), ((hnew proj).mp hlives).symm, rfl,
        claimedKey_binding d id, fun _ => le_refl _⟩
  · rcases (hrow k).mp hk with hk | rfl
    · obtain ⟨c, hc, hholds, hseen⟩ := h.claimed k hk
      exact ⟨c, (hmem c).mpr (.inl hc), (hold c hc _ _).trans hholds, hseen⟩
    · exact ⟨_, (hmem _).mpr (.inr rfl), holds_iff.mpr ⟨⟨_, hhome⟩, rfl⟩, rfl⟩
  · rcases (hrow k).mp hk with hk | rfl
    · rw [h.completed k hk]
      constructor
      · rintro ⟨c, hc, hholds, hdone⟩
        exact ⟨c, (hmem c).mpr (.inl hc), (hold c hc _ _).trans hholds, hdone⟩
      · rintro ⟨c, hc, hholds, hdone⟩
        rcases (hmem c).mp hc with hc | rfl
        · exact ⟨c, hc, (hold c hc _ _).symm.trans hholds, hdone⟩
        · cases hdone
    · -- nobody completed a key that was free
      constructor
      · intro hsome
        cases hsome
      · rintro ⟨c, hc, hholds, hdone⟩
        rcases (hmem c).mp hc with hc | rfl
        · have hno : c.holds s d.event.projectId d.key := (hold c hc _ _).symm.trans hholds
          rw [hnone c hc] at hno
          cases hno
        · cases hdone

lemma Claim.mark_eq (s : Store) (proj : ProjectId) (key : String) (c : Claim) :
    c.mark s proj key = { c with completed := c.holds s proj key || c.completed } := by
  rw [mark]
  split
  · rename_i hholds
    rw [hholds]
    rfl
  · rename_i hholds
    rw [Bool.not_eq_true] at hholds
    rw [hholds]
    rfl

lemma Kept.complete (h : Kept f s ledger) {key : String} (now : ℤ)
    (hkeys : s'.ingestKeys = update (fun k => k.projectId = proj && k.key = key)
      (fun k => { k with completedAt := some (k.completedAt.getD now) }) s.ingestKeys)
    (hobs : s'.observations = s.observations) (hsessions : s'.sessions = s.sessions) :
    Kept f s' (ledger.map (Claim.mark s proj key)) := by
  have hhomes : homes s' = homes s := by
    rw [homes, hobs]
    rfl
  have hlives : ∀ (c : Claim) p, (c.mark s proj key).livesIn s' p = c.livesIn s p := by
    intro c p
    rw [Claim.mark_eq, Claim.livesIn, hobs]
    rfl
  have hholds : ∀ (c : Claim) p x, (c.mark s proj key).holds s' p x = c.holds s p x := by
    intro c p x
    rw [Claim.holds, hlives, Claim.mark_eq]
    rfl
  have hrow : ∀ k', k' ∈ s'.ingestKeys → ∃ k ∈ s.ingestKeys,
      k'.projectId = k.projectId ∧ k'.key = k.key ∧ k'.seenAt = k.seenAt ∧
        (k'.completedAt.isSome ↔
          k.projectId = proj ∧ k.key = key ∨ k.completedAt.isSome) := by
    intro k' hk'
    rw [hkeys] at hk'
    obtain ⟨k, hk, rfl⟩ := mem_update.mp hk'
    refine ⟨k, hk, ?_⟩
    by_cases hhere : k.projectId = proj ∧ k.key = key
    · simp [hhere.1, hhere.2]
    · have hno : (decide (k.projectId = proj) && decide (k.key = key)) = false := by
        rw [Bool.and_eq_false_iff, decide_eq_false_iff_not, decide_eq_false_iff_not]
        exact not_and_or.mp hhere
      simp [hno, hhere]
  refine ⟨hhomes ▸ h.ids, ?_, fun c' hc' => ?_, fun c' hc' hrec => ?_, fun c' hc' p hin => ?_,
    fun k' hk' => ?_, fun k' hk' => ?_⟩
  · rw [hkeys]
    exact h.keys.update fun _ => rfl
  · obtain ⟨c, hc, rfl⟩ := mem_map.mp hc'
    rw [hhomes, Claim.mark_eq]
    exact h.filed c hc
  · obtain ⟨c, hc, rfl⟩ := mem_map.mp hc'
    rw [Claim.mark_eq] at hrec ⊢
    rw [agentOf, findSession, hsessions]
    exact h.agents c hc hrec
  · obtain ⟨c, hc, rfl⟩ := mem_map.mp hc'
    rw [hlives] at hin
    obtain ⟨k, hk, hproj, hkey, hbinding, hseen⟩ := h.held c hc p hin
    rw [hkeys, Claim.mark_eq]
    refine ⟨_, mem_update.mpr ⟨k, hk, rfl⟩, ?_⟩
    split <;> exact ⟨hproj, hkey, hbinding, hseen⟩
  · obtain ⟨k, hk, hproj, hkey, hseen, -⟩ := hrow k' hk'
    obtain ⟨c, hc, hrec, hlast⟩ := h.claimed k hk
    refine ⟨_, mem_map_of_mem hc, ?_, ?_⟩
    · rw [hholds, hproj, hkey]
      exact hrec
    · rw [Claim.mark_eq, hseen]
      exact hlast
  · obtain ⟨k, hk, hproj, hkey, -, hdone⟩ := hrow k' hk'
    rw [hdone, h.completed k hk, hproj, hkey]
    constructor
    · rintro (⟨rfl, rfl⟩ | ⟨c, hc, hrec, hmarked⟩)
      · obtain ⟨c, hc, hrec, -⟩ := h.claimed k hk
        refine ⟨_, mem_map_of_mem hc, (hholds c _ _).trans hrec, ?_⟩
        rw [Claim.mark_eq, hrec]
        rfl
      · refine ⟨_, mem_map_of_mem hc, (hholds c _ _).trans hrec, ?_⟩
        rw [Claim.mark_eq, hmarked, Bool.or_true]
    · rintro ⟨c', hc', hrec, hmarked⟩
      obtain ⟨c, hc, rfl⟩ := mem_map.mp hc'
      rw [hholds] at hrec
      rw [Claim.mark_eq, Bool.or_eq_true] at hmarked
      rcases hmarked with hhere | hmarked
      · -- a claim that was marked is of this row
        obtain ⟨⟨sid, hhome⟩, hkeyed⟩ := holds_iff.mp hrec
        obtain ⟨⟨sid', hhome'⟩, hkeyed'⟩ := holds_iff.mp hhere
        exact .inl ⟨(h.home_eq hhome hhome').2, hkeyed.symm.trans hkeyed'⟩
      · exact .inr ⟨c, hc, hrec, hmarked⟩

/-- Observations are filed elsewhere, by session and project, and their keys with
them: the row of `k` goes to `place k`, or meets another one of its key there. -/
structure Rehomes (f : NewObservation → Option String → String) (s : Store) (ledger : List Claim)
    (s' : Store) (filing : SessionId → ProjectId → ProjectId) (place : IngestKeyRow → ProjectId) :
    Prop where
  homes : homes s' = (homes s).map fun x => (x.1, x.2.1, filing x.2.1 x.2.2)
  agents : ∀ sid a, s.agentOf sid = some a → s'.agentOf sid = some a
  keys : KeyUnique IngestKeyRow.pk s'.ingestKeys
  /-- A row goes where its claims go. -/
  follow : ∀ c ∈ ledger, ∀ k ∈ s.ingestKeys, c.holds s k.projectId k.key = true →
    filing c.event.sessionId k.projectId = place k
  kept : ∀ k ∈ s.ingestKeys, ∃ k' ∈ s'.ingestKeys, k'.projectId = place k ∧ k'.key = k.key ∧
    k'.binding = k.binding ∧ (recoveryIngestKey k.key = false → k.seenAt ≤ k'.seenAt)
  from' : ∀ k' ∈ s'.ingestKeys, ∃ k ∈ s.ingestKeys, place k = k'.projectId ∧ k.key = k'.key ∧
    k.seenAt = k'.seenAt
  completed : ∀ k' ∈ s'.ingestKeys, k'.completedAt.isSome = true ↔
    ∃ k ∈ s.ingestKeys, place k = k'.projectId ∧ k.key = k'.key ∧ k.completedAt.isSome = true

/-- Operations that file rows elsewhere keep the ledger, if the keys go where the observations go. -/
theorem Kept.rehome (h : Kept f s ledger) {filing : SessionId → ProjectId → ProjectId}
    {place : IngestKeyRow → ProjectId} (hmove : Rehomes f s ledger s' filing place) :
    Kept f s' ledger := by
  have hthere : ∀ id sid p, (id, sid, p) ∈ homes s' ↔
      ∃ q, (id, sid, q) ∈ homes s ∧ p = filing sid q := by
    intro id sid p
    rw [hmove.homes, mem_map]
    constructor
    · rintro ⟨⟨id', sid', q⟩, hmem, heq⟩
      rw [Prod.mk.injEq, Prod.mk.injEq] at heq
      obtain ⟨rfl, rfl, rfl⟩ := heq
      exact ⟨q, hmem, rfl⟩
    · rintro ⟨q, hmem, rfl⟩
      exact ⟨_, hmem, rfl⟩
  -- a claim of a row is a claim where the row goes
  have hmoved : ∀ c ∈ ledger, ∀ k ∈ s.ingestKeys, c.holds s k.projectId k.key = true →
      c.holds s' (place k) k.key := by
    intro c hc k hk hholds
    obtain ⟨⟨sid, hhome⟩, hkey⟩ := holds_iff.mp hholds
    obtain ⟨q, hfiled⟩ := h.filed c hc
    have hsid := (h.home_eq hhome hfiled).1
    refine holds_iff.mpr ⟨⟨sid, (hthere _ _ _).mpr ⟨k.projectId, hhome, ?_⟩⟩, hkey⟩
    rw [hsid, hmove.follow c hc k hk hholds]
  -- and the row of a claim goes where the claim is
  have hcame : ∀ c ∈ ledger, ∀ p, c.livesIn s' p = true → ∃ k ∈ s.ingestKeys,
      c.holds s k.projectId k.key = true ∧ place k = p := by
    intro c hc p hlives
    obtain ⟨sid, hmem⟩ := livesIn_iff.mp hlives
    obtain ⟨q, hhome, rfl⟩ := (hthere _ _ _).mp hmem
    obtain ⟨q', hfiled⟩ := h.filed c hc
    obtain ⟨hsid, -⟩ := h.home_eq hhome hfiled
    obtain ⟨k, hk, rfl, hkey, -⟩ := h.held c hc q (livesIn_iff.mpr ⟨sid, hhome⟩)
    have hholds : c.holds s k.projectId k.key :=
      holds_iff.mpr ⟨⟨sid, hhome⟩, hkey.symm⟩
    refine ⟨k, hk, hholds, ?_⟩
    rw [hsid, hmove.follow c hc k hk hholds]
  refine ⟨?_, hmove.keys, fun c hc => ?_, fun c hc hrec => ?_, fun c hc p hlives => ?_,
    fun k' hk' => ?_, fun k' hk' => ?_⟩
  · rw [hmove.homes, KeyUnique, map_map]
    exact h.ids
  · obtain ⟨q, hfiled⟩ := h.filed c hc
    exact ⟨_, (hthere _ _ _).mpr ⟨q, hfiled, rfl⟩⟩
  · obtain ⟨hsome, hagent⟩ := h.agents c hc hrec
    obtain ⟨a, ha⟩ := Option.isSome_iff_exists.mp hsome
    refine ⟨hsome, ?_⟩
    rw [ha] at hagent ⊢
    exact hmove.agents _ a hagent
  · obtain ⟨k, hk, hholds, rfl⟩ := hcame c hc p hlives
    obtain ⟨hbinding, hseen⟩ := h.row hc hk hholds
    obtain ⟨k', hk', hproj, hkey, hsame, hlater⟩ := hmove.kept k hk
    have hkeyed := (holds_iff.mp hholds).2
    refine ⟨k', hk', hproj, hkey.trans hkeyed.symm, hsame.trans hbinding, fun hrec => ?_⟩
    exact (hseen hrec).trans (hlater (hkeyed ▸ hrec))
  · obtain ⟨k, hk, hplace, hkey, hseen⟩ := hmove.from' k' hk'
    obtain ⟨c, hc, hholds, hlast⟩ := h.claimed k hk
    refine ⟨c, hc, ?_, hlast.trans hseen⟩
    rw [← hplace, ← hkey]
    exact hmoved c hc k hk hholds
  · rw [hmove.completed k' hk']
    constructor
    · rintro ⟨k, hk, hplace, hkey, hdone⟩
      obtain ⟨c, hc, hholds, hmarked⟩ := (h.completed k hk).mp hdone
      refine ⟨c, hc, ?_, hmarked⟩
      rw [← hplace, ← hkey]
      exact hmoved c hc k hk hholds
    · rintro ⟨c, hc, hholds, hmarked⟩
      rw [Claim.holds, Bool.and_eq_true, decide_eq_true_eq] at hholds
      obtain ⟨k, hk, hrec, hplace⟩ := hcame c hc _ hholds.1
      refine ⟨k, hk, hplace, ?_, (h.completed k hk).mpr ⟨c, hc, hrec, hmarked⟩⟩
      exact (holds_iff.mp hrec).2.symm.trans hholds.2

end Store
