/-
Keyed events are recorded once.

The answers of the two entry points follow the ledger: a redelivery of an event
to the project its observation is in inserts nothing, is resumed until it is
completed and skipped afterwards, and a recovery key answers to its own event
only.  They do so as long as the keys follow their observations: a merge forgets
what a recovery key is bound to, and a session move leaves ordinary keys behind.
-/
import AiMemory.Store.Ledger

open Table Runs List

namespace Store

variable {s s' : Store} {sid : SessionId} {a : String}

def agents (s : Store) : List (SessionId × String) := s.sessions.map fun r => (r.id, r.agentKind)

lemma agentOf_eq (s : Store) (sid : SessionId) :
    s.agentOf sid = ((agents s).find? fun x => x.1 = sid).map Prod.snd := by
  rw [agents, find?_map, Option.map_map]
  rfl

lemma agentOf_of_prefix (h : agents s <+: agents s') (ha : s.agentOf sid = some a) :
    s'.agentOf sid = some a := by
  obtain ⟨new, hnew⟩ := h
  rw [agentOf_eq] at ha ⊢
  rw [← hnew, find?_append]
  obtain ⟨x, hx, rfl⟩ := Option.map_eq_some_iff.mp ha
  rw [hx]
  rfl

lemma agentOf_of_eq (h : agents s' = agents s) (sid : SessionId) : s'.agentOf sid = s.agentOf sid := by
  rw [agentOf_eq, agentOf_eq, h]

lemma agentOf_of_find {r : SessionRow} (h : s.findSession sid = some r) :
    s.agentOf sid = some r.agentKind := by
  rw [agentOf, h]
  rfl

end Store

namespace Database

open Store Projects

variable {E : Env} {db : Database} {ledger : List Claim} {op : DbOp} {d : Delivery}
  {out : IngestOutcome}

lemma answered (hd : delivery db.store op = some d) (hout : answer E db op = some out) :
    ∃ s₀ s₁ id, s₀.ingestKeys = db.store.ingestKeys ∧ s₀.observations = db.store.observations ∧
      agents db.store <+: agents s₀ ∧
      (recoveryIngestKey d.key →
        d.agent.isSome ∧ s₀.agentOf d.event.sessionId = d.agent) ∧
      claimIngestKey E.eventIdentity s₀ d.event d.agent d.key id d.now = .ok (out, s₁) ∧
      (dbStep E db op).store.ingestKeys = s₁.ingestKeys ∧
      (dbStep E db op).store.observations = s₁.observations ∧
      agents (dbStep E db op).store = agents s₁ := by
  cases op with
  | insertObservationKeyed obs key id now =>
    rw [delivery, Option.some.injEq] at hd
    subst hd
    rw [answer, Option.map_eq_some_iff] at hout
    obtain ⟨⟨out', s₁⟩, hres, rfl⟩ := hout
    have hok := toOption_eq_some.mp hres
    have hstep : dbStep E db (.insertObservationKeyed obs key id now) = db.withStore s₁ := by
      rw [dbStep, hok]
      rfl
    unfold Store.insertObservationKeyed at hok
    simp only at hok
    split at hok
    · cases hok
    · rename_i hbound
      refine ⟨db.store, s₁, id, rfl, rfl, prefix_refl _, fun hrec => ?_, hok, ?_⟩
      · rw [hrec, Bool.true_and, Option.isNone_iff_eq_none] at hbound
        refine ⟨Option.isSome_iff_ne_none.mpr hbound, ?_⟩
        rw [recoveryAgent, if_pos hrec]
        rfl
      · rw [hstep]
        exact ⟨rfl, rfl, rfl⟩
  | admitEvent session obs filter key movedFrom id now =>
    cases key with
    | none => cases hd
    | some key =>
      rw [delivery, Option.some.injEq] at hd
      rw [answer, Option.bind_eq_some_iff] at hout
      obtain ⟨⟨adm, s'⟩, hres, hadm⟩ := hout
      have hok := toOption_eq_some.mp hres
      have hstep : dbStep E db (.admitEvent session obs filter (some key) movedFrom id now) =
          db.withStore s' := by
        rw [dbStep, hok]
        rfl
      rw [hstep]
      obtain ⟨htuple, ⟨r, hfind, hknown⟩ | ⟨hnone, hnew⟩⟩ := admitHookSessionEvent_ok hok
      · -- the session is known, and is the agent's
        rw [hfind] at hd
        subst hd
        obtain ⟨hident, -, ⟨hno, -⟩ | ⟨-, ingest, s₁, hingest, hclaim, hmoved⟩⟩ :=
          admitToSession_ok hknown
        · rw [hno] at hadm
          cases hadm
        · rw [hingest, Option.some.injEq] at hadm
          subst hadm
          have hagent : db.store.agentOf obs.sessionId = some session.agentKind := by
            rw [identityMatches, Bool.and_eq_true, Bool.and_eq_true, decide_eq_true_eq] at hident
            rw [htuple.1, agentOf_of_find hfind, hident.1.2]
          refine ⟨db.store, s₁, id, rfl, rfl, prefix_refl _, fun _ => ⟨rfl, hagent⟩, hclaim, ?_⟩
          rcases hmoved with rfl | ⟨-, hrebind⟩
          · exact ⟨rfl, rfl, rfl⟩
          · rw [rebind_ok hrebind]
            exact ⟨rfl, rfl, map_update fun _ => rfl⟩
      · -- its session is begun
        rw [hnone] at hd
        subst hd
        obtain ⟨hno, -⟩ | ⟨-, -, ingest, hingest, hclaim⟩ := hnew
        · rw [hno] at hadm
          cases hadm
        · rw [hingest, Option.some.injEq] at hadm
          subst hadm
          let begun : Store :=
            { db.store with sessions := db.store.sessions ++ [session.row now] }
          have hbegun : agents begun = agents db.store ++ [(session.id, session.agentKind)] :=
            map_append
          have hagent : begun.agentOf obs.sessionId = some session.agentKind := by
            have hfresh : (agents db.store).find? (fun x => x.1 = session.id) = none := by
              have hmiss := agentOf_eq db.store session.id
              rw [agentOf, hnone] at hmiss
              exact Option.map_eq_none_iff.mp hmiss.symm
            rw [agentOf_eq, hbegun, htuple.1, find?_append, hfresh]
            simp
          exact ⟨begun, s', id, rfl, rfl, hbegun ▸ prefix_append _ _, fun _ => ⟨rfl, hagent⟩,
            hclaim, rfl, rfl, rfl⟩
  | _ => cases hd

lemma unanswered (hd : delivery db.store op = some d) (hout : answer E db op = none) :
    dbStep E db op = db := by
  cases op with
  | insertObservationKeyed obs key id now =>
    rw [answer, Option.map_eq_none_iff] at hout
    rw [dbStep]
    cases hres : Store.insertObservationKeyed E.eventIdentity db.store obs key id now with
    | error e => rfl
    | ok r =>
      rw [hres] at hout
      cases hout
  | admitEvent session obs filter key movedFrom id now =>
    cases key with
    | none => cases hd
    | some key =>
      rw [dbStep]
      cases hres : admitHookSessionEvent E.validOwner E.eventIdentity db.store session obs filter
          (some key) movedFrom id now with
      | error e => rfl
      | ok r =>
        obtain ⟨adm, s'⟩ := r
        have hadm : adm.ingest = none := by
          rw [answer, hres] at hout
          exact hout
        have hsame : s' = db.store := by
          obtain ⟨-, ⟨r, -, hknown⟩ | ⟨-, hnew⟩⟩ := admitHookSessionEvent_ok hres
          · obtain ⟨-, -, ⟨-, hsame⟩ | ⟨-, ingest, s₁, hingest, -⟩⟩ := admitToSession_ok hknown
            · exact hsame
            · rw [hadm] at hingest
              cases hingest
          · obtain ⟨-, hsame⟩ | ⟨-, -, ingest, hingest, -⟩ := hnew
            · exact hsame
            · rw [hadm] at hingest
              cases hingest
        rw [hsame]
        rfl
  | _ => cases hd

lemma advance_answered (hd : delivery db.store op = some d) (hout : answer E db op = some out) :
    advance E db ledger op =
      ledger.filter (Claim.retained db.store ledger d.now) ++ d.entry out := by
  cases op with
  | insertObservationKeyed obs key id now | admitEvent session obs filter key movedFrom id now =>
    simp only [advance, hd, hout]
  | _ => cases hd

lemma retained_congr {s s' : Store} (hobs : s'.observations = s.observations) (now : ℤ)
    (c : Claim) : c.retained s' ledger now = c.retained s ledger now := by
  simp only [Claim.retained, Claim.shares, Claim.holds, Claim.livesIn, hobs]

lemma kept_answered (h : Kept E.eventIdentity db.store ledger) (hd : delivery db.store op = some d)
    (hout : answer E db op = some out) :
    Kept E.eventIdentity (dbStep E db op).store (advance E db ledger op) := by
  obtain ⟨s₀, s₁, id, hkeys, hobs, hagents, hagent, hclaim, hkeys', hobs', hagents'⟩ :=
    answered hd hout
  have hstart : Kept E.eventIdentity s₀ ledger :=
    h.quiet (by rw [homes, hobs]; rfl) hkeys fun _ _ ha => agentOf_of_prefix hagents ha
  have hswept := hstart.sweep d.now
  have hledger : ledger.filter (Claim.retained s₀ ledger d.now) =
      ledger.filter (Claim.retained db.store ledger d.now) :=
    filter_congr fun c _ => retained_congr hobs d.now c
  rw [hledger] at hswept
  rw [advance_answered hd hout]
  have hdone : Kept E.eventIdentity s₁
      (ledger.filter (Claim.retained db.store ledger d.now) ++ d.entry out) := by
    rcases claimIngestKey_spec hclaim with ⟨old, -, -, -, -, hold, rfl⟩ | ⟨hfree, hfresh, rfl, rfl⟩
    · have hnone : d.entry out = [] := by
        rw [hold, IngestKeyRow.answer]
        split <;> rfl
      rw [hnone, append_nil]
      exact hswept
    · exact hswept.insert hfree hfresh hagent rfl rfl rfl
  refine hdone.quiet (by rw [homes, hobs']; rfl) hkeys' fun sid a ha => ?_
  rw [agentOf_of_eq hagents']
  exact ha

/-! ### The law -/

/-- The digest of a recovery event tells it from the events recorded under its
key, and depends on nothing else. -/
def DigestsApart (E : Env) (x : Database × List Claim) (op : DbOp) : Prop :=
  ∀ d ∈ delivery x.1.store op, recoveryIngestKey d.key = true → ∀ c ∈ x.2, c.key = d.key →
    (E.eventIdentity d.event d.agent = E.eventIdentity c.event c.agent ↔
      d.event.payload = c.event.payload ∧ d.agent = c.agent)

variable {c : Claim} {key : String} {now : ℤ} {id : ObservationId} {obs : NewObservation}
  {r : SessionRow} {n : Directory} {ws : WorkspaceId} {pages : List MergeProjectPage}
  {x : Database × List Claim}

lemma sameEvent_iff {f : NewObservation → Option String → String} {old : IngestKeyRow}
    (hrec : recoveryIngestKey c.key) (hbinding : old.binding = c.binding f)
    (obs : NewObservation) (agent : Option String) (hkey : c.key = d.key) :
    sameEvent old obs agent (recoveryIdentity f obs agent d.key) ↔
      c.event.sessionId = obs.sessionId ∧ c.agent = agent ∧ c.event.kind = obs.kind ∧
        f c.event c.agent = f obs agent := by
  rw [IngestKeyRow.binding, Claim.binding, if_pos hrec] at hbinding
  simp only [Prod.mk.injEq] at hbinding
  obtain ⟨hsession, hagent, hkind, hidentity, -⟩ := hbinding
  rw [recoveryIdentity, if_pos (hkey ▸ hrec), sameEvent, hsession, hagent, hkind, hidentity]
  simp [and_assoc]

lemma kept_swept_row {f : NewObservation → Option String → String} {s : Store}
    {proj : ProjectId} (now : ℤ) (h : Kept f s ledger) (hc : c ∈ ledger)
    (hholds : c.holds s proj key) (hretained : c.retained s ledger now) :
    ∃ k ∈ (s.sweepIngestKeys now).ingestKeys, k.projectId = proj ∧ k.key = key ∧
      k.binding = c.binding f := by
  rw [Claim.holds, Bool.and_eq_true, decide_eq_true_eq] at hholds
  have hkept := h.sweep now
  obtain ⟨k, hk, hproj, hkey, hbinding, -⟩ :=
    hkept.held c (mem_filter.mpr ⟨hc, hretained⟩) proj hholds.1
  exact ⟨k, hk, hproj, hkey.trans hholds.2, hbinding⟩

lemma retained_of_recovery {s : Store}
    (hrec : recoveryIngestKey c.key) : c.retained s ledger now := by
  rw [Claim.retained, hrec]
  rfl

lemma claimIngestKey_known {f : NewObservation → Option String → String} {s : Store}
    {old : IngestKeyRow} {agent : Option String} (hkeys : KeyUnique IngestKeyRow.pk s.ingestKeys)
    (hold : old ∈ (s.sweepIngestKeys now).ingestKeys) (hproj : old.projectId = obs.projectId)
    (hkey : old.key = key) (hsame : sameEvent old obs agent (recoveryIdentity f obs agent key)) :
    claimIngestKey f s obs agent key id now = .ok (old.answer, s.sweepIngestKeys now) := by
  have hfind : (s.sweepIngestKeys now).ingestKeys.find?
      (fun k => k.projectId = obs.projectId && k.key = key) = some old := by
    have hunique : KeyUnique IngestKeyRow.pk (s.sweepIngestKeys now).ingestKeys := hkeys.delete
    cases hres : (s.sweepIngestKeys now).ingestKeys.find?
        (fun k => k.projectId = obs.projectId && k.key = key) with
    | none => exact absurd (by simp [hproj, hkey]) (find?_eq_none.mp hres old hold)
    | some k =>
      have hmatch := find?_some hres
      rw [Bool.and_eq_true, decide_eq_true_eq, decide_eq_true_eq] at hmatch
      rw [hunique.eq (mem_of_find?_eq_some hres) hold (IngestKeyRow.pk_eq_iff.mpr
        ⟨hmatch.1.trans hproj.symm, hmatch.2.trans hkey.symm⟩)]
  simp only [claimIngestKey, hfind, hsame, Bool.not_true, Bool.and_false, Bool.false_eq_true,
    if_false, IngestKeyRow.answer]
  split <;> rfl

lemma admitToSession_isOk {v : String → Bool} {f : NewObservation → Option String → String}
    {s s₁ : Store} {session : NewSession} {filter : OwnerFilter} {key : Option String}
    (movedFrom : Option String) (hident : identityMatches v r session filter)
    (hingest : ingestEvent f s session (filed r session obs) key id now = .ok (out, s₁))
    (hout : ∀ id, out ≠ .inserted id) :
    (admitToSession v f s r session obs filter key movedFrom id now).isOk := by
  have hstay : moveApplies r session key movedFrom out = false := by
    cases out with
    | inserted id' => exact absurd rfl (hout id')
    | alreadyComplete | resumePending => simp [moveApplies]
  unfold filed at hingest
  unfold admitToSession
  rw [hident]
  simp only [Bool.not_true, Bool.false_eq_true, if_false]
  split
  · rfl
  · split
    · rfl
    · rw [hingest]
      simp only [bind, Except.bind, followMove, hstay, Bool.false_eq_true, if_false]
      rfl

lemma answer_ne_inserted (k : IngestKeyRow) (id : ObservationId) : k.answer ≠ .inserted id := by
  rw [IngestKeyRow.answer]
  split <;> exact fun heq => by cases heq

/-- The session of a delivery under a recovery key has its agent. -/
theorem delivery_agent (hd : delivery db.store op = some d) (hop : Admissible E db.store op)
    (hrec : recoveryIngestKey d.key) (ha : db.store.agentOf d.event.sessionId = some a) :
    d.agent = some a := by
  cases op with
  | insertObservationKeyed obs key id now =>
    rw [delivery, Option.some.injEq] at hd
    subst hd
    rw [← ha, recoveryAgent, if_pos hrec]
    rfl
  | admitEvent session obs filter key movedFrom id now =>
    cases key with
    | none => cases hd
    | some key =>
      obtain ⟨htuple, hident⟩ := hop
      rw [delivery, Option.some.injEq] at hd
      subst hd
      have hsid : agentOf db.store session.id = some a := by
        rw [← ha, ← htuple.1]
        dsimp only
        split <;> rfl
      obtain ⟨r, hfind, hagent⟩ := Option.map_eq_some_iff.mp hsid
      have hmatch := hident r hfind
      rw [identityMatches, Bool.and_eq_true, Bool.and_eq_true, decide_eq_true_eq] at hmatch
      rw [← hagent, hmatch.1.2]
  | _ => cases hd

lemma sameEvent_of_payload (h : Kept E.eventIdentity db.store ledger)
    (hapart : DigestsApart E (db, ledger) op) (hd : delivery db.store op = some d)
    (hop : Admissible E db.store op) (hrec : recoveryIngestKey d.key) (hc : c ∈ ledger)
    (hkey : c.key = d.key) (hpayload : d.event.payload = c.event.payload) {old : IngestKeyRow}
    (hbinding : old.binding = c.binding E.eventIdentity) :
    sameEvent old d.event d.agent (recoveryIdentity E.eventIdentity d.event d.agent d.key) := by
  have hrec' : recoveryIngestKey c.key := hkey.symm ▸ hrec
  have hevent := hpayload
  simp only [NewObservation.payload, Prod.mk.injEq] at hevent
  obtain ⟨hsome, hagent⟩ := h.agents c hc hrec'
  obtain ⟨a, ha⟩ := Option.isSome_iff_exists.mp hsome
  rw [ha, ← hevent.1] at hagent
  have hsame : d.agent = c.agent := (delivery_agent hd hop hrec hagent).trans ha.symm
  refine (sameEvent_iff hrec' hbinding d.event d.agent hkey).mpr ⟨hevent.1.symm, hsame.symm,
    hevent.2.1.symm, ?_⟩
  exact ((hapart d hd hrec c hc hkey).mpr ⟨hpayload, hsame⟩).symm

lemma accepts_same (h : Kept E.eventIdentity db.store ledger) (hapart : DigestsApart E (db, ledger) op)
    (hd : delivery db.store op = some d) (hrec : recoveryIngestKey d.key)
    (hc : c ∈ ledger) (hholds : c.holds db.store d.event.projectId d.key)
    (hpayload : d.event.payload = c.event.payload) (hadmissible : Admissible E db.store op) :
    accepts E db op := by
  have hkey : c.key = d.key := (holds_iff.mp hholds).2
  have hrec' : recoveryIngestKey c.key := hkey.symm ▸ hrec
  obtain ⟨old, hold, hproj, hkeyed, hbinding⟩ :=
    kept_swept_row d.now h hc hholds (retained_of_recovery hrec')
  have hsame := sameEvent_of_payload h hapart hd hadmissible hrec hc hkey hpayload hbinding
  have hclaim := fun id => (claimIngestKey_known h.keys hold hproj hkeyed hsame :
    claimIngestKey _ _ _ _ _ id _ = _)
  -- the session of the claim is there
  obtain ⟨hsome, hagent⟩ := h.agents c hc hrec'
  have hsession : c.event.sessionId = d.event.sessionId := congrArg Prod.fst hpayload.symm
  rw [hsession, agentOf] at hagent
  rw [← hagent, Option.isSome_map] at hsome
  obtain ⟨r, hfind⟩ := Option.isSome_iff_exists.mp hsome
  cases op with
  | insertObservationKeyed obs key id now =>
    rw [delivery, Option.some.injEq] at hd
    subst hd
    have hbound : (db.store.recoveryAgent obs.sessionId key).isNone = false := by
      rw [recoveryAgent, if_pos hrec, hfind]
      rfl
    rw [accepts, Store.insertObservationKeyed]
    simp only [hbound, Bool.and_false, Bool.false_eq_true, if_false]
    rw [hclaim id]
    rfl
  | admitEvent session obs filter key movedFrom id now =>
    cases key with
    | none => cases hd
    | some key =>
      rw [delivery, Option.some.injEq] at hd
      obtain ⟨htuple, hident⟩ := hadmissible
      have hsid : d.event.sessionId = session.id := by
        rw [← hd, ← htuple.1]
        dsimp only
        split <;> rfl
      rw [hsid] at hfind
      rw [hfind] at hd
      have hok := hclaim id
      rw [← hd] at hok
      have hadmitted := admitToSession_isOk movedFrom (hident r hfind)
        (show ingestEvent E.eventIdentity db.store session (filed r session obs) (some key) id now =
          .ok (old.answer, _) from hok) (answer_ne_inserted old)
      rw [accepts, admitHookSessionEvent, if_neg (by simp [htuple]), hfind]
      exact hadmitted
  | _ => cases hd

lemma claimIngestKey_isOk {f : NewObservation → Option String → String} {s : Store}
    {agent : Option String} (hsession : (s.findSession obs.sessionId).isSome)
    (hpaired : s.paired obs.workspaceId obs.projectId) (hfresh : ∀ o ∈ s.observations, o.id ≠ id)
    (hsame : recoveryIngestKey key → ∀ old ∈ (s.sweepIngestKeys now).ingestKeys,
      old.projectId = obs.projectId → old.key = key →
      sameEvent old obs agent (recoveryIdentity f obs agent key)) :
    ∃ out s₁, claimIngestKey f s obs agent key id now = .ok (out, s₁) ∧ s₁.projects = s.projects := by
  unfold claimIngestKey
  dsimp only
  split
  · rename_i old hfind
    have hmatch := find?_some hfind
    rw [Bool.and_eq_true, decide_eq_true_eq, decide_eq_true_eq] at hmatch
    have hours : ¬ (recoveryIngestKey key && !sameEvent old obs agent
        (recoveryIdentity f obs agent key)) := by
      rw [Bool.and_eq_true]
      rintro ⟨hrec, hother⟩
      rw [hsame hrec old (mem_of_find?_eq_some hfind) hmatch.1 hmatch.2] at hother
      cases hother
    rw [if_neg hours]
    split <;> exact ⟨_, _, rfl, rfl⟩
  · refine ⟨_, _, bind_ok.mpr ⟨_, insertObservation_of_fresh hpaired hsession hfresh, rfl⟩, rfl⟩

/-- A delivery that nothing but its key stands against gets an answer if its key has no other
event. -/
theorem answered_of_unhindered (hd : delivery db.store op = some d) (hop : Unhindered E db.store op)
    (hsame : recoveryIngestKey d.key → ∀ old ∈ (db.store.sweepIngestKeys d.now).ingestKeys,
      old.projectId = d.event.projectId → old.key = d.key →
      sameEvent old d.event d.agent (recoveryIdentity E.eventIdentity d.event d.agent d.key) =
        true) : ∃ out, answer E db op = some out := by
  cases op with
  | insertObservationKeyed obs key id now =>
    rw [delivery, Option.some.injEq] at hd
    subst hd
    obtain ⟨hsession, hpaired, hfresh⟩ := hop
    obtain ⟨out, s₁, hok, -⟩ := claimIngestKey_isOk hsession hpaired hfresh hsame
    have hbound : (recoveryIngestKey key && (db.store.recoveryAgent obs.sessionId key).isNone) =
        false := by
      rw [recoveryAgent]
      cases recoveryIngestKey key with
      | false => rfl
      | true => simpa using hsession
    refine ⟨out, ?_⟩
    rw [answer, Store.insertObservationKeyed, hbound, if_neg Bool.false_ne_true, hok]
    rfl
  | admitEvent session obs filter key movedFrom id now =>
    cases key with
    | none => cases hd
    | some key =>
      obtain ⟨⟨htuple, hident⟩, hpaired, hfresh, hrest⟩ := hop
      rw [delivery, Option.some.injEq] at hd
      have hproject : (db.store.projects.any fun p => p.id = session.projectId) := by
        obtain ⟨p, hp, hboth⟩ := any_eq_true.mp hpaired
        rw [Bool.and_eq_true] at hboth
        exact any_eq_true.mpr ⟨p, hp, hboth.1⟩
      rw [answer, admitHookSessionEvent, if_neg (by simp [htuple])]
      cases hfind : db.store.findSession session.id with
      | some r =>
        rw [hfind] at hd hrest
        subst hd
        obtain ⟨hpairedRow, hend⟩ := hrest
        have hevent : db.store.paired (filed r session obs).workspaceId
            (filed r session obs).projectId := by
          unfold filed
          dsimp only
          split
          · exact hpairedRow
          · exact hpaired
        obtain ⟨out, s₁, hok, hprojects⟩ := claimIngestKey_isOk
          (by rw [show (filed r session obs).sessionId = session.id from htuple.1, hfind]; rfl)
          hevent hfresh hsame
        have hscope : ¬ (obs.kind = .sessionEnd ∧ ¬ (r.workspaceId = session.workspaceId ∧
            r.projectId = session.projectId) ∧ (!sameCwd r.cwd session.cwd)) := by
          rintro ⟨hkind, hout, hcwd⟩
          rcases (hend hkind).1 with hin | hsamecwd
          · exact hout hin
          · rw [hsamecwd] at hcwd
            cases hcwd
        have hopen : ¬ (obs.kind = .sessionEnd ∧ r.endedAt.isSome ∧
            db.store.observationCount session.id ≤ r.endedObservationCount) := by
          rintro ⟨hkind, hended, hcount⟩
          exact absurd ((hend hkind).2 hended) (Nat.not_lt.mpr hcount)
        -- the session follows a move into a project that is there
        obtain ⟨s', hfollow⟩ : ∃ s', s₁.followMove r session (some key) movedFrom out = .ok s' := by
          rw [followMove, rebind, hprojects, hproject]
          split <;> exact ⟨_, rfl⟩
        refine ⟨out, ?_⟩
        unfold filed at hok
        simp only [admitToSession, hident r hfind, Bool.not_true, Bool.false_eq_true, if_false,
          if_neg hscope, if_neg hopen, ingestEvent, hok, hfollow, bind, Except.bind]
        split
        · rfl
        · split <;> rfl
      | none =>
        rw [hfind] at hd hrest
        subst hd
        obtain ⟨hkind, howner, hadmits, hpurged⟩ := hrest
        obtain ⟨out, s₁, hok, -⟩ := claimIngestKey_isOk
          (s := { db.store with sessions := db.store.sessions ++ [session.row now] })
          (by simp [findSession, htuple.1, NewSession.row])
          (by rw [htuple.2.1, htuple.2.2]; exact hpaired) hfresh hsame
        refine ⟨out, ?_⟩
        rw [Bool.not_eq_true] at hpurged
        simp only [admitNewSession, if_neg hkind, howner, hadmits, hpurged, hpaired, Bool.not_true,
          Bool.false_eq_true, if_false, ingestEvent, hok, bind, Except.bind]
        rfl
  | _ => cases hd

lemma ingest_law (h : Kept E.eventIdentity db.store ledger)
    (hapart : DigestsApart E (db, ledger) op) (hd : delivery db.store op = some d) :
    IngestLaw E db ledger op d := by
  -- an answer was found in the table, or the key was free
  have hcases : ∀ out, answer E db op = some out →
      (∃ old ∈ (db.store.sweepIngestKeys d.now).ingestKeys, old.projectId = d.event.projectId ∧
        old.key = d.key ∧ out = old.answer ∧ (recoveryIngestKey d.key →
          sameEvent old d.event d.agent (recoveryIdentity E.eventIdentity d.event d.agent d.key) =
            true)) ∨
      (∃ id, out = .inserted id) ∧ ∀ k ∈ (db.store.sweepIngestKeys d.now).ingestKeys,
        ¬ (k.projectId = d.event.projectId ∧ k.key = d.key) := by
    intro out hout
    obtain ⟨s₀, s₁, id, hkeys, -, -, -, hclaim, -⟩ := answered hd hout
    have hswept : (s₀.sweepIngestKeys d.now).ingestKeys =
        (db.store.sweepIngestKeys d.now).ingestKeys := by
      rw [sweepIngestKeys, sweepIngestKeys, hkeys]
    rcases claimIngestKey_spec hclaim with ⟨old, hold, hproj, hkey, hsame, hanswer, -⟩ |
      ⟨hfree, -, hinserted, -⟩
    · exact .inl ⟨old, hswept ▸ hold, hproj, hkey, hanswer, hsame⟩
    · exact .inr ⟨⟨id, hinserted⟩, hswept ▸ hfree⟩
  -- the claims of a row that was found are retained
  have hfound : ∀ old ∈ (db.store.sweepIngestKeys d.now).ingestKeys,
      old.projectId = d.event.projectId → old.key = d.key →
      old ∈ db.store.ingestKeys ∧ (∀ c ∈ ledger, c.holds db.store d.event.projectId d.key = true →
        c.retained db.store ledger d.now) ∧
      (old.completedAt.isSome ↔ ∃ c ∈ ledger,
        c.holds db.store d.event.projectId d.key = true ∧ c.completed) ∧
      ∃ c ∈ ledger, c.holds db.store d.event.projectId d.key = true := by
    intro old hold hproj hkey
    obtain ⟨hmem, hstays⟩ := mem_delete.mp hold
    rw [← hproj, ← hkey]
    obtain ⟨c, hc, hholds, -⟩ := h.claimed old hmem
    exact ⟨hmem, fun c hc hholds => (h.retained_iff hc hmem hholds).mpr hstays, h.completed old hmem,
      c, hc, hholds⟩
  refine ⟨fun id hout c hc hholds => ?_, fun hout => ?_, fun hout => ?_,
    fun hop hpayload => answered_of_unhindered hd hop fun hrec old hold hproj hkey => ?_,
    fun hrec c hc hholds hdiffers => ?_, fun hrec c hc hholds => accepts_same h hapart hd hrec hc
      hholds⟩
  · obtain ⟨old, -, -, -, hanswer, -⟩ | ⟨-, hfree⟩ := hcases _ hout
    · exact absurd hanswer.symm (answer_ne_inserted old id)
    · rw [← Bool.not_eq_true]
      intro hretained
      obtain ⟨k, hk, hproj, hkey, -⟩ := kept_swept_row d.now h hc hholds hretained
      exact hfree k hk ⟨hproj, hkey⟩
  · obtain ⟨old, hold, hproj, hkey, hanswer, -⟩ | ⟨⟨id, hno⟩, -⟩ := hcases _ hout
    · obtain ⟨-, hretained, hcompleted, c, hc, hholds⟩ := hfound old hold hproj hkey
      have hpending : old.completedAt.isSome = false := by
        rw [IngestKeyRow.answer] at hanswer
        split at hanswer
        · cases hanswer
        · rename_i hnone
          exact Bool.eq_false_iff.mpr hnone
      refine ⟨⟨c, hc, hholds, hretained c hc hholds⟩, fun c' hc' hholds' => ?_⟩
      rw [← Bool.not_eq_true]
      intro hdone
      rw [hcompleted.mpr ⟨c', hc', hholds', hdone⟩] at hpending
      cases hpending
    · cases hno
  · obtain ⟨old, hold, hproj, hkey, hanswer, -⟩ | ⟨⟨id, hno⟩, -⟩ := hcases _ hout
    · obtain ⟨-, hretained, hcompleted, -⟩ := hfound old hold hproj hkey
      have hdone : old.completedAt.isSome := by
        rw [IngestKeyRow.answer] at hanswer
        split at hanswer
        · assumption
        · cases hanswer
      obtain ⟨c, hc, hholds, hmarked⟩ := hcompleted.mp hdone
      exact ⟨c, hc, hholds, hretained c hc hholds, hmarked⟩
    · cases hno
  · obtain ⟨hmem, -, -, c, hc, hholds⟩ := hfound old hold hproj hkey
    have hckey : c.key = d.key := (holds_iff.mp hholds).2
    obtain ⟨hbinding, -⟩ := h.row hc hmem (by rwa [hproj, hkey])
    exact sameEvent_of_payload h hapart hd hop.admissible hrec hc hckey (hpayload hrec c hc hholds)
      hbinding
  · have hnone : answer E db op = none := by
      cases hout : answer E db op with
      | none => rfl
      | some out =>
        exfalso
        have hkey : c.key = d.key := (holds_iff.mp hholds).2
        have hrec' : recoveryIngestKey c.key := hkey.symm ▸ hrec
        obtain ⟨k, hk, hproj, hkeyed, hbinding⟩ :=
          kept_swept_row d.now h hc hholds (retained_of_recovery hrec')
        obtain ⟨old, hold, hproj', hkeyed', -, hsame⟩ | ⟨-, hfree⟩ := hcases _ hout
        · have heq : old = k := (h.sweep d.now).keys.eq hold hk
            (IngestKeyRow.pk_eq_iff.mpr ⟨hproj'.trans hproj.symm, hkeyed'.trans hkeyed.symm⟩)
          have hmatch := (sameEvent_iff hrec' (heq ▸ hbinding) d.event d.agent hkey).mp (hsame hrec)
          have hequal := (hapart d hd hrec c hc hkey).mp hmatch.2.2.2.symm
          exact hdiffers.elim (fun hne => hne hequal.1) fun hne => hne hequal.2
        · exact hfree k hk ⟨hproj, hkeyed⟩
    exact ⟨hnone, unanswered hd hnone⟩

/-- The keys go where the observations go.  A merge finds the recovery keys of the
source in the target, bound to the same events.  A session move takes no
observation of an ordinary key to another project, and where it brings rows of
one key together they are bound to the same event, and the one that stays is
completed if another was. -/
def KeysFollow (E : Env) (x : Database × List Claim) : DbOp → Prop
  | .mergeProject _ ws source target pages true now _ =>
    mergeRefusal E.codec x.1 ws source target pages now = none →
    ∀ k ∈ x.1.store.ingestKeys, k.projectId = source → recoveryIngestKey k.key = true →
      ∃ t ∈ x.1.store.ingestKeys, t.projectId = target ∧ t.key = k.key ∧ t.binding = k.binding
  | .moveSession sid ws proj _ true _ =>
    x.1.present ws proj = true →
    (∀ c ∈ x.2, recoveryIngestKey c.key = false → ∀ o ∈ x.1.store.observations,
      o.id = c.observation → o.sessionId = sid → o.projectId = proj) ∧
    ∀ k ∈ x.1.store.ingestKeys, strays sid proj k = true → ∀ t ∈ x.1.store.ingestKeys,
      t.key = k.key → t.projectId = proj ∨ strays sid proj t = true →
      t.binding = k.binding ∧ (k.completedAt.isSome = true → t.completedAt.isSome = true)
  | _ => True

section Merge

variable {s s' : Store} {f : NewObservation → Option String → String} {source target : ProjectId}

lemma kept_ordinary (h : Kept f s ledger) {k : IngestKeyRow} (hk : k ∈ s.ingestKeys)
    (hrec : recoveryIngestKey k.key = false) : k.binding = (none, none, none, none, false) := by
  obtain ⟨c, hc, hholds, -⟩ := h.claimed k hk
  have hkey : c.key = k.key := (holds_iff.mp hholds).2
  rw [(h.row hc hk hholds).1, Claim.binding, hkey, hrec]
  rfl

lemma coalesceKey_completed (t k : IngestKeyRow) : (coalesceKey t k).completedAt.isSome ↔
    t.completedAt.isSome ∨ k.completedAt.isSome := by
  rw [coalesceKey]
  cases t.completedAt <;> cases k.completedAt <;> simp

lemma rehomes_merge (h : Kept f s ledger) (hne : source ≠ target)
    (hguard : ∀ k ∈ s.ingestKeys, k.projectId = source → recoveryIngestKey k.key →
      ∃ t ∈ s.ingestKeys, t.projectId = target ∧ t.key = k.key ∧ t.binding = k.binding)
    (hkeys : s'.ingestKeys = mergeIngestKeys s.ingestKeys source target)
    (hobs : s'.observations = update (fun o => o.projectId = source)
      (fun o => { o with projectId := target }) s.observations)
    (hagents : agents s' = agents s) :
    Rehomes f s ledger s' (fun _ p => if p = source then target else p)
      (fun k => if k.projectId = source then target else k.projectId) where
  homes := by
    rw [homes, hobs, update, homes, map_map, map_map]
    refine map_congr_left fun o _ => ?_
    rw [Function.comp_apply, Function.comp_apply]
    by_cases hsource : o.projectId = source <;> simp [hsource]
  agents := fun sid a ha => by
    rw [agentOf_of_eq hagents]
    exact ha
  keys := hkeys ▸ mergeIngestKeys_pk h.keys
  follow := fun _ _ _ _ _ => rfl
  kept := by
    intro k hk
    rw [hkeys]
    by_cases hsource : k.projectId = source
    · rw [if_pos hsource]
      by_cases hshared : ∃ t ∈ s.ingestKeys, t.projectId = target ∧ t.key = k.key
      · obtain ⟨t, ht, htarget, hkey⟩ := hshared
        refine ⟨coalesceKey t k, (mem_mergeIngestKeys h.keys hne).mpr (.inr (.inr
          ⟨t, ht, htarget, k, hk, hsource, hkey.symm, rfl⟩)), htarget, hkey, ?_,
          fun _ => le_max_right _ _⟩
        -- the target's row keeps its binding
        rw [show (coalesceKey t k).binding = t.binding from rfl]
        cases hrec : recoveryIngestKey k.key with
        | false => rw [kept_ordinary h ht (hkey ▸ hrec), kept_ordinary h hk hrec]
        | true =>
          obtain ⟨t', ht', htarget', hkey', hbinding⟩ := hguard k hk hsource hrec
          rw [h.keys.eq ht ht' (IngestKeyRow.pk_eq_iff.mpr
            ⟨htarget.trans htarget'.symm, hkey.trans hkey'.symm⟩)]
          exact hbinding
      · refine ⟨carriedKey target k, (mem_mergeIngestKeys h.keys hne).mpr (.inr (.inl
          ⟨k, hk, hsource, rfl, fun t ht htarget hkey => hshared ⟨t, ht, htarget, hkey⟩⟩)), rfl, rfl,
          ?_, fun _ => le_refl _⟩
        -- only an ordinary key is carried over
        cases hrec : recoveryIngestKey k.key with
        | false =>
          rw [kept_ordinary h hk hrec]
          rfl
        | true =>
          obtain ⟨t, ht, htarget, hkey, -⟩ := hguard k hk hsource hrec
          exact absurd ⟨t, ht, htarget, hkey⟩ hshared
    · rw [if_neg hsource]
      by_cases hshared : k.projectId = target ∧ ∃ m ∈ s.ingestKeys, m.projectId = source ∧ m.key = k.key
      · obtain ⟨htarget, m, hm, hmsource, hkey⟩ := hshared
        exact ⟨coalesceKey k m, (mem_mergeIngestKeys h.keys hne).mpr (.inr (.inr
          ⟨k, hk, htarget, m, hm, hmsource, hkey, rfl⟩)), rfl, rfl, rfl, fun _ => le_max_left _ _⟩
      · refine ⟨k, (mem_mergeIngestKeys h.keys hne).mpr (.inl ⟨hk, hsource, ?_⟩), rfl, rfl, rfl,
          fun _ => le_refl _⟩
        exact fun htarget m hm hmsource hkey => hshared ⟨htarget, m, hm, hmsource, hkey⟩
  from' := by
    intro k' hk'
    rw [hkeys] at hk'
    rcases (mem_mergeIngestKeys h.keys hne).mp hk' with ⟨hk, hnot, -⟩ | ⟨k, hk, hsource, rfl, -⟩ |
      ⟨t, ht, htarget, k, hk, hsource, hkey, rfl⟩
    · exact ⟨k', hk, if_neg hnot, rfl, rfl⟩
    · exact ⟨k, hk, if_pos hsource, rfl, rfl⟩
    · -- the later of the two sightings
      rcases le_total t.seenAt k.seenAt with hle | hle
      · refine ⟨k, hk, ?_, hkey, (max_eq_right hle).symm⟩
        rw [if_pos hsource]
        exact htarget.symm
      · refine ⟨t, ht, ?_, rfl, (max_eq_left hle).symm⟩
        rw [if_neg (fun hs => hne (hs.symm.trans htarget))]
        rfl
  completed := by
    intro k' hk'
    rw [hkeys] at hk'
    rcases (mem_mergeIngestKeys h.keys hne).mp hk' with ⟨hk, hnot, hno⟩ |
      ⟨k, hk, hsource, rfl, hno⟩ | ⟨t, ht, htarget, k, hk, hsource, hkey, rfl⟩
    · constructor
      · exact fun hdone => ⟨k', hk, if_neg hnot, rfl, hdone⟩
      · rintro ⟨m, hm, hplace, hkey, hdone⟩
        split at hplace
        · rename_i hmsource
          exact absurd hkey (hno hplace.symm m hm hmsource)
        · rw [← h.keys.eq hm hk (IngestKeyRow.pk_eq_iff.mpr ⟨hplace, hkey⟩)]
          exact hdone
    · constructor
      · exact fun hdone => ⟨k, hk, if_pos hsource, rfl, hdone⟩
      · rintro ⟨m, hm, hplace, hkey, hdone⟩
        split at hplace
        · rename_i hmsource
          have hmk := h.keys.eq hm hk (IngestKeyRow.pk_eq_iff.mpr ⟨hmsource.trans hsource.symm, hkey⟩)
          exact hmk ▸ hdone
        · exact absurd hkey (hno m hm hplace)
    · rw [coalesceKey_completed]
      have htplace : (if t.projectId = source then target else t.projectId) = t.projectId :=
        if_neg fun hs => hne (hs.symm.trans htarget)
      constructor
      · rintro (hdone | hdone)
        · exact ⟨t, ht, htplace, rfl, hdone⟩
        · refine ⟨k, hk, ?_, hkey, hdone⟩
          rw [if_pos hsource]
          exact htarget.symm
      · rintro ⟨m, hm, hplace, hmkey, hdone⟩
        split at hplace
        · rename_i hmsource
          have hmk := h.keys.eq hm hk (IngestKeyRow.pk_eq_iff.mpr
            ⟨hmsource.trans hsource.symm, hmkey.trans hkey.symm⟩)
          exact .inr (hmk ▸ hdone)
        · have hmt := h.keys.eq hm ht (IngestKeyRow.pk_eq_iff.mpr ⟨hplace, hmkey⟩)
          exact .inl (hmt ▸ hdone)

end Merge

section Move

variable {s s' : Store} {f : NewObservation → Option String → String} {sid : SessionId}
  {proj : ProjectId}

lemma kept_session (h : Kept f s ledger) {c : Claim} (hc : c ∈ ledger) {k : IngestKeyRow}
    (hk : k ∈ s.ingestKeys) (hholds : c.holds s k.projectId k.key) :
    k.sessionId = if recoveryIngestKey c.key then some c.event.sessionId else none := by
  have hbinding := (h.row hc hk hholds).1
  rw [IngestKeyRow.binding, Claim.binding] at hbinding
  split at hbinding
  · rename_i hrec
    simp only [Prod.mk.injEq] at hbinding
    rw [if_pos hrec]
    exact hbinding.1
  · rename_i hrec
    simp only [Prod.mk.injEq] at hbinding
    rw [if_neg hrec]
    exact hbinding.1

lemma strays_iff {k : IngestKeyRow} :
    strays sid proj k ↔ k.sessionId = some sid ∧ k.projectId ≠ proj := by
  rw [strays, Bool.and_eq_true, decide_eq_true_eq, decide_eq_true_eq]

lemma rehomes_move (h : Kept f s ledger)
    (hordinary : ∀ c ∈ ledger, recoveryIngestKey c.key = false → ∀ o ∈ s.observations,
      o.id = c.observation → o.sessionId = sid → o.projectId = proj)
    (hguard : ∀ k ∈ s.ingestKeys, strays sid proj k = true → ∀ t ∈ s.ingestKeys, t.key = k.key →
      t.projectId = proj ∨ strays sid proj t →
      t.binding = k.binding ∧ (k.completedAt.isSome → t.completedAt.isSome))
    (hkeys : s'.ingestKeys = moveIngestKeys s.ingestKeys sid proj)
    (hhomes : homes s' = (homes s).map fun x => (x.1, x.2.1, if x.2.1 = sid then proj else x.2.2))
    (hagents : agents s' = agents s) :
    Rehomes f s ledger s' (fun x p => if x = sid then proj else p)
      (fun k => if strays sid proj k then proj else k.projectId) := by
  -- only recovery keys are bound to a session
  have hrecovery : ∀ k ∈ s.ingestKeys, strays sid proj k = true → recoveryIngestKey k.key := by
    intro k hk hstray
    obtain ⟨c, hc, hholds, -⟩ := h.claimed k hk
    have hsession := kept_session h hc hk hholds
    rw [(strays_iff.mp hstray).1, (holds_iff.mp hholds).2] at hsession
    by_contra hrec
    rw [if_neg hrec] at hsession
    cases hsession
  refine
    { homes := hhomes
      agents := fun x a ha => by rw [agentOf_of_eq hagents]; exact ha
      keys := hkeys ▸ moveIngestKeys_pk h.keys
      follow := fun c hc k hk hholds => ?_
      kept := fun k hk => ?_
      from' := fun k' hk' => ?_
      completed := fun k' hk' => ?_ }
  · have hsession := kept_session h hc hk hholds
    by_cases hsid : c.event.sessionId = sid
    · rw [if_pos hsid]
      by_cases hproj : k.projectId = proj
      · rw [if_neg (fun hstray => (strays_iff.mp hstray).2 hproj), hproj]
      · rw [if_pos (strays_iff.mpr ⟨?_, hproj⟩)]
        rw [hsession]
        split
        · rw [hsid]
        · -- an ordinary claim of the session is in the target
          rename_i hrec
          rw [Bool.not_eq_true] at hrec
          obtain ⟨⟨x, hhome⟩, -⟩ := holds_iff.mp hholds
          obtain ⟨q, hfiled⟩ := h.filed c hc
          obtain ⟨o, ho, heq⟩ := mem_map.mp hhome
          simp only [Prod.mk.injEq] at heq
          refine absurd (heq.2.2.symm.trans (hordinary c hc hrec o ho heq.1 ?_)) hproj
          rw [heq.2.1, (h.home_eq hhome hfiled).1, hsid]
    · rw [if_neg hsid, if_neg]
      intro hstray
      rw [(strays_iff.mp hstray).1] at hsession
      split at hsession
      · rw [Option.some.injEq] at hsession
        exact hsid hsession.symm
      · cases hsession
  · rw [hkeys]
    by_cases hstray : strays sid proj k
    · rw [if_pos hstray]
      obtain ⟨k', hk', hproj, hkey⟩ := moveIngestKeys_held hk hstray
      have hbound : k'.binding = k.binding := by
        rcases mem_moveIngestKeys hk' with ⟨hthere, -⟩ | ⟨m, hm, hmstray, rfl, -⟩
        · exact (hguard k hk hstray k' hthere hkey (.inl hproj)).1
        · exact (hguard k hk hstray m hm hkey (.inr hmstray)).1
      refine ⟨k', hk', hproj, hkey, hbound, fun hrec => ?_⟩
      rw [hrecovery k hk hstray] at hrec
      cases hrec
    · rw [if_neg hstray]
      rw [Bool.not_eq_true] at hstray
      exact ⟨k, mem_moveIngestKeys_of_stays hk hstray, rfl, rfl, rfl, fun _ => le_refl _⟩
  · rw [hkeys] at hk'
    rcases mem_moveIngestKeys hk' with ⟨hk, hstays⟩ | ⟨k, hk, hstray, rfl, -⟩
    · refine ⟨k', hk, ?_, rfl, rfl⟩
      rw [hstays]
      rfl
    · refine ⟨k, hk, ?_, rfl, rfl⟩
      rw [hstray]
      rfl
  · rw [hkeys] at hk'
    rcases mem_moveIngestKeys hk' with ⟨hk, hstays⟩ | ⟨k, hk, hstray, rfl, hno⟩
    · constructor
      · intro hdone
        refine ⟨k', hk, ?_, rfl, hdone⟩
        rw [hstays]
        rfl
      · rintro ⟨m, hm, hplace, hkey, hdone⟩
        by_cases hmstray : strays sid proj m
        · rw [if_pos hmstray] at hplace
          exact (hguard m hm hmstray k' hk hkey.symm (.inl hplace.symm)).2 hdone
        · rw [if_neg hmstray] at hplace
          rw [← h.keys.eq hm hk (IngestKeyRow.pk_eq_iff.mpr ⟨hplace, hkey⟩)]
          exact hdone
    · constructor
      · intro hdone
        refine ⟨k, hk, ?_, rfl, hdone⟩
        rw [hstray]
        rfl
      · rintro ⟨m, hm, hplace, hkey, hdone⟩
        by_cases hmstray : strays sid proj m
        · exact (hguard m hm hmstray k hk hkey.symm (.inr hstray)).2 hdone
        · rw [if_neg hmstray] at hplace
          exact absurd hkey (hno m hm hplace)

end Move

/-! ### Steps -/

theorem indexStep_rows {C : IndexCodec} {d : Indexed} (op : IndexOp) :
    (indexStep n C d op).store.observations = d.store.observations ∧
      agents (indexStep n C d op).store = agents d.store := by
  refine indexStep_elim (P := fun d' => d'.store.observations = d.store.observations ∧
    agents d'.store = agents d.store) op ⟨rfl, rfl⟩ (fun hok => ?_) (fun _ _ _ _ _ => ⟨rfl, rfl⟩)
    fun _ _ _ => ⟨rfl, map_update fun _ => rfl⟩
  have hframe := upsertPage_frame (upsertPageIndexed_ok hok).1
  have hobs := congrArg Store.observations hframe
  have hagents := congrArg agents hframe
  exact ⟨hobs, hagents⟩

lemma mergeProject_rehomes {source target : ProjectId} {draws : MergeDraws} {db' : Database}
    {f : NewObservation → Option String → String} (hsound : Sound db) (h : Kept f db.store ledger)
    (hacc : Accepted E.codec db ws source target pages)
    (hok : mergeStatements E.codec n db ws source target pages now draws = .ok db')
    (hguard : ∀ k ∈ db.store.ingestKeys, k.projectId = source → recoveryIngestKey k.key →
      ∃ t ∈ db.store.ingestKeys, t.projectId = target ∧ t.key = k.key ∧ t.binding = k.binding) :
    Kept f db'.store ledger := by
  obtain ⟨index, index', streams, hstore, -, -, -, hfold, -, rfl⟩ :=
    mergeStatements_tables hsound.entityIds hsound.projects hacc hok
  have hstore' := (mergedVersions_frame hfold).store
  rw [hstore] at hstore'
  refine h.rehome (rehomes_merge h hacc.differ hguard ?_ ?_ ?_)
  · exact congrArg Store.ingestKeys hstore'
  · exact congrArg Store.observations hstore'
  · refine (congrArg agents hstore').trans ?_
    exact map_update fun _ => rfl

lemma moveSessionPages_agents {d d' : Indexed} {proj : ProjectId} {mode : PagesMode}
    (h : moveSessionPages d r ws proj mode now = .ok d') : agents d'.store = agents d.store := by
  obtain ⟨rfl, -⟩ | ⟨-, rows, -, rfl⟩ | ⟨-, rfl⟩ := moveSessionPages_cases h
  · rfl
  · rfl
  · exact map_update fun _ => rfl

lemma moveSession_rehomes {sid : SessionId} {proj : ProjectId} {mode : PagesMode} {index : Indexed}
    {f : NewObservation → Option String → String} (h : Kept f db.store ledger)
    (hfind : db.store.findSession sid = some r)
    (hpages : moveSessionPages (moveSessionRows db r ws proj).index r ws proj mode now = .ok index)
    (hordinary : ∀ c ∈ ledger, recoveryIngestKey c.key = false → ∀ o ∈ db.store.observations,
      o.id = c.observation → o.sessionId = sid → o.projectId = proj)
    (hguard : ∀ k ∈ db.store.ingestKeys, strays sid proj k = true → ∀ t ∈ db.store.ingestKeys,
      t.key = k.key → t.projectId = proj ∨ strays sid proj t →
      t.binding = k.binding ∧ (k.completedAt.isSome → t.completedAt.isSome)) :
    Kept f index.store ledger := by
  have hid := (findSession_some hfind).2
  obtain ⟨hkeys, hobs⟩ := moveSessionPages_ingestKeys hpages
  refine h.rehome (rehomes_move h hordinary hguard ?_ ?_ ?_)
  · rw [hkeys, ← hid]
    rfl
  · rw [homes, hobs, homes, map_map]
    change (update _ _ db.store.observations).map _ = _
    rw [update, map_map]
    refine map_congr_left fun o _ => ?_
    rw [Function.comp_apply, Function.comp_apply, hid]
    by_cases hsid : o.sessionId = sid
    · by_cases hws : o.workspaceId = ws <;> by_cases hproj : o.projectId = proj <;>
        simp [hsid, hws, hproj]
    · simp [hsid]
  · refine (moveSessionPages_agents hpages).trans ?_
    exact map_update fun _ => rfl

lemma advance_of_none (hd : delivery db.store op = none)
    (hop : ∀ proj key now, op ≠ .completeIngest proj key now) : advance E db ledger op = ledger := by
  cases op with
  | completeIngest proj key now => exact absurd rfl (hop proj key now)
  | _ => simp only [advance, hd]

lemma onStore_quiet {f : NewObservation → Option String → String} (h : Kept f db.store ledger)
    {r : Except StoreError Store} (hr : ∀ s, r = .ok s → Kept f s ledger) :
    Kept f (db.onStore r).store ledger := by
  cases r with
  | error e => exact h
  | ok s => exact hr s rfl

lemma mergeProject_unrefused {C : IndexCodec} {source target : ProjectId} {commit : Bool}
    {draws : MergeDraws} {r : MergeProjectSummary × Database}
    (h : Database.mergeProject C n db ws source target pages commit now draws = .ok r) :
    mergeRefusal C db ws source target pages now = none := by
  unfold Database.mergeProject at h
  split at h
  · cases h
  · assumption

lemma kept_unkeyed {v : String → Bool} {f : NewObservation → Option String → String} {s s' : Store}
    {session : NewSession} {filter : OwnerFilter} {movedFrom : Option String} {adm : Admission}
    (h : Kept f s ledger)
    (hok : admitHookSessionEvent v f s session obs filter none movedFrom id now = .ok (adm, s')) :
    Kept f s' ledger := by
  -- the observation is appended, after its session was begun if it is new
  have hevent : ∀ {s₀ s₁ : Store} {event : NewObservation} {out : IngestOutcome},
      ingestEvent f s₀ session event none id now = .ok (out, s₁) →
      s₀.observations = s.observations → s₀.ingestKeys = s.ingestKeys →
      agents s <+: agents s₀ → Kept f s₁ ledger := by
    intro s₀ s₁ event out hingest hobs hkeys hagents
    obtain ⟨s₂, hinsert, hret⟩ := bind_ok.mp hingest
    cases hret
    obtain ⟨rfl, hfresh⟩ := insertObservation_row hinsert
    rw [hobs] at hfresh
    refine h.append (o := event.row id now) ?_ hfresh hkeys fun sid a ha =>
      agentOf_of_prefix hagents ha
    rw [← hobs]
  obtain ⟨-, ⟨r, -, hknown⟩ | ⟨-, ⟨-, rfl⟩ | ⟨-, -, ingest, -, hingest⟩⟩⟩ :=
    admitHookSessionEvent_ok hok
  · obtain ⟨-, -, ⟨-, rfl⟩ | ⟨-, ingest, s₁, -, hingest, rfl | ⟨-, hrebind⟩⟩⟩ :=
      admitToSession_ok hknown
    · exact h
    · exact hevent hingest rfl rfl (prefix_refl _)
    · have hkept := hevent hingest rfl rfl (prefix_refl _)
      have hrow := rebind_ok hrebind
      have hagents : agents s' = agents s₁ := by
        rw [hrow]
        exact map_update fun _ => rfl
      refine hkept.quiet (by rw [hrow]; rfl) (by rw [hrow]) fun sid a ha => ?_
      exact (agentOf_of_eq hagents sid).trans ha
  · exact h
  · exact hevent hingest rfl rfl ⟨_, (map_append).symm⟩

lemma ledgerStep_kept (hsound : Sound db) (h : Kept E.eventIdentity db.store ledger)
    (hfollow : KeysFollow E (db, ledger) op) :
    Kept E.eventIdentity (dbStep E db op).store (advance E db ledger op) := by
  -- a delivery is answered, or changes nothing
  have hdelivery : ∀ d, delivery db.store op = some d →
      Kept E.eventIdentity (dbStep E db op).store (advance E db ledger op) := by
    intro d hd
    cases hout : answer E db op with
    | none =>
      have hsame : advance E db ledger op = ledger := by
        cases op with
        | completeIngest proj key now => cases hd
        | _ => simp only [advance, hd, hout]
      rw [unanswered hd hout, hsame]
      exact h
    | some out => exact kept_answered h hd hout
  have hstays : ∀ {s : Store}, s.observations = db.store.observations →
      s.ingestKeys = db.store.ingestKeys → agents s = agents db.store →
      Kept E.eventIdentity s ledger := by
    intro s hobs hkeys hagents
    refine h.quiet (by rw [homes, hobs]; rfl) hkeys fun sid a ha => ?_
    rw [agentOf_of_eq hagents]
    exact ha
  cases op with
  | pages n op =>
    rw [advance_of_none rfl fun _ _ _ => by simp]
    exact hstays (indexStep_rows op).1 (indexStep_ingestKeys op) (indexStep_rows op).2
  | registry op =>
    rw [advance_of_none rfl fun _ _ _ => by simp]
    exact hstays rfl rfl rfl
  | endSession sid page now =>
    rw [advance_of_none rfl fun _ _ _ => by simp]
    refine onStore_quiet h fun s hok => ?_
    rw [endSession_ok hok]
    exact hstays rfl rfl (map_update fun _ => rfl)
  | insertObservationKeyed obs key id now => exact hdelivery _ rfl
  | admitEvent session obs filter key movedFrom id now =>
    cases key with
    | some key => exact hdelivery _ rfl
    | none =>
      rw [advance_of_none rfl fun _ _ _ => by simp]
      refine onStore_quiet h fun s hok => ?_
      obtain ⟨⟨adm, s'⟩, hadmit, rfl⟩ := map_ok.mp hok
      exact kept_unkeyed h hadmit
  | completeIngest proj key now =>
    change Kept E.eventIdentity (db.onStore (completeObservationIngest db.store proj key now)).store
      (ledger.map (Claim.mark db.store proj key))
    unfold completeObservationIngest completeObservationIngestIfClaimed
    simp only
    split
    · exact h.complete now rfl rfl rfl
    · -- no row has the key, and no claim is of it
      rename_i hnone
      rw [Bool.not_eq_true, any_eq_false] at hnone
      refine h.complete now ?_ rfl rfl
      exact (update_eq_self fun k hk => Bool.eq_false_iff.mpr (hnone k hk)).symm
  | mergeProject n ws source target pages commit now draws =>
    rw [advance_of_none rfl fun _ _ _ => by simp]
    refine dbStep_mergeProject (P := fun d => Kept E.eventIdentity d.store ledger) h
      fun _ merged hcommit hacc hok hres => ?_
    subst hcommit
    exact mergeProject_rehomes hsound h hacc hok (hfollow (mergeProject_unrefused hres))
  | moveProject proj source target =>
    rw [advance_of_none rfl fun _ _ _ => by simp]
    refine dbStep_moveProject (P := fun d => Kept E.eventIdentity d.store ledger) h fun _ _ _ => ?_
    have hagents : agents (db.restampWorkspace proj source target).store = agents db.store :=
      map_update fun _ => rfl
    refine h.quiet (map_update fun _ => rfl) rfl fun sid a ha => ?_
    exact (agentOf_of_eq hagents sid).trans ha
  | moveSession sid ws proj mode commit now =>
    rw [advance_of_none rfl fun _ _ _ => by simp]
    refine dbStep_moveSession (P := fun d => Kept E.eventIdentity d.store ledger) h
      fun r index hcommit hfind hthere hindex => ?_
    subst hcommit
    obtain ⟨hordinary, hguard⟩ := hfollow hthere
    exact moveSession_rehomes h hfind hindex hordinary hguard

/-! ### Runs -/

def DbOp.keyedAt : DbOp → Option ℤ
  | .insertObservationKeyed _ _ _ now => some now
  | .admitEvent _ _ _ (some _) _ _ now => some now
  | _ => none

/-- The operation is within the retention of a key that was claimed at `seenAt`. -/
def Timely (key : String) (seenAt : ℤ) (op : DbOp) : Prop :=
  recoveryIngestKey key = true ∨ ∀ now ∈ op.keyedAt, now - ingestKeyTtlMicros ≤ seenAt

lemma delivery_keyedAt {s : Store} (hd : delivery s op = some d) : op.keyedAt = some d.now := by
  cases op with
  | insertObservationKeyed obs key id now =>
    rw [delivery, Option.some.injEq] at hd
    rw [← hd]
    rfl
  | admitEvent session obs filter key movedFrom id now =>
    cases key with
    | none => cases hd
    | some key =>
      rw [delivery, Option.some.injEq] at hd
      rw [← hd]
      rfl
  | _ => cases hd

def Entered (ledger : List Claim) (id : ObservationId) (key : String) (seenAt : ℤ) : Prop :=
  ∃ c ∈ ledger, c.observation = id ∧ c.key = key ∧ c.seenAt = seenAt

lemma retained_of_timely {f : NewObservation → Option String → String} {s : Store}
    (h : Kept f s ledger) (hc : c ∈ ledger) (hd : delivery s op = some d)
    (htimely : Timely c.key c.seenAt op) : c.retained s ledger d.now := by
  rcases htimely with hrec | hnow
  · exact retained_of_recovery hrec
  · obtain ⟨proj, hfiled⟩ := h.filed c hc
    have hlives : c.livesIn s proj := livesIn_iff.mpr ⟨_, hfiled⟩
    have hseen := hnow d.now (delivery_keyedAt hd)
    rw [Claim.retained, Bool.or_eq_true, any_eq_true]
    refine .inr ⟨c, hc, ?_⟩
    rw [Bool.and_eq_true, decide_eq_true_eq, shares_iff]
    exact ⟨⟨rfl, proj, hlives, hlives⟩, hseen⟩

lemma entered_step {seenAt : ℤ}
    (h : Kept E.eventIdentity db.store ledger) (hentered : Entered ledger id key seenAt)
    (htimely : Timely key seenAt op) : Entered (advance E db ledger op) id key seenAt := by
  obtain ⟨c, hc, hid, hkey, hseen⟩ := hentered
  cases hd : delivery db.store op with
  | none =>
    cases op with
    | completeIngest proj key' now =>
      refine ⟨c.mark db.store proj key', mem_map_of_mem hc, ?_⟩
      rw [Claim.mark_eq]
      exact ⟨hid, hkey, hseen⟩
    | _ => exact ⟨c, by simpa only [advance, hd] using hc, hid, hkey, hseen⟩
  | some d =>
    cases hout : answer E db op with
    | none =>
      cases op with
      | completeIngest proj key' now => cases hd
      | _ => exact ⟨c, by simpa only [advance, hd, hout] using hc, hid, hkey, hseen⟩
    | some out =>
      rw [advance_answered hd hout]
      have hretained := retained_of_timely h hc hd (hkey.symm ▸ hseen.symm ▸ htimely)
      exact ⟨c, mem_append_left _ (mem_filter.mpr ⟨hc, hretained⟩), hid, hkey, hseen⟩

def Tracked (E : Env) (x : Database × List Claim) : Prop :=
  Sound x.1 ∧ Kept E.eventIdentity x.1.store x.2

lemma Tracked.step (h : Tracked E x) (hfollow : KeysFollow E x op) :
    Tracked E (ledgerStep E x op) :=
  ⟨dbStep_sound h.1 op, ledgerStep_kept h.1 h.2 hfollow⟩

lemma tracked_empty : Tracked E (empty, []) := ⟨sound_empty, kept_empty⟩

lemma entered_run {ops : List DbOp} {seenAt : ℤ} (h : Tracked E x)
    (hkeys : Guarded (ledgerStep E) (KeysFollow E) x ops) (hentered : Entered x.2 id key seenAt)
    (htimely : ∀ op ∈ ops, Timely key seenAt op) :
    Entered (exec (ledgerStep E) x ops).2 id key seenAt := by
  induction ops generalizing x with
  | nil => exact hentered
  | cons op ops ih =>
    rw [guarded_cons] at hkeys
    refine ih (h.step hkeys.1) hkeys.2 ?_ fun o ho => htimely o (mem_cons_of_mem op ho)
    exact entered_step h.2 hentered (htimely op mem_cons_self)

/-- Along a run, every keyed delivery is answered by the ledger; so an event that
was inserted is inserted no more while its key is retained, wherever its
observation has gone. -/
structure ExactlyOnce (E : Env) (ops : List DbOp) : Prop where
  law : ∀ as op bs, ops = as ++ op :: bs →
    let x := exec (ledgerStep E) (empty, []) as
    ∀ d, delivery x.1.store op = some d → IngestLaw E x.1 x.2 op d
  once : ∀ as op bs op' cs, ops = as ++ op :: (bs ++ op' :: cs) →
    let db := exec (dbStep E) empty as
    let db' := exec (dbStep E) empty (as ++ op :: bs)
    ∀ d d' id, delivery db.store op = some d → answer E db op = some (.inserted id) →
      delivery db'.store op' = some d' → d'.key = d.key →
      (∃ o ∈ db'.store.observations, o.id = id ∧ o.projectId = d'.event.projectId) →
      (∀ o ∈ bs ++ [op'], Timely d.key d.now o) → ∀ id', answer E db' op' ≠ some (.inserted id')

lemma exec_ledgerStep (E : Env) (x : Database × List Claim) (ops : List DbOp) :
    (exec (ledgerStep E) x ops).1 = exec (dbStep E) x.1 ops := by
  induction ops generalizing x with
  | nil => rfl
  | cons op ops ih =>
    rw [exec_cons, exec_cons, ih]
    rfl

/-- In every run whose merges and moves keep the keys with their observations,
keyed events are recorded once. -/
theorem exactly_once_of_keysFollow (E : Env) (ops : List DbOp)
    (hdigest : Guarded (ledgerStep E) (DigestsApart E) (empty, []) ops)
    (hkeys : Guarded (ledgerStep E) (KeysFollow E) (empty, []) ops) : ExactlyOnce E ops := by
  have hlaw : ∀ as op bs, ops = as ++ op :: bs →
      Tracked E (exec (ledgerStep E) (empty, []) as) ∧ ∀ d,
        delivery (exec (ledgerStep E) (empty, []) as).1.store op = some d →
        IngestLaw E (exec (ledgerStep E) (empty, []) as).1 (exec (ledgerStep E) (empty, []) as).2 op
          d := by
    intro as op bs hsplit
    rw [hsplit, guarded_append, guarded_cons] at hdigest hkeys
    have htracked : Tracked E (exec (ledgerStep E) (empty, []) as) :=
      exec_guarded_invariant (fun _ _ h hfollow => h.step hfollow) tracked_empty hkeys.1
    exact ⟨htracked, fun d hd => ingest_law htracked.2 hdigest.2.1 hd⟩
  refine ⟨fun as op bs hsplit => (hlaw as op bs hsplit).2, ?_⟩
  intro as op bs op' cs hsplit db db' d d' id hd hout hd' hkey hhome htimely id' hout'
  have hbefore := (hlaw as op (bs ++ op' :: cs) hsplit).1
  have hdb : (exec (ledgerStep E) (empty, []) as).1 = db := exec_ledgerStep E _ as
  have hdb' : (exec (ledgerStep E) (empty, []) (as ++ op :: bs)).1 = db' := exec_ledgerStep E _ _
  rw [← hdb] at hd hout
  rw [← hdb'] at hd' hout' hhome
  -- the claim was entered, and is there still
  rw [hsplit, guarded_append, guarded_cons, guarded_append] at hkeys
  have hentered : Entered (exec (ledgerStep E) (empty, []) (as ++ op :: bs)).2 id d.key d.now := by
    rw [exec_append, exec_cons]
    refine entered_run (hbefore.step hkeys.2.1) hkeys.2.2.1 ?_ fun o ho =>
      htimely o (mem_append_left _ ho)
    refine ⟨d.claim id, ?_, rfl, rfl, rfl⟩
    change d.claim id ∈ advance E _ _ op
    rw [advance_answered hd hout]
    exact mem_append_right _ mem_cons_self
  obtain ⟨c, hc, hid, hckey, hcseen⟩ := hentered
  obtain ⟨o, ho, hoid, hoproj⟩ := hhome
  have hsplit' : ops = (as ++ op :: bs) ++ op' :: cs := by
    rw [hsplit, append_assoc, cons_append]
  obtain ⟨hafter, hlaw'⟩ := hlaw (as ++ op :: bs) op' cs hsplit'
  have hholds : c.holds (exec (ledgerStep E) (empty, []) (as ++ op :: bs)).1.store
      d'.event.projectId d'.key = true := by
    rw [Claim.holds, Bool.and_eq_true, decide_eq_true_eq, hkey]
    refine ⟨any_eq_true.mpr ⟨o, ho, ?_⟩, hckey⟩
    simp [hoid, hid, hoproj]
  have hexpired := (hlaw' d' hd').inserted id' hout' c hc hholds
  have htime : Timely c.key c.seenAt op' := by
    rw [hckey, hcseen]
    exact htimely op' (mem_append_right _ mem_cons_self)
  rw [retained_of_timely hafter.2 hc hd' htime] at hexpired
  cases hexpired

instance (E : Env) (x : Database × List Claim) (op : DbOp) : Decidable (DigestsApart E x op) :=
  have (d : Delivery) (c : Claim) : Decidable
      (E.eventIdentity d.event d.agent = E.eventIdentity c.event c.agent ↔
        d.event.payload = c.event.payload ∧ d.agent = c.agent) := instDecidableIff
  inferInstanceAs (Decidable (∀ d ∈ delivery x.1.store op, recoveryIngestKey d.key = true →
    ∀ c ∈ x.2, c.key = d.key → (E.eventIdentity d.event d.agent = E.eventIdentity c.event c.agent ↔
      d.event.payload = c.event.payload ∧ d.agent = c.agent)))

instance decidableKeysFollow (E : Env) (x : Database × List Claim) :
    (op : DbOp) → Decidable (KeysFollow E x op)
  | .mergeProject n ws source target pages true now draws => by
    unfold KeysFollow
    infer_instance
  | .moveSession sid ws proj mode true now => by
    unfold KeysFollow
    infer_instance
  | .mergeProject n ws source target pages false now draws => isTrue trivial
  | .moveSession sid ws proj mode false now => isTrue trivial
  | .pages .. | .registry _ | .endSession .. | .insertObservationKeyed .. | .admitEvent ..
  | .completeIngest .. | .moveProject .. => isTrue trivial

def sampleKey : String := "recovery_0123456789abcdef0123456789abcdef0123456789abcdef0123456"

def twoProjects : List DbOp :=
  [.registry (.getOrCreateWorkspace "default" 0),
    .registry (.getOrCreateProjectAs 0 "one" none .open 1),
    .registry (.getOrCreateProjectAs 0 "two" none .open 2)]

/-- An event of session 7 under its recovery key is recorded in both projects;
project 1, which completed it, is merged into project 2, and the event comes
again. -/
def sharedRecovery : List DbOp :=
  twoProjects ++
  [.admitEvent (sampleSession 7 1) (sampleObservation 7 1 .userPrompt) .any (some sampleKey) none 1 0,
    .admitEvent (sampleSession 7 2) (sampleObservation 7 2 .userPrompt) .any (some sampleKey) none 2 0,
    .admitEvent (sampleSession 7 1) (sampleObservation 7 1 .stop) .any (some "k") none 3 1,
    .completeIngest 1 sampleKey 2,
    .endSession 7 none 3,
    .mergeProject noNames 0 1 2 [] true 4 sampleDraws,
    .insertObservationKeyed (sampleObservation 7 2 .userPrompt) sampleKey 4 5,
    .insertObservationKeyed (sampleObservation 7 2 .stop) "k" 4 6]

theorem exactly_once_sharedRecovery : ExactlyOnce sampleEnv sharedRecovery :=
  exactly_once_of_keysFollow sampleEnv sharedRecovery (by decide +kernel) (by decide +kernel)

example : answer sampleEnv (exec (dbStep sampleEnv) empty (sharedRecovery.take 9))
    (.insertObservationKeyed (sampleObservation 7 2 .userPrompt) sampleKey 4 5) =
    some .alreadyComplete := by decide +kernel

def unboundRecovery : List DbOp :=
  twoProjects ++
  [.admitEvent (sampleSession 7 1) (sampleObservation 7 1 .userPrompt) .any (some sampleKey) none 1 0,
    .endSession 7 none 3,
    .mergeProject noNames 0 1 2 [] true 4 sampleDraws,
    .insertObservationKeyed (sampleObservation 7 2 .userPrompt) sampleKey 2 5]

def keyLeftBehind : List DbOp :=
  twoProjects ++
  [.admitEvent (sampleSession 7 1) (sampleObservation 7 1 .userPrompt) .any (some "k") none 1 0,
    .moveSession 7 0 2 .move true 1,
    .insertObservationKeyed (sampleObservation 7 2 .userPrompt) "k" 2 5]

/-- The event is refused under its own recovery key; and an event is inserted
twice. -/
theorem keys_do_not_follow :
    ¬ ExactlyOnce sampleEnv unboundRecovery ∧ ¬ ExactlyOnce sampleEnv keyLeftBehind := by
  constructor
  · intro h
    have hlaw := h.law (unboundRecovery.take 6)
      (.insertObservationKeyed (sampleObservation 7 2 .userPrompt) sampleKey 2 5) [] rfl
      ⟨sampleObservation 7 2 .userPrompt, some "codex", sampleKey, 5⟩ (by decide +kernel)
    have haccepts := hlaw.accepted (by decide +kernel)
      (Delivery.claim ⟨sampleObservation 7 1 .userPrompt, some "codex", sampleKey, 0⟩ 1)
      (by decide +kernel) (by decide +kernel) rfl trivial
    exact absurd haccepts (by decide +kernel)
  · intro h
    have hno := h.once twoProjects
      (.admitEvent (sampleSession 7 1) (sampleObservation 7 1 .userPrompt) .any (some "k") none 1 0)
      [.moveSession 7 0 2 .move true 1]
      (.insertObservationKeyed (sampleObservation 7 2 .userPrompt) "k" 2 5) [] rfl
      ⟨sampleObservation 7 1 .userPrompt, some "codex", "k", 0⟩
      ⟨sampleObservation 7 2 .userPrompt, none, "k", 5⟩ 1 (by decide +kernel) (by decide +kernel)
      (by decide +kernel) rfl (by decide +kernel) ?_ 2
    · exact hno (by decide +kernel)
    · intro op hop
      rcases mem_cons.mp hop with rfl | hop
      · exact .inr fun now hnow => by cases hnow
      · rw [mem_singleton.mp hop]
        refine .inr fun now hnow => ?_
        cases hnow
        decide

end Database
