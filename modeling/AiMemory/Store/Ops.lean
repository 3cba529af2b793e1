/-
Runs of the store.

One action type for everything that writes sessions, observations, jobs or
tombstones; an operation that fails leaves the store as it was.  Page writers
are one action that makes the page table anything, since what follows never
depends on which pages there are.
-/
import AiMemory.Lib.Runs
import AiMemory.Store.Sessions

open Runs Table

namespace Store

/-! ### Operations -/

/-- What the store takes from elsewhere: which owners read back, the digest of
a recovery event, and which session a page's frontmatter names. -/
structure Env where
  validOwner : String → Bool
  eventIdentity : NewObservation → Option String → String
  names : String → SessionId → Bool

inductive QueueOp
  | enqueue (ws : WorkspaceId) (proj : ProjectId) (sid : SessionId) (now : ℤ)
  | enqueueCheckpoint (ws : WorkspaceId) (proj : ProjectId) (sid : SessionId) (now : ℤ)
  | claimNext (now staleBefore : ℤ) (claimId : ClaimId) (tie : ℕ)
  | complete (c : ClaimedJob) (now : ℤ)
  | fail (c : ClaimedJob) (error : String) (retryAt : Option ℤ) (now : ℤ)
  | release (c : ClaimedJob) (now : ℤ)
  | reconcile (sid : SessionId) (now : ℤ)

inductive StoreOp
  | createProject (p : ProjectRow)
  | beginSession (session : NewSession) (now : ℤ)
  | endSession (sid : SessionId) (summaryPageId : Option PageId) (now : ℤ)
  | endLifecycleOnly (sid : SessionId) (now : ℤ)
  | closeAbandoned (cutoff : ℤ)
  | insertObservation (obs : NewObservation) (id : ObservationId) (now : ℤ)
  | insertObservationKeyed (obs : NewObservation) (key : String) (id : ObservationId) (now : ℤ)
  | admitEvent (session : NewSession) (obs : NewObservation) (filter : OwnerFilter)
      (key movedFrom : Option String) (id : ObservationId) (now : ℤ)
  | prune (ws : WorkspaceId) (proj : ProjectId) (cutoff : ℤ) (batch : ℕ)
      (tie : ObservationId → ℕ)
  | purgeSession (ws : WorkspaceId) (proj : ProjectId) (sid : SessionId)
      (owner : Option PurgeOwner) (mode : PurgeMode) (now : ℤ)
  | purgeProject (ws : WorkspaceId) (proj : ProjectId) (runsActive force : Bool)
      (mode : PurgeMode)
  | queue (op : QueueOp)
  | writePages (pages : List PageRow)

def settle (s : Store) : Except StoreError Store → Store
  | .ok s' => s'
  | .error _ => s

lemma settle_rec {P : Store → Prop} {s : Store} {x : Except StoreError Store} (hs : P s)
    (hok : ∀ s', x = .ok s' → P s') : P (s.settle x) := by
  cases x with
  | ok s' => exact hok s' rfl
  | error e => exact hs

def createProject (s : Store) (p : ProjectRow) : Except StoreError Store :=
  if s.projects.any fun q => q.id = p.id then .error .constraint
  else .ok { s with projects := s.projects ++ [p] }

def writePages (s : Store) (pages : List PageRow) : Store :=
  { s with
    pages := pages
    sessions := update (fun r => !r.summaryPageId.all fun id => pages.any fun p => p.id = id)
      (fun r => { r with summaryPageId := none }) s.sessions }

def queueStep (s : Store) : QueueOp → Store
  | .enqueue ws proj sid now => (s.enqueue ws proj sid now).2
  | .enqueueCheckpoint ws proj sid now => (s.enqueueCheckpoint ws proj sid now).2
  | .claimNext now staleBefore claimId tie =>
    s.settle ((s.claimNext now staleBefore claimId tie).map (·.2))
  | .complete c now => (s.complete c now).2
  | .fail c error retryAt now => (s.fail c error retryAt now).2
  | .release c now => (s.release c now).2
  | .reconcile sid now => (s.reconcileCompleted sid now).2

def step (E : Env) (s : Store) : StoreOp → Store
  | .createProject p => s.settle (s.createProject p)
  | .beginSession session now => s.settle (beginSession E.validOwner s session now)
  | .endSession sid page now => s.settle (s.endSession sid page now)
  | .endLifecycleOnly sid now => s.settle ((s.endLifecycleOnly sid now).map (·.getD s))
  | .closeAbandoned cutoff => s.closeAbandoned cutoff
  | .insertObservation obs id now => s.settle (s.insertObservation obs id now)
  | .insertObservationKeyed obs key id now =>
    s.settle ((insertObservationKeyed E.eventIdentity s obs key id now).map (·.2))
  | .admitEvent session obs filter key movedFrom id now =>
    s.settle ((admitHookSessionEvent E.validOwner E.eventIdentity s session obs filter key
      movedFrom id now).map (·.2))
  | .prune ws proj cutoff batch tie => s.pruneConsolidatedObservations ws proj cutoff batch tie
  | .purgeSession ws proj sid owner mode now =>
    s.settle (purgeSession E.names s ws proj sid owner mode now)
  | .purgeProject ws proj runsActive force mode =>
    s.settle (s.purgeProject ws proj runsActive force mode)
  | .queue op => s.queueStep op
  | .writePages pages => s.writePages pages

lemma queueStep_frame (s : Store) (op : QueueOp) :
    ∃ jobs, s.queueStep op = { s with jobs := jobs } := by
  cases op with
  | enqueue ws proj sid now | enqueueCheckpoint ws proj sid now | complete c now | release c now
  | reconcile sid now => exact ⟨_, rfl⟩
  | claimNext now staleBefore claimId tie =>
    refine settle_rec (P := fun s' => ∃ jobs, s' = { s with jobs := jobs }) ⟨s.jobs, rfl⟩
      fun s' hok => ?_
    obtain ⟨⟨c, s''⟩, hclaim, rfl⟩ := map_ok.mp hok
    unfold claimNext at hclaim
    split at hclaim
    · cases hclaim
      exact ⟨s.jobs, rfl⟩
    · split at hclaim
      · cases hclaim
      · cases hclaim
        exact ⟨_, rfl⟩
  | fail c error retryAt now =>
    show ∃ jobs, (s.fail c error retryAt now).2 = { s with jobs := jobs }
    unfold fail
    split
    · split
      · exact ⟨_, rfl⟩
      · exact ⟨_, rfl⟩
    · exact ⟨_, rfl⟩

/-! ### Capture -/

/-- The row an observation becomes: its session is there, its scope is a real
one, and its id is new. -/
structure Captures (s : Store) (obs : NewObservation) (o : ObservationRow) : Prop where
  sessionId : o.sessionId = obs.sessionId
  workspaceId : o.workspaceId = obs.workspaceId
  projectId : o.projectId = obs.projectId
  paired : s.paired obs.workspaceId obs.projectId = true
  session : ∃ r ∈ s.sessions, r.id = obs.sessionId
  fresh : ∀ o' ∈ s.observations, o'.id ≠ o.id

/-- What a capture leaves: the ingest keys may have changed, and one
observation may have been appended. -/
inductive Ingested (s : Store) (obs : NewObservation) : IngestOutcome → Store → Prop
  | known (out : IngestOutcome) (keys : List IngestKeyRow) (hout : ∀ id, out ≠ .inserted id) :
    Ingested s obs out { s with ingestKeys := keys }
  | inserted (id : ObservationId) (keys : List IngestKeyRow) (o : ObservationRow)
      (hcap : Captures s obs o) :
    Ingested s obs (.inserted id)
      { s with
        ingestKeys := keys
        observations := s.observations ++ [o] }

variable {sid : SessionId} {s s' : Store} {obs : NewObservation} {id : ObservationId} {now : ℤ}
  {f : NewObservation → Option String → String} {out : IngestOutcome} {session : NewSession}
  {v : String → Bool} {key movedFrom : Option String}

lemma findSession_some {s : Store} {r : SessionRow}
    (h : s.findSession sid = some r) : r ∈ s.sessions ∧ r.id = sid :=
  find?_key_some h

lemma findSession_none {s : Store} :
    s.findSession sid = none ↔ ∀ r ∈ s.sessions, r.id ≠ sid :=
  find?_key_eq_none

lemma insertObservation_ok (h : s.insertObservation obs id now = .ok s') :
    ∃ o, s' = { s with observations := s.observations ++ [o] } ∧ Captures s obs o := by
  unfold insertObservation at h
  split at h
  · cases h
  · rename_i hpaired
    split at h
    · cases h
    · rename_i hkeys
      cases h
      rw [Bool.or_eq_true, not_or, Bool.not_eq_true, Bool.not_eq_true] at hkeys
      rw [List.any_eq_false] at hkeys
      refine ⟨_, rfl, rfl, rfl, rfl, ?_, ?_, ?_⟩
      · simpa using hpaired
      · cases hfind : s.findSession obs.sessionId with
        | none => rw [hfind] at hkeys; simp at hkeys
        | some r => exact ⟨r, findSession_some hfind⟩
      · exact fun o ho => by simpa using hkeys.1 o ho

lemma claimIngestKey_ok {agent : Option String} {key : String}
    (h : claimIngestKey f s obs agent key id now = .ok (out, s')) :
    Ingested s obs out s' ∧ ((∃ id, out = .inserted id) →
        ((s.sweepIngestKeys now).ingestKeys.any fun k =>
          k.projectId = obs.projectId && k.key = key) = false) := by
  simp only [claimIngestKey] at h
  split at h
  · rename_i old hold
    split at h
    · cases h
    · split at h
      all_goals
        cases h
        exact ⟨.known _ _ (by simp), by simp⟩
  · rename_i hnone
    obtain ⟨s₁, hinsert, hret⟩ := bind_ok.mp h
    cases hret
    obtain ⟨o, rfl, hcap⟩ := insertObservation_ok hinsert
    refine ⟨.inserted id _ o ⟨hcap.1, hcap.2, hcap.3, hcap.4, hcap.5, hcap.6⟩, fun _ => ?_⟩
    rw [List.any_eq_false]
    exact List.find?_eq_none.mp hnone

def keyUnclaimed (s : Store) (proj : ProjectId) (key : Option String) (now : ℤ) : Bool :=
  key.all fun key => !(s.sweepIngestKeys now).ingestKeys.any fun k =>
    k.projectId = proj && k.key = key

lemma ingestEvent_ok {key : Option String}
    (h : ingestEvent f s session obs key id now = .ok (out, s')) :
    Ingested s obs out s' ∧
      ((∃ id, out = .inserted id) → s.keyUnclaimed obs.projectId key now) := by
  unfold ingestEvent at h
  split at h
  · obtain ⟨hin, hkey⟩ := claimIngestKey_ok h
    refine ⟨hin, fun hout => ?_⟩
    have hnone := hkey hout
    simp only [keyUnclaimed, Option.all_some, hnone, Bool.not_false]
  · obtain ⟨s₁, hinsert, hret⟩ := bind_ok.mp h
    cases hret
    obtain ⟨o, rfl, hcap⟩ := insertObservation_ok hinsert
    exact ⟨.inserted id s.ingestKeys o hcap, fun _ => rfl⟩

def filed (r : SessionRow) (session : NewSession) (obs : NewObservation) : NewObservation :=
  { obs with
    workspaceId := if obs.kind = .sessionEnd then r.workspaceId else session.workspaceId
    projectId := if obs.kind = .sessionEnd then r.projectId else session.projectId }

def Admission.ingest : Admission → Option IngestOutcome
  | .observation _ out | .endOpen _ out | .reEnd _ out => some out
  | .alreadyEnded _ | .invalidScopedEnd | .invalidMissingEnd => none

def Answers (s : Store) (r : SessionRow) (session : NewSession) (obs : NewObservation) :
    Admission → Prop
  | .observation _ _ => obs.kind ≠ .sessionEnd
  | .endOpen _ _ => obs.kind = .sessionEnd ∧ r.endedAt = none
  | .reEnd _ _ => obs.kind = .sessionEnd ∧ r.endedAt.isSome
    ∧ r.endedObservationCount < s.observationCount session.id
  | .alreadyEnded _ => obs.kind = .sessionEnd ∧ r.endedAt.isSome
    ∧ s.observationCount session.id ≤ r.endedObservationCount
  | .invalidScopedEnd => obs.kind = .sessionEnd
  | .invalidMissingEnd => False

lemma admitToSession_ok {r : SessionRow} {filter : OwnerFilter} {adm : Admission}
    (h : admitToSession v f s r session obs filter key movedFrom id now = .ok (adm, s')) :
    identityMatches v r session filter ∧ Answers s r session obs adm ∧
      (adm.ingest = none ∧ s' = s ∨ (obs.kind = .sessionEnd → (r.workspaceId = session.workspaceId
            ∧ r.projectId = session.projectId) ∨ sameCwd r.cwd session.cwd) ∧
        ∃ ingest s₁, adm.ingest = some ingest ∧
          ingestEvent f s session (filed r session obs) key id now = .ok (ingest, s₁) ∧
          (s' = s₁ ∨ moveApplies r session key movedFrom ingest ∧
            s₁.rebind session = .ok s')) := by
  unfold admitToSession at h
  split at h
  · cases h
  · rename_i hident
    refine ⟨by simpa using hident, ?_⟩
    simp only at h
    split at h
    · rename_i hscoped
      cases h
      exact ⟨hscoped.1, .inl ⟨rfl, rfl⟩⟩
    · rename_i hscoped
      split at h
      · rename_i hended
        cases h
        exact ⟨hended, .inl ⟨rfl, rfl⟩⟩
      · rename_i hlive
        obtain ⟨⟨ingest, s₁⟩, hingest, hret⟩ := bind_ok.mp h
        have hend : obs.kind = .sessionEnd → (r.workspaceId = session.workspaceId
            ∧ r.projectId = session.projectId) ∨ sameCwd r.cwd session.cwd := by
          intro hk
          by_contra hno
          rw [not_or] at hno
          exact hscoped ⟨hk, hno.1, by simpa using hno.2⟩
        obtain ⟨s₂, hmoved, hret⟩ := bind_ok.mp hret
        cases hret
        refine ⟨?_, .inr ⟨hend, ingest, s₁, ?_, hingest, ?_⟩⟩
        · by_cases hk : obs.kind = .sessionEnd
          · rw [if_neg (not_not_intro hk)]
            by_cases he : r.endedAt.isSome
            · rw [if_pos he]
              exact ⟨hk, he, Nat.lt_of_not_le fun hle => hlive ⟨hk, he, hle⟩⟩
            · rw [if_neg he]
              exact ⟨hk, by simpa using he⟩
          · rw [if_pos hk]
            exact hk
        · split
          · rfl
          · split <;> rfl
        · unfold followMove at hmoved
          by_cases hmove : moveApplies r session key movedFrom ingest
          · rw [if_pos hmove] at hmoved
            exact .inr ⟨hmove, hmoved⟩
          · rw [if_neg hmove] at hmoved
            cases hmoved
            exact .inl rfl

lemma admitHookSessionEvent_ok {filter : OwnerFilter} {adm : Admission}
    (h : admitHookSessionEvent v f s session obs filter key movedFrom id now = .ok (adm, s')) :
    (obs.sessionId = session.id ∧ obs.workspaceId = session.workspaceId
        ∧ obs.projectId = session.projectId) ∧
      ((∃ r, s.findSession session.id = some r ∧
          admitToSession v f s r session obs filter key movedFrom id now = .ok (adm, s')) ∨
        (s.findSession session.id = none ∧ (adm.ingest = none ∧ s' = s ∨
          s.sessionIsPurged session = false ∧
          s.paired session.workspaceId session.projectId ∧
          ∃ ingest, adm.ingest = some ingest ∧
            ingestEvent f { s with sessions := s.sessions ++ [session.row now] } session obs
              key id now = .ok (ingest, s')))) := by
  unfold admitHookSessionEvent at h
  split at h
  · cases h
  · rename_i htuple
    rw [not_or, not_or, not_not, not_not, not_not] at htuple
    refine ⟨htuple, ?_⟩
    split at h
    · rename_i r hfind
      exact .inl ⟨r, hfind, h⟩
    · rename_i hfind
      refine .inr ⟨hfind, ?_⟩
      unfold admitNewSession at h
      split at h
      · cases h
        exact .inl ⟨rfl, rfl⟩
      · split at h
        · cases h
        · split at h
          · cases h
          · split at h
            · cases h
            · rename_i hpurged
              split at h
              · cases h
              · rename_i hpaired
                obtain ⟨⟨ingest, s₁⟩, hingest, hret⟩ := bind_ok.mp h
                cases hret
                exact .inr ⟨by simpa using hpurged, by simpa using hpaired, ingest, rfl, hingest⟩

lemma rebind_ok (h : s.rebind session = .ok s') :
    s' = { s with
      sessions := update (fun x => x.id = session.id) (fun x => { x with
          workspaceId := session.workspaceId
          projectId := session.projectId
          cwd := session.cwd }) s.sessions } := by
  unfold rebind at h
  split at h
  · cases h
    rfl
  · cases h

lemma createProject_ok {p : ProjectRow} (h : s.createProject p = .ok s') :
    s' = { s with projects := s.projects ++ [p] } := by
  unfold createProject at h
  split at h
  · cases h
  · cases h
    rfl

lemma beginSession_ok (h : beginSession v s session now = .ok s') :
    s' = s ∨ (s.sessionIsPurged session = false ∧ s.findSession session.id = none ∧
      s' = { s with sessions := s.sessions ++ [session.row now] }) := by
  unfold beginSession at h
  split at h
  · cases h
  · split at h
    · cases h
    · rename_i hpurged
      split at h
      · cases h
      · split at h
        · cases h
          exact .inl rfl
        · rename_i hfind
          cases h
          refine .inr ⟨by simpa using hpurged, by simpa using hfind, rfl⟩

def stampEnd (s : Store) (sid : SessionId) (summaryPageId : Option PageId) (now : ℤ) : Store :=
  { s with
    sessions := update (fun r => r.id = sid)
      (fun r => { r with
        endedAt := some now
        summaryPageId := summaryPageId
        endedObservationCount := s.observationCount sid }) s.sessions }

lemma endSession_ok {page : Option PageId}
    (h : s.endSession sid page now = .ok s') : s' = s.stampEnd sid page now := by
  unfold endSession endSessionRow at h
  split at h
  · cases h
  · cases h
    rfl

lemma step_endLifecycleOnly (E : Env) (s : Store) (sid : SessionId) (now : ℤ) :
    s.step E (.endLifecycleOnly sid now) =
      if s.hasSubstantive sid then s else s.stampEnd sid none now := by
  show s.settle ((s.endLifecycleOnly sid now).map (·.getD s)) = _
  unfold endLifecycleOnly
  split
  · rfl
  · unfold endSessionRow
    rw [if_neg (by simp)]
    rfl

lemma insertObservationKeyed_ok {key : String}
    (h : insertObservationKeyed f s obs key id now = .ok (out, s')) : Ingested s obs out s' := by
  unfold insertObservationKeyed at h
  simp only at h
  split at h
  · cases h
  · exact (claimIngestKey_ok h).1

lemma purgeSession_ok {names : String → SessionId → Bool} {ws : WorkspaceId}
    {proj : ProjectId} {owner : Option PurgeOwner} {mode : PurgeMode}
    (h : purgeSession names s ws proj sid owner mode now = .ok s') :
    (mode = .preview ∧ s' = s) ∨ ∃ p tombstones, (∃ r ∈ s.sessions, r.id = sid ∧ r.workspaceId = ws
        ∧ r.projectId = proj) ∧
      (tombstones = if s.purgedSessions.any (fun t => t.sessionId = sid) then
          update (fun t => t.sessionId = sid) (fun t => { t with purgedAt := now }) s.purgedSessions
        else s.purgedSessions ++ [⟨sid, ws, proj, now⟩]) ∧
      s' = deleteSessions { s.deletePages p with
          observations := delete (fun o => o.sessionId = sid && o.workspaceId = ws
            && o.projectId = proj) s.observations
          purgedSessions := tombstones }
        fun x => x.id = sid && x.workspaceId = ws && x.projectId = proj := by
  unfold purgeSession at h
  split at h
  · cases h
  · rename_i r hfind
    split at h
    · cases h
    · split at h
      · rename_i hmode
        cases h
        exact .inl ⟨hmode, rfl⟩
      · cases h
        have hr : (r.id = sid ∧ r.workspaceId = ws) ∧ r.projectId = proj := by
          simpa using List.find?_some hfind
        exact .inr ⟨_, _, ⟨r, List.mem_of_find?_eq_some hfind, hr.1.1, hr.1.2, hr.2⟩, rfl, rfl⟩

lemma purgeProject_ok {ws : WorkspaceId} {proj : ProjectId}
    {runsActive force : Bool} {mode : PurgeMode}
    (h : s.purgeProject ws proj runsActive force mode = .ok s') :
    s' = s ∨ (mode = .commit ∧ (force || !runsActive) ∧ s' = s.deleteProject ws proj) := by
  unfold purgeProject at h
  split at h
  · cases h
  · rename_i hrefused
    split at h
    · cases h
      exact .inl rfl
    · rename_i hmode
      cases h
      refine .inr ⟨?_, ?_, rfl⟩
      · cases mode with
        | preview => exact absurd rfl hmode
        | commit => rfl
      · cases runsActive with
        | false => exact Bool.or_true force
        | true => simpa using hrefused

/-! ### Keys -/

structure Wf (s : Store) : Prop where
  sessionKeys : KeyUnique SessionRow.id s.sessions
  observationKeys : KeyUnique ObservationRow.id s.observations

lemma empty_wf : empty.Wf := ⟨List.nodup_nil, List.nodup_nil⟩

lemma Ingested.wf (h : s.Wf) (hin : Ingested s obs out s') : s'.Wf:= by
  cases hin with
  | known keys hout => exact ⟨h.sessionKeys, h.observationKeys⟩
  | inserted id keys o hcap =>
    exact ⟨h.sessionKeys, keyUnique_append_singleton.mpr ⟨h.observationKeys, hcap.fresh⟩⟩

lemma Wf.beginSession {s : Store} (h : s.Wf) (now : ℤ) (hnew : s.findSession session.id = none) :
    ({ s with sessions := s.sessions ++ [session.row now] } : Store).Wf :=
  ⟨keyUnique_append_singleton.mpr ⟨h.sessionKeys, findSession_none.mp hnew⟩, h.observationKeys⟩

lemma Wf.deleteSessions {s : Store} (h : s.Wf) (p : SessionRow → Bool) :
    (s.deleteSessions p).Wf :=
  ⟨h.sessionKeys.delete, h.observationKeys.delete⟩

lemma Wf.deletePages {s : Store} (h : s.Wf) (p : PageRow → Bool) : (s.deletePages p).Wf :=
  ⟨h.sessionKeys.update fun _ => rfl, h.observationKeys⟩

lemma Wf.deleteProject {s : Store} (h : s.Wf) (ws : WorkspaceId) (proj : ProjectId) :
    (s.deleteProject ws proj).Wf := by
  unfold Store.deleteProject
  split
  · have hcascade := (h.deletePages fun r => r.projectId = proj).deleteSessions
      fun r => r.projectId = proj
    exact ⟨hcascade.sessionKeys, hcascade.observationKeys.delete⟩
  · exact h

/-- Every operation keeps the invariant. -/
theorem step_wf (E : Env) {s : Store} (op : StoreOp) (h : s.Wf) : (s.step E op).Wf := by
  cases op with
  | createProject p =>
    refine settle_rec h fun s' hok => ?_
    rw [createProject_ok hok]
    exact ⟨h.sessionKeys, h.observationKeys⟩
  | beginSession session now =>
    refine settle_rec h fun s' hok => ?_
    rcases beginSession_ok hok with rfl | ⟨-, hnew, rfl⟩
    · exact h
    · exact h.beginSession now hnew
  | endSession sid page now =>
    refine settle_rec h fun s' hok => ?_
    rw [endSession_ok hok]
    exact ⟨h.sessionKeys.update fun _ => rfl, h.observationKeys⟩
  | endLifecycleOnly sid now =>
    rw [step_endLifecycleOnly]
    split
    · exact h
    · exact ⟨h.sessionKeys.update fun _ => rfl, h.observationKeys⟩
  | closeAbandoned cutoff | writePages pages =>
    exact ⟨h.sessionKeys.update fun _ => rfl, h.observationKeys⟩
  | insertObservation obs id now =>
    refine settle_rec h fun s' hok => ?_
    obtain ⟨o, rfl, hcap⟩ := insertObservation_ok hok
    exact (Ingested.inserted id s.ingestKeys o hcap).wf h
  | insertObservationKeyed obs key id now =>
    refine settle_rec h fun s' hok => ?_
    obtain ⟨⟨out, s₁⟩, hins, rfl⟩ := map_ok.mp hok
    exact (insertObservationKeyed_ok hins).wf h
  | admitEvent session obs filter key movedFrom id now =>
    refine settle_rec h fun s' hok => ?_
    obtain ⟨⟨adm, s₁⟩, hadm, rfl⟩ := map_ok.mp hok
    obtain ⟨-, ⟨r, hfind, hknown⟩ | ⟨hnew, ⟨-, heq⟩ | ⟨-, -, ingest, -, hin⟩⟩⟩ :=
      admitHookSessionEvent_ok hadm
    · obtain ⟨-, -, ⟨-, heq⟩ | ⟨-, ingest, s₂, -, hin, heq | ⟨-, hmove⟩⟩⟩ := admitToSession_ok hknown
      · exact heq ▸ h
      · exact heq ▸ (ingestEvent_ok hin).1.wf h
      · have hwf := (ingestEvent_ok hin).1.wf h
        rw [rebind_ok hmove]
        exact ⟨hwf.sessionKeys.update fun _ => rfl, hwf.observationKeys⟩
    · exact heq ▸ h
    · exact (ingestEvent_ok hin).1.wf (h.beginSession now hnew)
  | prune ws proj cutoff batch tie =>
    exact ⟨h.sessionKeys.update fun _ => rfl, h.observationKeys.delete⟩
  | purgeSession ws proj sid owner mode now =>
    refine settle_rec h fun s' hok => ?_
    rcases purgeSession_ok hok with ⟨-, rfl⟩ | ⟨p, tombstones, -, -, rfl⟩
    · exact h
    · refine Wf.deleteSessions ⟨?_, h.observationKeys.delete⟩ _
      exact h.sessionKeys.update fun _ => rfl
  | purgeProject ws proj runsActive force mode =>
    refine settle_rec h fun s' hok => ?_
    rcases purgeProject_ok hok with rfl | ⟨-, -, rfl⟩
    · exact h
    · exact h.deleteProject ws proj
  | queue op =>
    obtain ⟨jobs, hq⟩ := s.queueStep_frame op
    show (s.queueStep op).Wf
    rw [hq]
    exact ⟨h.sessionKeys, h.observationKeys⟩

def plainEnv : Env := ⟨fun _ => true, fun _ _ => "", fun _ _ => false⟩

def sampleSession (sid : SessionId) (proj : ProjectId) : NewSession where
  id := sid
  workspaceId := 0
  projectId := proj
  agentKind := "codex"
  cwd := some "/repo"
  occurredAt := none
  actorUser := none

def sampleObservation (sid : SessionId) (proj : ProjectId) (kind : ObservationKind) :
    NewObservation where
  sessionId := sid
  workspaceId := 0
  projectId := proj
  kind := kind
  «extension» := none
  sourceEvent := none
  title := ""
  body := ""
  importance := 5
  occurredAt := none
  filePath := none

end Store
