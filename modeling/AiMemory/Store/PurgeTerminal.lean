/-
What a session purge leaves for good.

A purge deletes a session in one scope and leaves a tombstone, which `begin`
and the admission of a new session consult.  The tombstone is keyed by the
session id alone, and an event of a session that has a row (in another scope)
is filed without consulting it.
-/
import AiMemory.Store.Ops

open Runs Table List

namespace Store

section Scope

variable (ws : WorkspaceId) (proj : ProjectId) (sid : SessionId)

structure Gone (s : Store) : Prop where
  tombstone : ∃ t ∈ s.purgedSessions, t.sessionId = sid ∧ t.workspaceId = ws ∧ t.projectId = proj
  session : ∀ r ∈ s.sessions, ¬ (r.id = sid ∧ r.workspaceId = ws ∧ r.projectId = proj)
  observation : ∀ o ∈ s.observations,
    ¬ (o.sessionId = sid ∧ o.workspaceId = ws ∧ o.projectId = proj)

/-- An event that names the purged scope and is filed because the session has
a row in another one: either appended there, or an end that rebinds the row. -/
def lateDelivery (E : Env) (s : Store) (session : NewSession) (obs : NewObservation)
    (filter : OwnerFilter) (key movedFrom : Option String) (now : ℤ) : Bool :=
  session.id = sid && session.workspaceId = ws && session.projectId = proj &&
    (s.findSession sid).any fun r =>
      identityMatches E.validOwner r session filter
        && s.keyUnclaimed (filed r session obs).projectId key now
        && (obs.kind ≠ .sessionEnd || (r.endedAt.isNone && key.isSome
          && sameCwd r.cwd movedFrom && sameCwd r.cwd session.cwd))

/-- The operations that follow a purge: any but a direct insert into the purged
session's scope and a purge of its project, and no late delivery. -/
def terminalSafe (E : Env) (s : Store) : StoreOp → Bool
  | .insertObservation obs _ _ => !(obs.sessionId = sid && obs.workspaceId = ws
    && obs.projectId = proj)
  | .insertObservationKeyed obs _ _ _ => !(obs.sessionId = sid && obs.workspaceId = ws
    && obs.projectId = proj)
  | .purgeProject _ p _ _ _ => p ≠ proj
  | .admitEvent session obs filter key movedFrom _ now =>
    !lateDelivery ws proj sid E s session obs filter key movedFrom now
  | _ => true

end Scope

variable {ws : WorkspaceId} {proj : ProjectId} {sid : SessionId}

/-! ### Operations that bring nothing new -/

/-- Every session was there in the same scope, every observation was there, and
the project's tombstones stay. -/
structure NoNew (proj : ProjectId) (s s' : Store) : Prop where
  sessions : ∀ r' ∈ s'.sessions, ∃ r ∈ s.sessions, r.id = r'.id ∧ r.workspaceId = r'.workspaceId ∧
    r.projectId = r'.projectId
  observations : s'.observations ⊆ s.observations
  tombstones : ∀ t ∈ s.purgedSessions, t.projectId = proj → ∃ t' ∈ s'.purgedSessions,
    t'.sessionId = t.sessionId ∧ t'.workspaceId = t.workspaceId ∧ t'.projectId = t.projectId

variable {s s' : Store} {names : String → SessionId → Bool} {owner : Option PurgeOwner} {now : ℤ}
  {session : NewSession} {key movedFrom : Option String}

lemma Gone.noNew (h : Gone ws proj sid s) (hn : NoNew proj s s') :
    Gone ws proj sid s' := by
  refine ⟨?_, ?_, fun o ho => h.observation o (hn.observations ho)⟩
  · obtain ⟨t, ht, hsid, hws, hproj⟩ := h.tombstone
    obtain ⟨t', ht', hsid', hws', hproj'⟩ := hn.tombstones t ht hproj
    exact ⟨t', ht', hsid'.trans hsid, hws'.trans hws, hproj'.trans hproj⟩
  · intro r' hr' hscope
    obtain ⟨r, hr, hid, hws, hproj⟩ := hn.sessions r' hr'
    exact h.session r hr ⟨hid.trans hscope.1, hws.trans hscope.2.1, hproj.trans hscope.2.2⟩

lemma NoNew.refl (proj : ProjectId) (s : Store) : NoNew proj s s :=
  ⟨fun r hr => ⟨r, hr, rfl, rfl, rfl⟩, fun _ h => h, fun t ht _ => ⟨t, ht, rfl, rfl, rfl⟩⟩

lemma NoNew.trans {s₁ s₂ s₃ : Store} (h : NoNew proj s₁ s₂) (h' : NoNew proj s₂ s₃) :
    NoNew proj s₁ s₃ where
  sessions r₃ hr₃ := by
    obtain ⟨r₂, hr₂, hid, hws, hproj⟩ := h'.sessions r₃ hr₃
    obtain ⟨r₁, hr₁, hid', hws', hproj'⟩ := h.sessions r₂ hr₂
    exact ⟨r₁, hr₁, hid'.trans hid, hws'.trans hws, hproj'.trans hproj⟩
  observations o ho := h.observations (h'.observations ho)
  tombstones t₁ ht₁ hp := by
    obtain ⟨t₂, ht₂, hsid, hws, hproj⟩ := h.tombstones t₁ ht₁ hp
    obtain ⟨t₃, ht₃, hsid', hws', hproj'⟩ := h'.tombstones t₂ ht₂ (hproj.trans hp)
    exact ⟨t₃, ht₃, hsid'.trans hsid, hws'.trans hws, hproj'.trans hproj⟩

lemma noNew_update {p : SessionRow → Bool} {f : SessionRow → SessionRow}
    (hs : s'.sessions = update p f s.sessions) (hobs : s'.observations ⊆ s.observations)
    (ht : s'.purgedSessions = s.purgedSessions) (hid : ∀ r, (f r).id = r.id)
    (hws : ∀ r, (f r).workspaceId = r.workspaceId) (hproj : ∀ r, (f r).projectId = r.projectId) :
    NoNew proj s s' where
  sessions r' hr' := by
    rw [hs] at hr'
    obtain ⟨r, hr, rfl⟩ := mem_update.mp hr'
    by_cases hp : p r
    · rw [if_pos hp]
      exact ⟨r, hr, (hid r).symm, (hws r).symm, (hproj r).symm⟩
    · rw [if_neg hp]
      exact ⟨r, hr, rfl, rfl, rfl⟩
  observations := hobs
  tombstones t hmem _ := ⟨t, ht ▸ hmem, rfl, rfl, rfl⟩

lemma noNew_frame (hs : s'.sessions = s.sessions)
    (hobs : s'.observations = s.observations) (ht : s'.purgedSessions = s.purgedSessions) :
    NoNew proj s s' where
  sessions r hr := ⟨r, hs ▸ hr, rfl, rfl, rfl⟩
  observations _ ho := hobs ▸ ho
  tombstones t hmem _ := ⟨t, ht ▸ hmem, rfl, rfl, rfl⟩

lemma noNew_deletePages (s : Store) (p : PageRow → Bool) : NoNew proj s (s.deletePages p) :=
  noNew_update rfl (fun _ h => h) rfl (fun _ => rfl) (fun _ => rfl) fun _ => rfl

lemma noNew_deleteSessions (s : Store) (p : SessionRow → Bool) :
    NoNew proj s (s.deleteSessions p) where
  sessions r hr := ⟨r, delete_subset hr, rfl, rfl, rfl⟩
  observations := delete_subset
  tombstones t ht _ := ⟨t, ht, rfl, rfl, rfl⟩

lemma purgeSession_noNew {ws' : WorkspaceId} {proj' : ProjectId} {sid' : SessionId}
    {mode : PurgeMode}
    (hok : purgeSession names s ws' proj' sid' owner mode now = .ok s') : NoNew proj s s' := by
  rcases purgeSession_ok hok with ⟨-, rfl⟩ | ⟨p, tombstones, -, htomb, rfl⟩
  · exact NoNew.refl proj s'
  · refine NoNew.trans ?_ (noNew_deleteSessions _ _)
    refine (noNew_deletePages s p).trans ⟨fun r hr => ⟨r, hr, rfl, rfl, rfl⟩, delete_subset, ?_⟩
    intro t ht _
    show ∃ t' ∈ tombstones, _
    rw [htomb]
    split
    · refine ⟨_, mem_update.mpr ⟨t, ht, rfl⟩, ?_⟩
      split
      · exact ⟨rfl, rfl, rfl⟩
      · exact ⟨rfl, rfl, rfl⟩
    · exact ⟨t, mem_append_left _ ht, rfl, rfl, rfl⟩

lemma deleteProject_noNew {s : Store} {ws' : WorkspaceId} {proj' : ProjectId}
    (hne : proj' ≠ proj) : NoNew proj s (s.deleteProject ws' proj') := by
  unfold deleteProject
  split
  · refine ((noNew_deletePages s _).trans (noNew_deleteSessions _ _)).trans
      ⟨fun r hr => ⟨r, hr, rfl, rfl, rfl⟩, delete_subset, fun t ht hproj => ?_⟩
    refine ⟨t, mem_delete.mpr ⟨ht, decide_eq_false ?_⟩, rfl, rfl, rfl⟩
    rw [hproj]
    exact hne.symm
  · exact NoNew.refl proj s

lemma Gone.isPurged {s : Store} (h : Gone ws proj sid s)
    (hid : session.id = sid) (hws : session.workspaceId = ws) (hproj : session.projectId = proj) :
    s.sessionIsPurged session := by
  obtain ⟨t, ht, htsid, htws, htproj⟩ := h.tombstone
  rw [sessionIsPurged, any_eq_true]
  exact ⟨t, ht, by simp [htsid, htws, htproj, hid, hws, hproj]⟩

lemma Gone.beginSession {s : Store} (h : Gone ws proj sid s) (now : ℤ)
    (hpurged : s.sessionIsPurged session = false) :
    Gone ws proj sid { s with sessions := s.sessions ++ [session.row now] } := by
  refine ⟨h.tombstone, fun r hr hscope => ?_, h.observation⟩
  rcases mem_append.mp hr with hr | hr
  · exact h.session r hr hscope
  · rw [mem_singleton.mp hr] at hscope
    rw [h.isPurged hscope.1 hscope.2.1 hscope.2.2] at hpurged
    cases hpurged

lemma Gone.ingested {obs : NewObservation} {out : IngestOutcome}
    (h : Gone ws proj sid s) (hin : Ingested s obs out s') (hother : (∃ id, out = .inserted id) →
      ¬ (obs.sessionId = sid ∧ obs.workspaceId = ws ∧ obs.projectId = proj)) :
    Gone ws proj sid s' := by
  cases hin with
  | known keys hout => exact ⟨h.tombstone, h.session, h.observation⟩
  | inserted id keys o hcap =>
    refine ⟨h.tombstone, h.session, fun o' ho' hscope => ?_⟩
    rcases mem_append.mp ho' with ho' | ho'
    · exact h.observation o' ho' hscope
    · rw [mem_singleton.mp ho', hcap.sessionId, hcap.workspaceId, hcap.projectId] at hscope
      exact hother ⟨id, rfl⟩ hscope

lemma Gone.rebind (h : Gone ws proj sid s) (hok : s.rebind session = .ok s')
    (hother : ¬ (session.id = sid ∧ session.workspaceId = ws ∧ session.projectId = proj)) :
    Gone ws proj sid s' := by
  rw [rebind_ok hok]
  refine ⟨h.tombstone, fun r' hr' hscope => ?_, h.observation⟩
  obtain ⟨r, hr, hrow⟩ := mem_update.mp hr'
  by_cases hid : r.id = session.id
  · rw [if_pos (by simpa using hid)] at hrow
    rw [← hrow] at hscope
    exact hother ⟨hid.symm.trans hscope.1, hscope.2.1, hscope.2.2⟩
  · rw [if_neg (by simpa using hid)] at hrow
    exact h.session r hr (hrow ▸ hscope)

lemma moveApplies_iff {r : SessionRow}
    {ingest : IngestOutcome} (h : moveApplies r session key movedFrom ingest) :
    sameCwd r.cwd movedFrom ∧ key.isSome ∧ r.endedAt.isNone ∧
      ∃ id, ingest = .inserted id := by
  unfold moveApplies at h
  simp only [Bool.and_eq_true] at h
  obtain ⟨⟨⟨⟨hcwd, -⟩, hkey⟩, hopen⟩, hin⟩ := h
  refine ⟨hcwd, hkey, hopen, ?_⟩
  cases ingest with
  | inserted id => exact ⟨id, rfl⟩
  | alreadyComplete | resumePending => cases hin

lemma Gone.admitToSession {E : Env} (h : Gone ws proj sid s) {r : SessionRow}
    {obs : NewObservation} {filter : OwnerFilter} {id : ObservationId} {adm : Admission}
    (hrow : s.findSession session.id = some r) (hobs : obs.sessionId = session.id)
    (hlate : lateDelivery ws proj sid E s session obs filter key movedFrom now = false)
    (hok : admitToSession E.validOwner E.eventIdentity s r session obs filter key movedFrom id now
      = .ok (adm, s')) : Gone ws proj sid s' := by
  obtain ⟨hr, hrid⟩ := findSession_some hrow
  obtain ⟨hident, -, ⟨-, rfl⟩ | ⟨hend, ingest, s₁, -, hin, hs'⟩⟩ := admitToSession_ok hok
  · exact h
  obtain ⟨hing, hkey⟩ := ingestEvent_ok hin
  -- Filing an event in the purged scope is a late delivery.
  have hnot : (∃ id, ingest = .inserted id) → session.id = sid → session.workspaceId = ws →
      session.projectId = proj → obs.kind = .sessionEnd ∧
        ¬ (r.endedAt.isNone ∧ key.isSome ∧ sameCwd r.cwd movedFrom
          ∧ sameCwd r.cwd session.cwd) := by
    intro hins hid hws hproj
    have hfind : s.findSession sid = some r := hid ▸ hrow
    simp only [lateDelivery, hid, hws, hproj, hfind, hident, hkey hins, decide_true, Bool.true_and,
      Option.any_some, Bool.or_eq_false_iff, decide_eq_false_iff_not, not_not] at hlate
    refine ⟨hlate.1, fun ⟨h₁, h₂, h₃, h₄⟩ => ?_⟩
    simp [h₁, h₂, h₃, h₄] at hlate
  have hfiled : Gone ws proj sid s₁ := by
    refine h.ingested hing fun hins hscope => ?_
    have hid : session.id = sid := hobs.symm.trans hscope.1
    by_cases hk : obs.kind = .sessionEnd
    · -- An end is filed where the row lives, and that is elsewhere.
      refine h.session r hr ⟨hrid.trans hid, ?_, ?_⟩
      · simpa [filed, hk] using hscope.2.1
      · simpa [filed, hk] using hscope.2.2
    · refine absurd (hnot hins hid ?_ ?_).1 hk
      · simpa [filed, hk] using hscope.2.1
      · simpa [filed, hk] using hscope.2.2
  rcases hs' with rfl | ⟨hmove, hmoved⟩
  · exact hfiled
  · refine hfiled.rebind hmoved fun ⟨hid, hws, hproj⟩ => ?_
    obtain ⟨hfrom, hkeyed, hopen, hins⟩ := moveApplies_iff hmove
    obtain ⟨hk, hno⟩ := hnot hins hid hws hproj
    rcases hend hk with ⟨hrws, hrproj⟩ | hcwd
    · exact h.session r hr ⟨hrid.trans hid, hrws.trans hws, hrproj.trans hproj⟩
    · exact hno ⟨hopen, hkeyed, hfrom, hcwd⟩

/-! ### Whole runs -/

theorem step_gone (E : Env) (s : Store) (op : StoreOp) (h : Gone ws proj sid s)
    (hsafe : terminalSafe ws proj sid E s op) : Gone ws proj sid (s.step E op) := by
  cases op with
  | createProject p =>
    refine settle_rec h fun s' hok => h.noNew ?_
    rw [createProject_ok hok]
    exact noNew_frame rfl rfl rfl
  | beginSession session now =>
    refine settle_rec h fun s' hok => ?_
    rcases beginSession_ok hok with rfl | ⟨hpurged, -, rfl⟩
    · exact h
    · exact h.beginSession now hpurged
  | endSession sid' page now =>
    refine settle_rec h fun s' hok => h.noNew ?_
    rw [endSession_ok hok]
    exact noNew_update rfl (fun _ h => h) rfl (fun _ => rfl) (fun _ => rfl) fun _ => rfl
  | endLifecycleOnly sid' now =>
    rw [step_endLifecycleOnly]
    split
    · exact h
    · exact h.noNew (noNew_update rfl (fun _ h => h) rfl (fun _ => rfl) (fun _ => rfl) fun _ => rfl)
  | closeAbandoned cutoff | writePages pages =>
    exact h.noNew (noNew_update rfl (fun _ h => h) rfl (fun _ => rfl) (fun _ => rfl) fun _ => rfl)
  | insertObservation obs id now =>
    refine settle_rec h fun s' hok => ?_
    obtain ⟨o, rfl, hcap⟩ := insertObservation_ok hok
    refine h.ingested (.inserted id s.ingestKeys o hcap) fun _ hscope => ?_
    simp [terminalSafe, hscope] at hsafe
  | insertObservationKeyed obs key id now =>
    refine settle_rec h fun s' hok => ?_
    obtain ⟨⟨out, s₁⟩, hins, rfl⟩ := map_ok.mp hok
    refine h.ingested (insertObservationKeyed_ok hins) fun _ hscope => ?_
    simp [terminalSafe, hscope] at hsafe
  | admitEvent session obs filter key movedFrom id now =>
    refine settle_rec h fun s' hok => ?_
    obtain ⟨⟨adm, s₁⟩, hadm, rfl⟩ := map_ok.mp hok
    obtain ⟨⟨htuple, hobsws, hobsproj⟩,
      ⟨r, hrow, hknown⟩ | ⟨-, ⟨-, heq⟩ | ⟨hpurged, -, ingest, -, hin⟩⟩⟩ :=
      admitHookSessionEvent_ok hadm
    · exact h.admitToSession hrow htuple (by simpa [terminalSafe] using hsafe) hknown
    · exact heq ▸ h
    · refine (h.beginSession now hpurged).ingested (ingestEvent_ok hin).1 fun _ hscope => ?_
      rw [htuple, hobsws, hobsproj] at hscope
      rw [h.isPurged hscope.1 hscope.2.1 hscope.2.2] at hpurged
      cases hpurged
  | prune ws' proj' cutoff batch tie =>
    exact h.noNew (noNew_update rfl delete_subset rfl (fun _ => rfl) (fun _ => rfl) fun _ => rfl)
  | purgeSession ws' proj' sid' owner mode now =>
    exact settle_rec h fun s' hok => h.noNew (purgeSession_noNew hok)
  | purgeProject ws' proj' runsActive force mode =>
    refine settle_rec h fun s' hok => ?_
    rcases purgeProject_ok hok with rfl | ⟨-, -, rfl⟩
    · exact h
    · exact h.noNew (deleteProject_noNew (by simpa [terminalSafe] using hsafe))
  | queue op =>
    obtain ⟨jobs, hq⟩ := s.queueStep_frame op
    show Gone ws proj sid (s.queueStep op)
    rw [hq]
    exact h.noNew (noNew_frame rfl rfl rfl)

lemma purgeSession_gone (hok : purgeSession names s ws proj sid owner .commit now = .ok s')
    (htomb : ∀ t ∈ s.purgedSessions, t.sessionId = sid → t.workspaceId = ws ∧ t.projectId = proj) :
    Gone ws proj sid s' := by
  obtain ⟨hmode, -⟩ | ⟨p, tombstones, -, heq, rfl⟩ := purgeSession_ok hok
  · cases hmode
  · refine ⟨?_, fun r hr hscope => ?_, fun o ho hscope => ?_⟩
    · show ∃ t ∈ tombstones, _
      rw [heq]
      split
      · rename_i hany
        obtain ⟨t, ht, hsid⟩ := any_eq_true.mp hany
        rw [decide_eq_true_eq] at hsid
        refine ⟨_, mem_update_of_match ht (by simpa using hsid), ?_⟩
        exact ⟨hsid, htomb t ht hsid⟩
      · exact ⟨_, mem_append_right _ (mem_singleton.mpr rfl), rfl, rfl, rfl⟩
    · have hkept := (mem_delete.mp hr).2
      simp [hscope] at hkept
    · have hkept := (mem_delete.mp (delete_subset ho)).2
      simp [hscope] at hkept

/-- A purge is terminal in every run without a late delivery, when no other
scope has a tombstone of the session. -/
theorem purge_session_terminal (E : Env) (s s' : Store) (ws : WorkspaceId) (proj : ProjectId)
    (sid : SessionId) (owner : Option PurgeOwner) (now : ℤ)
    (hpurge : purgeSession E.names s ws proj sid owner .commit now = .ok s')
    (htomb : ∀ t ∈ s.purgedSessions, t.sessionId = sid → t.workspaceId = ws ∧ t.projectId = proj)
    (ops : List StoreOp)
    (hops : Guarded (step E) (fun s op => terminalSafe ws proj sid E s op = true) s' ops) :
    (∀ r ∈ (exec (step E) s' ops).sessions,
        ¬ (r.id = sid ∧ r.workspaceId = ws ∧ r.projectId = proj)) ∧
      ∀ o ∈ (exec (step E) s' ops).observations,
        ¬ (o.sessionId = sid ∧ o.workspaceId = ws ∧ o.projectId = proj) := by
  have hgone : Gone ws proj sid (exec (step E) s' ops) :=
    exec_guarded_invariant (step_gone E) (purgeSession_gone hpurge htomb) hops
  exact ⟨hgone.session, hgone.observation⟩

def beforePurge : Store :=
  exec (step plainEnv) empty [.createProject ⟨1, 0⟩, .createProject ⟨2, 0⟩,
    .beginSession (sampleSession 7 1) 0, .insertObservation (sampleObservation 7 1 .userPrompt) 10 1]

def afterPurge : Store := beforePurge.step plainEnv (.purgeSession 0 1 7 none .commit 2)

/-- The session comes back in another project and ends there; a late event of
the purged scope before that is refused. -/
def laterOps : List StoreOp :=
  [.admitEvent (sampleSession 7 1) (sampleObservation 7 1 .userPrompt) .any none none 11 3,
    .beginSession (sampleSession 7 2) 4,
    .admitEvent (sampleSession 7 2) (sampleObservation 7 2 .userPrompt) .any none none 12 5,
    .endSession 7 none 6]

theorem purge_session_terminal_later :
    beforePurge.purgedSessions = [] ∧
      (∀ r ∈ (exec (step plainEnv) afterPurge laterOps).sessions,
        ¬ (r.id = 7 ∧ r.workspaceId = 0 ∧ r.projectId = 1)) ∧
      ∀ o ∈ (exec (step plainEnv) afterPurge laterOps).observations,
        ¬ (o.sessionId = 7 ∧ o.workspaceId = 0 ∧ o.projectId = 1) := by
  refine ⟨by decide, ?_⟩
  exact purge_session_terminal plainEnv beforePurge afterPurge 0 1 7 none 2 (by decide) (by decide)
    laterOps (by decide)

/-- Once the session has a row in project 2, an undelivered event of project 1
is appended there. -/
theorem late_event_undoes_purge :
    purgeSession plainEnv.names beforePurge 0 1 7 none .commit 2 = .ok afterPurge ∧
      ∃ o ∈ (exec (step plainEnv) afterPurge [.beginSession (sampleSession 7 2) 4,
        .admitEvent (sampleSession 7 1) (sampleObservation 7 1 .userPrompt) .any none none 12 5]).observations,
        o.sessionId = 7 ∧ o.workspaceId = 0 ∧ o.projectId = 1 := by
  decide

-- A second purge, in project 2, keeps the tombstone of project 1: the session
-- begins again in project 2.
example : ((exec (step plainEnv) afterPurge [.beginSession (sampleSession 7 2) 3,
    .purgeSession 0 2 7 none .commit 4, .beginSession (sampleSession 7 2) 5]).sessions.map
      (·.projectId)) = [2] := by
  decide

end Store
