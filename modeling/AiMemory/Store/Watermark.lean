/-
The session-end watermark.

An end stamp stores the session's observation count; a later `SessionEnd` of an
ended session compares the live count with it.  The comparison answers for the
observations captured since the stamp only while nothing else moves the live
count, so a run carries beside the store how many those are.
-/
import AiMemory.Store.Ops

open Runs Table List

namespace Store

open Bool (and_eq_true)

/-- The store, and for each session the observations captured since its last
end stamp. -/
structure Marked where
  store : Store
  since : SessionId → ℕ

def Marked.init : Marked := ⟨empty, fun _ => 0⟩

def stamps (s : Store) : StoreOp → SessionId → Bool
  | .endSession sid page now, x => x = sid && (s.endSession sid page now).isOk
  | .endLifecycleOnly sid _, x => x = sid && !s.hasSubstantive sid
  | .closeAbandoned cutoff, x =>
    s.sessions.any fun r => r.id = x && r.endedAt.isNone && decide (s.lastActivity r < cutoff)
  | _, _ => false

/-- No operation both adds and removes observations, so what it captured is
what the count grew by. -/
def Marked.step (E : Env) (t : Marked) (op : StoreOp) : Marked where
  store := t.store.step E op
  since sid := if t.store.stamps op sid then 0
    else t.since sid + ((t.store.step E op).observationCount sid - t.store.observationCount sid)

/-- A project purge that takes observations of an ended session of another
project leaves that session more of them than its watermark. -/
def watermarkSafe (s : Store) : StoreOp → Bool
  | .purgeProject ws proj runsActive force mode =>
    !(mode = .commit && (force || !runsActive) && s.paired ws proj) ||
      s.sessions.all fun r => r.endedAt.isNone || r.projectId = proj ||
        let taken := s.observations.countP fun o => o.sessionId = r.id && o.projectId = proj
        decide (taken = 0 ∨ r.endedObservationCount + taken < s.observationCount r.id)
  | _ => true

/-! ### The invariant -/

def AtMark (since count watermark : ℕ) : Prop :=
  (since = 0 ∧ count = watermark) ∨ (0 < since ∧ watermark < count)

structure Marked.Inv (t : Marked) : Prop where
  wf : t.store.Wf
  marks : ∀ r ∈ t.store.sessions, r.endedAt.isSome →
    AtMark (t.since r.id) (t.store.observationCount r.id) r.endedObservationCount

lemma init_markedInv : Marked.init.Inv := ⟨empty_wf, fun _ hr => absurd hr not_mem_nil⟩

/-- Every ended session was there before, ended, with the same watermark and no
more observations than now. -/
def Grows (s s' : Store) : Prop :=
  ∀ r' ∈ s'.sessions, r'.endedAt.isSome → ∃ r ∈ s.sessions, r.id = r'.id ∧ r.endedAt.isSome ∧
    r.endedObservationCount = r'.endedObservationCount ∧
    s.observationCount r.id ≤ s'.observationCount r.id

lemma Grows.refl (s : Store) : Grows s s := fun r hr he => ⟨r, hr, rfl, he, rfl, le_rfl⟩

lemma Grows.trans {s₁ s₂ s₃ : Store} (h : Grows s₁ s₂) (h' : Grows s₂ s₃) : Grows s₁ s₃ := by
  intro r₃ hr₃ he₃
  obtain ⟨r₂, hr₂, hid, he₂, hmark, hle⟩ := h' r₃ hr₃ he₃
  obtain ⟨r₁, hr₁, hid', he₁, hmark', hle'⟩ := h r₂ hr₂ he₂
  exact ⟨r₁, hr₁, hid'.trans hid, he₁, hmark'.trans hmark, hle'.trans (hid' ▸ hle)⟩

variable {since : SessionId → ℕ} {t : Marked} {s s' : Store} {p : SessionRow → Bool}
  {now cutoff : ℤ} {r : SessionRow} {ws : WorkspaceId} {proj : ProjectId} {sid : SessionId}
  {runsActive force : Bool} {tie : ObservationId → ℕ} {obs victims : List ObservationRow} {E : Env}

lemma Marked.Inv.grow (h : t.Inv) {s : Store} (hwf : s.Wf) (hg : Grows t.store s)
    (hsince : ∀ sid, since sid = t.since sid + (s.observationCount sid
      - t.store.observationCount sid)) : (⟨s, since⟩ : Marked).Inv := by
  refine ⟨hwf, fun r' hr' he' => ?_⟩
  obtain ⟨r, hr, hid, he, hmark, hle⟩ := hg r' hr' he'
  have hold := h.marks r hr he
  show AtMark (since r'.id) (s.observationCount r'.id) r'.endedObservationCount
  rw [hsince, ← hid, ← hmark]
  unfold AtMark at hold ⊢
  omega

lemma grows_update {f : SessionRow → SessionRow}
    (hs : s'.sessions = update p f s.sessions) (hobs : s'.observations = s.observations)
    (hid : ∀ r, (f r).id = r.id) (hended : ∀ r, (f r).endedAt = r.endedAt)
    (hmark : ∀ r, (f r).endedObservationCount = r.endedObservationCount) : Grows s s' := by
  intro r' hr' he'
  rw [hs] at hr'
  obtain ⟨r, hr, rfl⟩ := mem_update.mp hr'
  have hcount : s'.observationCount r.id = s.observationCount r.id := by
    rw [observationCount, hobs]
    rfl
  by_cases hp : p r
  · rw [if_pos hp] at he' ⊢
    exact ⟨r, hr, (hid r).symm, hended r ▸ he', (hmark r).symm, hcount.ge⟩
  · rw [if_neg hp] at he' ⊢
    exact ⟨r, hr, rfl, he', rfl, hcount.ge⟩

lemma grows_frame (hs : s'.sessions = s.sessions)
    (hobs : s'.observations = s.observations) : Grows s s' := by
  intro r hr he
  rw [hs] at hr
  exact ⟨r, hr, rfl, he, rfl, by rw [observationCount, observationCount, hobs]⟩

lemma Ingested.grows {obs : NewObservation} {out : IngestOutcome}
    (hin : Ingested s obs out s') : Grows s s' := by
  cases hin with
  | known keys hout => exact grows_frame rfl rfl
  | inserted id keys o hcap =>
    refine fun r hr he => ⟨r, hr, rfl, he, rfl, ?_⟩
    exact List.Sublist.countP_le (sublist_append_left s.observations [o])

lemma grows_beginSession (s : Store) (session : NewSession) (now : ℤ) :
    Grows s { s with sessions := s.sessions ++ [session.row now] } := by
  intro r hr he
  rcases mem_append.mp hr with hr | hr
  · exact ⟨r, hr, rfl, he, rfl, le_rfl⟩
  · rw [mem_singleton.mp hr] at he
    exact absurd he (by simp [NewSession.row])

lemma rebind_grows {session : NewSession} (h : s.rebind session = .ok s') :
    Grows s s' := by
  rw [rebind_ok h]
  exact grows_update rfl rfl (fun _ => rfl) (fun _ => rfl) fun _ => rfl

lemma admitHookSessionEvent_grows {v : String → Bool}
    {f : NewObservation → Option String → String} {session : NewSession}
    {obs : NewObservation} {filter : OwnerFilter} {key movedFrom : Option String}
    {id : ObservationId} {adm : Admission}
    (h : admitHookSessionEvent v f s session obs filter key movedFrom id now = .ok (adm, s')) :
    Grows s s' := by
  obtain ⟨-, ⟨r, -, hknown⟩ | ⟨-, ⟨-, rfl⟩ | ⟨-, -, ingest, -, hin⟩⟩⟩ := admitHookSessionEvent_ok h
  · obtain ⟨-, -, ⟨-, rfl⟩ | ⟨-, ingest, s₁, -, hin, rfl | ⟨-, hmove⟩⟩⟩ := admitToSession_ok hknown
    · exact Grows.refl s'
    · exact (ingestEvent_ok hin).1.grows
    · exact (ingestEvent_ok hin).1.grows.trans (rebind_grows hmove)
  · exact Grows.refl s'
  · exact (grows_beginSession s session now).trans (ingestEvent_ok hin).1.grows

lemma countP_deleteSessions {s : Store} (h : s.Wf)
    (hr : r ∈ s.sessions) (hp : p r = false) {q : ObservationRow → Bool}
    (hq : ∀ o, q o = true → o.sessionId = r.id) :
    (s.deleteSessions p).observations.countP q = s.observations.countP q := by
  refine countP_delete_eq fun o _ ho => ?_
  rw [any_eq_false]
  intro x hx hpx
  rw [and_eq_true, decide_eq_true_eq, hq o ho] at hpx
  -- The deleted row with this id would be `r` itself.
  rw [h.sessionKeys.eq hx hr hpx.2, hp] at hpx
  exact absurd hpx.1 (by simp)

lemma grows_deletePages (s : Store) (p : PageRow → Bool) : Grows s (s.deletePages p) :=
  grows_update rfl rfl (fun _ => rfl) (fun _ => rfl) fun _ => rfl

lemma deletePages_session {s : Store} (p : PageRow → Bool)
    (hr : r ∈ s.sessions) : ∃ y ∈ (s.deletePages p).sessions, y.id = r.id ∧
      y.workspaceId = r.workspaceId ∧ y.projectId = r.projectId := by
  refine ⟨_, mem_update.mpr ⟨r, hr, rfl⟩, ?_⟩
  split
  · exact ⟨rfl, rfl, rfl⟩
  · exact ⟨rfl, rfl, rfl⟩

lemma purgeSession_grows {names : String → SessionId → Bool} (h : s.Wf) {owner : Option PurgeOwner}
    {mode : PurgeMode} (hok : purgeSession names s ws proj sid owner mode now = .ok s') :
    Grows s s' := by
  rcases purgeSession_ok hok with ⟨-, rfl⟩ | ⟨p, tombstones, ⟨x, hx, hxid, hxws, hxproj⟩, -, rfl⟩
  · exact Grows.refl s'
  · obtain ⟨y, hy, hyid, hyws, hyproj⟩ := deletePages_session p hx
    refine (grows_deletePages s p).trans fun r hr he => ?_
    obtain ⟨hr, hkept⟩ := mem_delete.mp hr
    -- The row in the purged scope is the only one with its id, and it is gone.
    have hne : r.id ≠ sid := by
      intro hid
      have hry : r = y := (h.deletePages p).sessionKeys.eq hr hy (by rw [hid, hyid, hxid])
      simp [hry, hyid, hyws, hyproj, hxid, hxws, hxproj] at hkept
    have hown : ∀ o ∈ s.observations, decide (o.sessionId = r.id) = true →
        (o.sessionId = sid && o.workspaceId = ws && o.projectId = proj) = false := by
      intro o _ ho
      rw [decide_eq_true_eq] at ho
      simp [ho, hne]
    have hcascade : ∀ o ∈ delete (fun o => o.sessionId = sid && o.workspaceId = ws
          && o.projectId = proj) s.observations, decide (o.sessionId = r.id) = true →
        ((s.deletePages p).sessions.any fun x => (x.id = sid && x.workspaceId = ws
          && x.projectId = proj) && x.id = o.sessionId) = false := by
      intro o _ ho
      rw [decide_eq_true_eq] at ho
      rw [any_eq_false]
      intro z _ hz
      simp only [and_eq_true, decide_eq_true_eq, ho] at hz
      exact hne (hz.2.symm.trans hz.1.1.1)
    exact ⟨r, hr, rfl, he, rfl, ((countP_delete_eq hcascade).trans (countP_delete_eq hown)).ge⟩

lemma deleteProject_rows {s : Store} (h : s.Wf) (hpaired : s.paired ws proj) {r' : SessionRow}
    (hr' : r' ∈ (s.deleteProject ws proj).sessions) :
    ∃ r ∈ s.sessions, r.id = r'.id ∧ r.endedAt = r'.endedAt ∧
      r.endedObservationCount = r'.endedObservationCount ∧ r.projectId ≠ proj ∧
      (s.deleteProject ws proj).observationCount r.id
        + s.observations.countP (fun o => o.sessionId = r.id && o.projectId = proj)
        = s.observationCount r.id := by
  rw [deleteProject, if_pos hpaired] at hr' ⊢
  obtain ⟨hmem, hproj⟩ := mem_delete.mp hr'
  have hkeep {q : ObservationRow → Bool} :=
    countP_deleteSessions (h.deletePages fun p => p.projectId = proj)
      (p := fun x => x.projectId = proj) (r := r') (q := q) hmem hproj
  have hsplit := countP_delete_add (p := fun o => decide (o.projectId = proj))
    (q := fun o => decide (o.sessionId = r'.id))
    (t := ((s.deletePages fun p => p.projectId = proj).deleteSessions
      fun x => x.projectId = proj).observations)
  rw [hkeep (by simp +contextual), hkeep (by simp)] at hsplit
  obtain ⟨r, hr, hrr'⟩ := mem_update.mp hmem
  have hcols : r.id = r'.id ∧ r.endedAt = r'.endedAt ∧
      r.endedObservationCount = r'.endedObservationCount ∧ r.projectId = r'.projectId := by
    rw [← hrr']
    split
    · exact ⟨rfl, rfl, rfl, rfl⟩
    · exact ⟨rfl, rfl, rfl, rfl⟩
  refine ⟨r, hr, hcols.1, hcols.2.1, hcols.2.2.1, ?_, ?_⟩
  · rw [hcols.2.2.2]
    exact of_decide_eq_false hproj
  · rw [hcols.1]
    exact hsplit

lemma deleteProject_markedInv (h : t.Inv)
    (hsafe : t.store.watermarkSafe (.purgeProject ws proj runsActive force .commit))
    (hforce : (force || !runsActive))
    (hsince : ∀ sid, since sid = t.since sid + ((t.store.deleteProject ws proj).observationCount sid
      - t.store.observationCount sid)) :
    (⟨t.store.deleteProject ws proj, since⟩ : Marked).Inv := by
  by_cases hpaired : t.store.paired ws proj
  · refine ⟨h.wf.deleteProject ws proj, fun r' hr' he' => ?_⟩
    obtain ⟨r, hr, hid, hended, hmark, hproj, hcount⟩ := deleteProject_rows h.wf hpaired hr'
    have hold := h.marks r hr (hended ▸ he')
    have htaken : t.store.observations.countP (fun o => o.sessionId = r.id && o.projectId = proj) = 0
        ∨ r.endedObservationCount + t.store.observations.countP
          (fun o => o.sessionId = r.id && o.projectId = proj) < t.store.observationCount r.id := by
      simp only [watermarkSafe, hforce, hpaired, decide_true, Bool.and_true, Bool.not_true,
        Bool.false_or, all_eq_true] at hsafe
      simpa [hended, Option.isSome_iff_ne_none.mp he', hproj] using hsafe r hr
    show AtMark (since r'.id) ((t.store.deleteProject ws proj).observationCount r'.id)
      r'.endedObservationCount
    rw [hsince, ← hid, ← hmark]
    unfold AtMark at hold ⊢
    omega
  · rw [deleteProject, if_neg hpaired] at hsince ⊢
    exact h.grow h.wf (Grows.refl _) hsince

lemma stampEnd_markedInv (h : t.Inv) {page : Option PageId} (hstamp : since sid = 0)
    (hother : ∀ x, x ≠ sid → since x = t.since x) :
    (⟨t.store.stampEnd sid page now, since⟩ : Marked).Inv := by
  refine ⟨⟨h.wf.sessionKeys.update fun _ => rfl, h.wf.observationKeys⟩, fun r' hr' he' => ?_⟩
  obtain ⟨r, hr, rfl⟩ := mem_update.mp hr'
  show AtMark (since _) (t.store.observationCount _) _
  by_cases hsid : r.id = sid
  · rw [if_pos (by simpa using hsid)]
    exact .inl ⟨hsid ▸ hstamp, by rw [← hsid]⟩
  · have hno : ¬ (decide (r.id = sid) = true) := by simpa using hsid
    rw [if_neg hno] at he' ⊢
    rw [hother r.id hsid]
    exact h.marks r hr he'

lemma closeAbandoned_markedInv (h : t.Inv)
    (hsince : ∀ x, since x = if t.store.stamps (.closeAbandoned cutoff) x then 0 else t.since x) :
    (⟨t.store.closeAbandoned cutoff, since⟩ : Marked).Inv := by
  refine ⟨⟨h.wf.sessionKeys.update fun _ => rfl, h.wf.observationKeys⟩, fun r' hr' he' => ?_⟩
  obtain ⟨r, hr, rfl⟩ := mem_update.mp hr'
  show AtMark (since _) (t.store.observationCount _) _
  by_cases hp : (r.endedAt.isNone && decide (t.store.lastActivity r < cutoff))
  · rw [if_pos hp]
    have hstamp : t.store.stamps (.closeAbandoned cutoff) r.id := by
      rw [stamps, any_eq_true]
      exact ⟨r, hr, by simpa [and_assoc] using hp⟩
    refine .inl ⟨?_, rfl⟩
    rw [hsince, if_pos hstamp]
  · rw [if_neg hp] at he' ⊢
    -- A stamped row with this id would be `r`, which had already ended.
    have hstamp : ¬ (t.store.stamps (.closeAbandoned cutoff) r.id = true) := by
      intro hs
      rw [stamps, any_eq_true] at hs
      obtain ⟨x, hx, hxr⟩ := hs
      simp only [and_eq_true, decide_eq_true_eq] at hxr
      rw [h.wf.sessionKeys.eq hx hr hxr.1.1] at hxr
      exact hp (by simpa using ⟨by simpa using hxr.1.2, hxr.2⟩)
    rw [hsince, if_neg hstamp]
    exact h.marks r hr he'

lemma mem_pruneVictims {s : Store} {batch : ℕ} {o : ObservationRow}
    (h : o ∈ s.pruneVictims ws proj cutoff batch tie) :
    o ∈ s.observations ∧ ∃ r ∈ s.sessions, r.id = o.sessionId ∧ s.pruneGuard r := by
  have hel := mem_filter.mp (mem_insertionSort _ |>.mp (mem_of_mem_take h))
  refine ⟨hel.1, ?_⟩
  simp only [and_eq_true, any_eq_true, decide_eq_true_eq] at hel
  obtain ⟨r, hr, hid, hguard⟩ := hel.2.2
  exact ⟨r, hr, hid, hguard⟩

lemma pruneGuard_count {s : Store} (h : s.pruneGuard r) :
    s.observationCount r.id ≤ r.endedObservationCount := by
  simp only [pruneGuard, and_eq_true, decide_eq_true_eq] at h
  exact h.2

lemma countP_batch_lt (hsub : victims ⊆ obs) (hmem : sid ∈ victims.map (·.sessionId)) :
    (delete (fun o => decide (o.id ∈ victims.map (·.id))) obs).countP (fun o => o.sessionId = sid)
      < obs.countP fun o => o.sessionId = sid := by
  obtain ⟨o, ho, hsid⟩ := mem_map.mp hmem
  have htaken : 0 < obs.countP fun x => decide (x.sessionId = sid)
      && decide (x.id ∈ victims.map (·.id)) := by
    rw [countP_pos_iff]
    refine ⟨o, hsub ho, ?_⟩
    rw [and_eq_true, decide_eq_true_eq, decide_eq_true_eq]
    exact ⟨hsid, mem_map_of_mem ho⟩
  have hsplit := countP_delete_add (p := fun o => decide (o.id ∈ victims.map (·.id)))
    (q := fun o => decide (o.sessionId = sid)) (t := obs)
  omega

lemma countP_batch_eq (hkeys : KeyUnique ObservationRow.id obs)
    (hsub : victims ⊆ obs) (hmem : sid ∉ victims.map (·.sessionId)) :
    (delete (fun o => decide (o.id ∈ victims.map (·.id))) obs).countP (fun o => o.sessionId = sid)
      = obs.countP fun o => o.sessionId = sid := by
  refine countP_delete_eq fun o ho hsid => decide_eq_false fun hid => hmem ?_
  obtain ⟨v, hv, hvid⟩ := mem_map.mp hid
  rw [decide_eq_true_eq] at hsid
  rw [← hsid, ← hkeys.eq (hsub hv) ho hvid]
  exact mem_map_of_mem hv

lemma prune_markedInv (h : t.Inv) {batch : ℕ} (hsince : ∀ sid, since sid = t.since sid) :
    (⟨t.store.pruneConsolidatedObservations ws proj cutoff batch tie, since⟩ : Marked).Inv := by
  refine ⟨⟨h.wf.sessionKeys.update fun _ => rfl, h.wf.observationKeys.delete⟩, fun r' hr' he' => ?_⟩
  obtain ⟨r, hr, hrow⟩ := mem_update.mp hr'
  set victims := t.store.pruneVictims ws proj cutoff batch tie with hvictims
  have hsub : victims ⊆ t.store.observations := fun o ho => (mem_pruneVictims ho).1
  have hcols : r'.id = r.id ∧ r'.endedAt = r.endedAt := by
    rw [← hrow]
    split
    · exact ⟨rfl, rfl⟩
    · exact ⟨rfl, rfl⟩
  have hended : r.endedAt.isSome := hcols.2 ▸ he'
  show AtMark (since r'.id) ((delete (fun o => decide (o.id ∈ victims.map (·.id)))
    t.store.observations).countP fun o => o.sessionId = r'.id) r'.endedObservationCount
  rw [hcols.1, hsince]
  by_cases hmem : r.id ∈ victims.map (·.sessionId)
  · have hlt := countP_batch_lt hsub hmem
    -- The guard holds of this row, so nothing was captured since its end.
    have hguard : t.store.observationCount r.id ≤ r.endedObservationCount := by
      obtain ⟨o, ho, hsid⟩ := mem_map.mp hmem
      obtain ⟨-, x, hx, hxid, hxguard⟩ := mem_pruneVictims ho
      rw [← h.wf.sessionKeys.eq hx hr (hxid.trans hsid)]
      exact pruneGuard_count hxguard
    have hzero : t.since r.id = 0 := by
      rcases h.marks r hr hended with ⟨hzero, -⟩ | ⟨-, habove⟩
      · exact hzero
      · omega
    rw [if_pos] at hrow
    · rw [← hrow]
      exact .inl ⟨hzero, rfl⟩
    · rw [and_eq_true, decide_eq_true_eq, decide_eq_true_eq]
      exact ⟨hmem, hlt.trans_le hguard⟩
  · have hno : ∀ b : Bool, ¬ ((decide (r.id ∈ victims.map (·.sessionId)) && b) = true) := by
      intro b hb
      rw [and_eq_true, decide_eq_true_eq] at hb
      exact hmem hb.1
    rw [if_neg (hno _)] at hrow
    rw [countP_batch_eq h.wf.observationKeys hsub hmem, ← hrow]
    exact h.marks r hr hended

/-! ### Whole runs -/

theorem countP_delete_sub {p q : ObservationRow → Bool} {obs : List ObservationRow} :
    (delete p obs).countP q - obs.countP q = 0 := by
  have hsplit := countP_delete_add (p := p) (q := q) (t := obs)
  omega

lemma Marked.Inv.step_grows (h : t.Inv) {op : StoreOp}
    (hstamps : ∀ sid, t.store.stamps op sid = false) (hg : Grows t.store (t.store.step E op)) :
    (t.step E op).Inv :=
  h.grow (step_wf E op h.wf) hg fun sid => by rw [hstamps sid]; rfl

lemma Marked.Inv.step_stamped (h : t.Inv) {op : StoreOp} {page : Option PageId}
    (hstep : t.store.step E op = t.store.stampEnd sid page now)
    (hstamps : ∀ x, t.store.stamps op x = decide (x = sid)) : (t.step E op).Inv := by
  have heq : t.step E op = ⟨t.store.stampEnd sid page now,
      fun x => if x = sid then 0 else t.since x⟩ := by
    unfold Marked.step
    rw [hstep]
    congr 1
    funext x
    have hcount : (t.store.stampEnd sid page now).observationCount x
        = t.store.observationCount x := rfl
    simp only [hstamps x, decide_eq_true_eq, hcount, Nat.sub_self, Nat.add_zero]
  rw [heq]
  exact stampEnd_markedInv h (if_pos rfl) fun x hx => if_neg hx

lemma Marked.Inv.step_deleteProject (h : t.Inv)
    (hpurge : t.store.purgeProject ws proj runsActive force .commit
      = .ok (t.store.deleteProject ws proj))
    (hsafe : t.store.watermarkSafe (.purgeProject ws proj runsActive force .commit))
    (hforce : (force || !runsActive)) :
    (t.step E (.purgeProject ws proj runsActive force .commit)).Inv := by
  have hstep : t.store.step E (.purgeProject ws proj runsActive force .commit)
      = t.store.deleteProject ws proj := by
    show t.store.settle (t.store.purgeProject ws proj runsActive force .commit) = _
    rw [hpurge]
    rfl
  have heq : t.step E (.purgeProject ws proj runsActive force .commit) =
      ⟨t.store.deleteProject ws proj, fun x => t.since x
        + ((t.store.deleteProject ws proj).observationCount x - t.store.observationCount x)⟩ := by
    unfold Marked.step
    rw [hstep]
    rfl
  rw [heq]
  exact deleteProject_markedInv h hsafe hforce fun _ => rfl

lemma step_markedInv (E : Env) (t : Marked) (op : StoreOp) (h : t.Inv)
    (hsafe : t.store.watermarkSafe op) : (t.step E op).Inv := by
  cases op with
  | createProject p =>
    refine h.step_grows (fun _ => rfl) (settle_rec (Grows.refl _) fun s' hok => ?_)
    rw [createProject_ok hok]
    exact grows_frame rfl rfl
  | beginSession session now =>
    refine h.step_grows (fun _ => rfl) (settle_rec (Grows.refl _) fun s' hok => ?_)
    rcases beginSession_ok hok with rfl | ⟨-, -, rfl⟩
    · exact Grows.refl _
    · exact grows_beginSession t.store session now
  | endSession sid page now =>
    cases hend : t.store.endSession sid page now with
    | error e =>
      refine h.step_grows (fun x => ?_) (settle_rec (Grows.refl _) fun s' hok => ?_)
      · simp [stamps, hend, Except.isOk, Except.toBool]
      · cases hend.symm.trans hok
    | ok s' =>
      have hstep : t.store.step E (.endSession sid page now) = t.store.stampEnd sid page now := by
        show t.store.settle (t.store.endSession sid page now) = _
        rw [hend, endSession_ok hend]
        rfl
      exact h.step_stamped hstep fun x => by simp [stamps, hend, Except.isOk, Except.toBool]
  | endLifecycleOnly sid now =>
    have hend := step_endLifecycleOnly E t.store sid now
    by_cases hsub : t.store.hasSubstantive sid
    · rw [if_pos hsub] at hend
      refine h.step_grows (fun x => by simp [stamps, hsub]) ?_
      rw [hend]
      exact Grows.refl _
    · rw [if_neg hsub] at hend
      exact h.step_stamped hend fun x => by simp [stamps, hsub]
  | closeAbandoned cutoff =>
    refine closeAbandoned_markedInv h fun x => ?_
    have hcount : (t.store.closeAbandoned cutoff).observationCount x
        = t.store.observationCount x := rfl
    show (if _ then 0 else t.since x + ((t.store.closeAbandoned cutoff).observationCount x
      - t.store.observationCount x)) = _
    rw [hcount, Nat.sub_self, Nat.add_zero]
  | insertObservation obs id now =>
    refine h.step_grows (fun _ => rfl) (settle_rec (Grows.refl _) fun s' hok => ?_)
    obtain ⟨o, rfl, hcap⟩ := insertObservation_ok hok
    exact (Ingested.inserted id t.store.ingestKeys o hcap).grows
  | insertObservationKeyed obs key id now =>
    refine h.step_grows (fun _ => rfl) (settle_rec (Grows.refl _) fun s' hok => ?_)
    obtain ⟨⟨out, s₁⟩, hins, rfl⟩ := map_ok.mp hok
    exact (insertObservationKeyed_ok hins).grows
  | admitEvent session obs filter key movedFrom id now =>
    refine h.step_grows (fun _ => rfl) (settle_rec (Grows.refl _) fun s' hok => ?_)
    obtain ⟨⟨adm, s₁⟩, hadm, rfl⟩ := map_ok.mp hok
    exact admitHookSessionEvent_grows hadm
  | prune ws proj cutoff batch tie =>
    refine prune_markedInv h fun sid => ?_
    have hnone : (t.store.step E (.prune ws proj cutoff batch tie)).observationCount sid
        - t.store.observationCount sid = 0 := countP_delete_sub
    show t.since sid + _ = t.since sid
    rw [hnone, Nat.add_zero]
  | purgeSession ws proj sid owner mode now =>
    refine h.step_grows (fun _ => rfl) (settle_rec (Grows.refl _) fun s' hok => ?_)
    exact purgeSession_grows h.wf hok
  | purgeProject ws proj runsActive force mode =>
    cases hpurge : t.store.purgeProject ws proj runsActive force mode with
    | error e =>
      refine h.step_grows (fun _ => rfl) (settle_rec (Grows.refl _) fun s' hok => ?_)
      cases hpurge.symm.trans hok
    | ok s' =>
      rcases purgeProject_ok hpurge with rfl | ⟨rfl, hforce, rfl⟩
      · refine h.step_grows (fun _ => rfl) (settle_rec (Grows.refl _) fun s' hok => ?_)
        cases hpurge.symm.trans hok
        exact Grows.refl _
      · exact h.step_deleteProject hpurge hsafe hforce
  | queue op =>
    refine h.step_grows (fun _ => rfl) ?_
    obtain ⟨jobs, hq⟩ := t.store.queueStep_frame op
    show Grows t.store (t.store.queueStep op)
    rw [hq]
    exact grows_frame rfl rfl
  | writePages pages =>
    refine h.step_grows (fun _ => rfl) ?_
    exact grows_update rfl rfl (fun _ => rfl) (fun _ => rfl) fun _ => rfl

/-- The answer to a `SessionEnd` of an ended session: dropped as another
scope's, or `ReEnd` when something was captured since the last end stamp and
`AlreadyEnded` when nothing was. -/
def EndAnswered (since : ℕ) : Admission → Prop
  | .invalidScopedEnd => True
  | .reEnd _ _ => 0 < since
  | .alreadyEnded _ => since = 0
  | _ => False

/-- In every run whose project purges leave ended sessions of other projects
above their watermark, a `SessionEnd` of an ended session is answered by what
was captured since its end. -/
theorem session_end_watermark (E : Env) (ops : List StoreOp)
    (hops : Guarded (Marked.step E) (fun t op => t.store.watermarkSafe op = true) Marked.init ops)
    (session : NewSession) (obs : NewObservation) (filter : OwnerFilter)
    (key movedFrom : Option String) (id : ObservationId) (now : ℤ) (adm : Admission)
    (hend : obs.kind = .sessionEnd)
    (hended : ((exec (Marked.step E) Marked.init ops).store.findSession session.id).any
      (·.endedAt.isSome) = true)
    (hadm : (admitHookSessionEvent E.validOwner E.eventIdentity
      (exec (Marked.step E) Marked.init ops).store session obs filter key movedFrom id now).map (·.1)
        = .ok adm) :
    EndAnswered ((exec (Marked.step E) Marked.init ops).since session.id) adm := by
  have hinv : (exec (Marked.step E) Marked.init ops).Inv :=
    exec_guarded_invariant (step_markedInv E) init_markedInv hops
  obtain ⟨⟨a, s'⟩, hok, rfl⟩ := map_ok.mp hadm
  obtain ⟨r, hrow, he⟩ := (Option.any_eq_true _ _).mp hended
  obtain ⟨hr, hid⟩ := findSession_some hrow
  have hmark := hinv.marks r hr he
  rw [hid] at hmark
  unfold AtMark at hmark
  obtain ⟨-, ⟨r', hfind, hknown⟩ | ⟨hnone, -⟩⟩ := admitHookSessionEvent_ok hok
  · cases hrow.symm.trans hfind
    have hanswer := (admitToSession_ok hknown).2.1
    cases a with
    | observation b i => exact absurd hend hanswer
    | endOpen b i => exact absurd he (by simp [hanswer.2])
    | reEnd b i =>
      have habove := hanswer.2.2
      show 0 < _
      omega
    | alreadyEnded b =>
      have hbelow := hanswer.2.2
      show _ = 0
      omega
    | invalidScopedEnd => trivial
    | invalidMissingEnd => exact hanswer
  · cases hrow.symm.trans hnone

/-- A session of project 1 that captured two prompts there and one in project
2, and ended. -/
def endedAcrossProjects : List StoreOp :=
  [.createProject ⟨1, 0⟩, .createProject ⟨2, 0⟩, .beginSession (sampleSession 7 1) 0,
    .insertObservation (sampleObservation 7 1 .userPrompt) 10 1,
    .insertObservation (sampleObservation 7 1 .userPrompt) 11 2,
    .insertObservation (sampleObservation 7 2 .userPrompt) 12 3, .endSession 7 none 4]

/-- Resumed work after the end is answered `ReEnd`. -/
theorem session_end_watermark_resumed :
    EndAnswered ((exec (Marked.step plainEnv) Marked.init (endedAcrossProjects ++
        [.insertObservation (sampleObservation 7 2 .userPrompt) 13 5])).since (sampleSession 7 1).id)
      (.reEnd ⟨7, 0, 1, "codex", none⟩ (.inserted 14)) := by
  refine session_end_watermark plainEnv _ ?_ (sampleSession 7 1) (sampleObservation 7 1 .sessionEnd)
    .any none none 14 6 _ rfl ?_ ?_
  · decide
  · decide
  · decide

def purgedThenResumed : List StoreOp :=
  endedAcrossProjects ++ [.purgeProject 0 2 false false .commit,
    .insertObservation (sampleObservation 7 1 .userPrompt) 13 5]

/-- The prompt that follows is not seen: the next end is `AlreadyEnded`. -/
theorem purge_project_swallows_resumed_work :
    (exec (Marked.step plainEnv) Marked.init purgedThenResumed).since 7 = 1 ∧
      ((exec (Marked.step plainEnv) Marked.init purgedThenResumed).store.findSession 7).any
        (·.endedAt.isSome) = true ∧
      (admitHookSessionEvent plainEnv.validOwner plainEnv.eventIdentity
        (exec (Marked.step plainEnv) Marked.init purgedThenResumed).store (sampleSession 7 1)
        (sampleObservation 7 1 .sessionEnd) .any none none 14 6).map (·.1)
          = .ok (.alreadyEnded ⟨7, 0, 1, "codex", none⟩) := by
  decide

end Store
