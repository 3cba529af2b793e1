/-
A transcript in one batch or in several.

A batch that does not complete its run leaves the run active, with the session it was
sent for, so the next batch finds what it would have found in one call.

* `LedgerLaw`, `ledger_integrity` — the ledger in every reachable state.
-/
import AiMemory.Store.WorkstreamLedger

open Table Runs List

namespace Workstreams

open Store Projects
open Option (bind_some map_none map_some some.injEq)

variable {E : Env} {m m' : Tables} {now now' : ℤ} {run run' : RunRow}
  {authority : ManagedRunAuthority} {recoverExpired : Bool} {π : EventRow → EventRow}
  {input a b whole : FinishWorkstreamRun}

lemma authorize_congr {runId : RunId} (hregistry : m'.registry = m.registry)
    (husers : m'.users = m.users) (hfound : m.findRun runId = some run)
    (hfound' : m'.findRun runId = some run') (howner : run'.ownerUser = run.ownerUser)
    (hstream : run'.workstreamId = run.workstreamId)
    (hscope : (m'.findWorkstream run.workstreamId).map (fun w => (w.workspaceId, w.projectId)) =
      (m.findWorkstream run.workstreamId).map fun w => (w.workspaceId, w.projectId)) :
    m'.authorizeRunMutation runId authority = m.authorizeRunMutation runId authority := by
  unfold Tables.authorizeRunMutation
  rw [hfound, hfound', bind_some, bind_some, hstream]
  cases hw : m.findWorkstream run.workstreamId with
  | none =>
    rw [hw, map_none, Option.map_eq_none_iff] at hscope
    rw [hscope, map_none, map_none]
  | some w =>
    rw [hw, map_some] at hscope
    obtain ⟨w', hw', heq⟩ := Option.map_eq_some_iff.mp hscope
    rw [Prod.mk.injEq] at heq
    rw [hw', map_some, map_some]
    simp only [howner, heq.1, heq.2, Tables.resolveProjectAuthzStrict, hregistry, husers]

lemma activeStreams_congr {runs runs' : List RunRow}
    (h : runs.map (fun r => (r.workstreamId, r.state)) =
      runs'.map fun r => (r.workstreamId, r.state)) : activeStreams runs = activeStreams runs' := by
  have hread : ∀ l : List RunRow, activeStreams l =
      ((l.map fun r => (r.workstreamId, r.state)).filter fun x => x.2 = .active).map (·.1) := by
    intro l
    rw [filter_map, map_map]
    rfl
  rw [hread, hread, h]

lemma reopen_now {reopened : Tables} (h : reopen m run recoverExpired now = .ok reopened)
    (now' : ℤ) : ∃ reopened', reopen m run recoverExpired now' = .ok reopened' := by
  rcases reopen_ok.mp h with ⟨hactive, -⟩ | ⟨hexpired, hrec, hsup, hid, hnodup, -⟩
  · exact ⟨m, reopen_ok.mpr (.inl ⟨hactive, rfl⟩)⟩
  · refine ⟨_, reopen_ok.mpr (.inr ⟨hexpired, hrec, hsup, ?_, ?_, rfl⟩)⟩
    · have hids : ∀ t, (reopenedRuns m.runs run.id t).map RunRow.id = m.runs.map RunRow.id :=
        fun t => map_update fun _ => rfl
      rw [KeyUnique, hids] at hid ⊢
      exact hid
    · have hcolumns : (reopenedRuns m.runs run.id now').map (fun r => (r.workstreamId, r.state)) =
          (reopenedRuns m.runs run.id now).map fun r => (r.workstreamId, r.state) := by
        rw [reopenedRuns, reopenedRuns, Table.update, Table.update, map_map, map_map]
        refine map_congr_left fun r _ => ?_
        rw [Function.comp_apply, Function.comp_apply]
        split <;> rfl
      rw [activeStreams_congr hcolumns]
      exact hnodup

lemma reopen_found {reopened : Tables} (hfound : m.findRun run.id = some run)
    (h : reopen m run recoverExpired now = .ok reopened) : ∃ r, reopened.findRun run.id = some r ∧
      r.state = .active ∧ r.origin = run.origin ∧ r.nativeSessionId = run.nativeSessionId ∧
      reopened.registry = m.registry ∧ reopened.users = m.users ∧
      reopened.workstreams = m.workstreams ∧ reopened.events = m.events := by
  rcases reopen_ok.mp h with ⟨hactive, rfl⟩ | ⟨hexpired, -, -, -, -, rfl⟩
  · exact ⟨run, hfound, hactive, rfl, rfl, rfl, rfl, rfl, rfl⟩
  · have hrow : (reopenedRuns m.runs run.id now).find? (fun r => r.id = run.id) =
        some { run with state := .active, endedAt := none, leaseExpiresAt := now + leaseMicros } := by
      rw [Tables.findRun] at hfound
      rw [reopenedRuns, find?_update, hfound, map_some, if_pos (by simp [hexpired])]
      exact fun _ => rfl
    exact ⟨_, hrow, rfl, rfl, rfl, rfl, rfl, rfl, rfl⟩

lemma session_or (a : FinishWorkstreamRun) (run : RunRow) :
    (a.session run <|> run.nativeSessionId) = a.session run := by
  rw [FinishWorkstreamRun.session]
  cases a.nativeSessionId with
  | some n => rfl
  | none => cases run.nativeSessionId <;> rfl

variable {res : FinishedWorkstreamRun} {m₁ : Tables} {parts : List (FinishWorkstreamRun × ℤ)}
  {last : FinishWorkstreamRun × ℤ}

lemma batch_ok (hfound : m.findRun a.runId = some run) (hstate : run.state ≠ .finished)
    (hok : finishRunInner E m authority a recoverExpired now = .ok (res, m')) :
    ∃ run' reopened done, reopen m run recoverExpired now = .ok reopened ∧
      m' = importedTables reopened run a now done ∧ m'.findRun a.runId = some run' ∧
      run'.state = (if a.complete then .finished else .active) ∧
      run'.workstreamId = run.workstreamId ∧ run'.agent = run.agent ∧
      run'.nativeSessionId = a.session run ∧ (a.complete → run'.exitCode = a.exitCode) ∧
      IdentitiesHold E a run ∧
      importEvents E a run (a.session run) now (m.importFrom run.workstreamId) a.events = .ok done ∧
      m'.authorizeRunMutation a.runId authority = m.authorizeRunMutation a.runId authority := by
  obtain ⟨-, r, hr, hcase⟩ := finishRunInner_ok.mp hok
  rw [hfound, some.injEq] at hr
  subst hr
  rcases hcase with ⟨hfin, -⟩ | ⟨-, reopened, hreopen, himport⟩
  · exact absurd hfin hstate
  obtain ⟨hidentities, done, hloop, -, rfl⟩ := importBatch_ok.mp himport
  have hrunId : run.id = a.runId := (mem_of_findRun hfound).2
  obtain ⟨r, hr, hactive, horigin, hnative, hregistry, husers, hstreams, hevents⟩ :=
    reopen_found (hrunId ▸ hfound) hreopen
  rw [Tables.importFrom, hevents] at hloop
  have hfound' : (importedTables reopened run a now done).findRun a.runId =
      some (closeRun a (a.session run) now r) := by
    rw [Tables.findRun, hrunId] at hr
    rw [Tables.findRun, importedTables, find?_update, hr, map_some,
      if_pos (decide_eq_true (by rw [(find?_key_some hr).2, hrunId]))]
    intro r
    exact congrArg (·.1) (closeRun_origin a _ now r)
  have hclosed := (closeRun_origin a (a.session run) now r).trans horigin
  refine ⟨_, reopened, done, hreopen, rfl, hfound', ?_, congrArg (·.2.1) hclosed,
    congrArg (·.2.2.1) hclosed, ?_, ?_, hidentities, hloop, ?_⟩
  · rw [closeRun]
    cases a.complete with
    | true => rfl
    | false => exact hactive
  · rw [closeRun]
    have hkept := session_or a run
    rw [← hnative] at hkept
    cases a.complete <;> exact hkept
  · intro hcomplete
    rw [closeRun, hcomplete]
    rfl
  · refine authorize_congr hregistry husers hfound hfound' (congrArg (·.2.2.2.1) hclosed)
      (congrArg (·.2.1) hclosed) ?_
    rw [Tables.findWorkstream, importedTables, find?_update, hstreams, Option.map_map]
    · refine congrArg (Option.map · _) (funext fun w => ?_)
      rw [Function.comp_apply]
      split <;> rfl
    · exact fun _ => rfl

lemma part_ok (hpart : a.complete = false)
    (hfound : m.findRun a.runId = some run) (hstate : run.state ≠ .finished)
    (hok : finishRunInner E m authority a recoverExpired now = .ok (res, m')) :
    ∃ run' done, m'.findRun a.runId = some run' ∧ run'.state = .active ∧
      run'.workstreamId = run.workstreamId ∧ run'.agent = run.agent ∧
      run'.nativeSessionId = a.session run ∧ IdentitiesHold E a run ∧
      importEvents E a run (a.session run) now (m.importFrom run.workstreamId) a.events = .ok done ∧
      m'.events = done.events ∧
      m'.authorizeRunMutation a.runId authority = m.authorizeRunMutation a.runId authority ∧
      ∃ reopened, reopen m run recoverExpired now = .ok reopened := by
  obtain ⟨run', reopened, done, hreopen, rfl, hfound', hactive, hstream, hagent, hnative, -, hids,
    hloop, hauth⟩ := batch_ok hfound hstate hok
  rw [hpart] at hactive
  exact ⟨run', done, hfound', hactive, hstream, hagent, hnative, hids, hloop, rfl, hauth, reopened,
    hreopen⟩

/-! ### Two calls and one -/

/-- A batch of the upload that another call makes in one: for the same run and session,
with the same privacy strip, and rows that `π` does not tell apart. -/
structure PartOf (E : Env) (π : EventRow → EventRow) (a : FinishWorkstreamRun) (now : ℤ)
    (whole : FinishWorkstreamRun) (now' : ℤ) : Prop where
  runId : a.runId = whole.runId
  native : a.nativeSessionId = whole.nativeSessionId
  rows : ∀ run run' : RunRow, run.workstreamId = run'.workstreamId →
    SameRows E π a run now whole run' now'

lemma PartOf.symm (h : PartOf E π a now whole now') : PartOf E π whole now' a now :=
  ⟨h.runId.symm, h.native.symm, fun run run' hstream acc acc' event hlatest =>
    (h.rows run' run hstream.symm acc' acc event hlatest.symm).symm⟩

lemma PartOf.session (h : PartOf E π a now whole now') (run : RunRow) :
    a.session run = whole.session run := by
  rw [FinishWorkstreamRun.session, FinishWorkstreamRun.session, h.native]

lemma partOf_entry (hrun : a.runId = whole.runId)
    (hnative : a.nativeSessionId = whole.nativeSessionId) (hstrip : a.sanitizer = whole.sanitizer) :
    PartOf E EventRow.entry a now whole now' := by
  refine ⟨hrun, hnative, fun run run' hstream acc acc' event hlatest => ?_⟩
  simp only [EventRow.entry, nextRow, newEventRow, hstrip, hstream, hlatest]

lemma partOf_id (hrun : a.runId = whole.runId)
    (hnative : a.nativeSessionId = whole.nativeSessionId) (hstrip : a.sanitizer = whole.sanitizer)
    (hsegment : a.segmentPath = whole.segmentPath) : PartOf E id a now whole now := by
  refine ⟨hrun, hnative, fun run run' hstream acc acc' event hlatest => ?_⟩
  simp only [id, nextRow, newEventRow, hstrip, hstream, hlatest, hsegment]

lemma same_batch (hπ : Faithful π) (hpart : PartOf E π a now whole now')
    (hevents : whole.events = a.events) (hfound : m.findRun a.runId = some run)
    (hstate : run.state ≠ .finished)
    (hok : finishRunInner E m authority a recoverExpired now = .ok (res, m₁)) :
    ∃ res' m₂, finishRunInner E m authority whole recoverExpired now' = .ok (res', m₂) ∧
      m₁.events.map π = m₂.events.map π := by
  obtain ⟨hauth, r, hr, hcase⟩ := finishRunInner_ok.mp hok
  rw [hfound, some.injEq] at hr
  subst hr
  rcases hcase with ⟨hfin, -⟩ | ⟨-, reopened, hreopen, himport⟩
  · exact absurd hfin hstate
  obtain ⟨hidentities, done, hloop, -, rfl⟩ := importBatch_ok.mp himport
  obtain ⟨reopened', hreopen'⟩ := reopen_now hreopen now'
  rw [Tables.importFrom, reopen_events hreopen] at hloop
  obtain ⟨done', hloop', halike⟩ := importEvents_alike hπ (hpart.rows run run rfl) rfl rfl
    (⟨rfl, rfl⟩ : Alike π _ _) hloop
  have himport' : importBatch E reopened' run whole now' =
      .ok (⟨done'.imported, done'.latest⟩, importedTables reopened' run whole now' done') := by
    refine importBatch_ok.mpr ⟨⟨?_, ?_⟩, done', ?_, rfl, rfl⟩
    · rw [← hpart.session run]
      exact hidentities.1
    · rw [hevents]
      exact hidentities.2
    · rw [Tables.importFrom, reopen_events hreopen', hevents, ← hpart.session run]
      exact hloop'
  have hok' := finishRunInner_ok.mpr ⟨hpart.runId ▸ hauth, run, hpart.runId ▸ hfound,
    .inr ⟨hstate, reopened', hreopen', himport'⟩⟩
  exact ⟨_, _, hok', halike.events⟩

lemma importFrom_alike {done done' : Import} {acc : Import} (hcounted : acc.Counted run.workstreamId)
    (hloop : importEvents E a run (a.session run) now acc a.events = .ok done)
    (hevents : m'.events = done.events) (halike : Alike π done done') :
    Alike π (m'.importFrom run.workstreamId) done' := by
  have hdone := importEvents_counted hcounted hloop
  refine ⟨?_, ?_⟩
  · change latestSequence m'.events run.workstreamId = done'.latest
    rw [hevents, hdone.wellformed.latest, ← hdone.latest, halike.latest]
  · change m'.events.map π = _
    rw [hevents]
    exact halike.events

lemma importEvents_append {acc done : Import} {native : Option String}
    {events events' : List NewWorkstreamEvent} :
    importEvents E input run native now acc (events ++ events') = .ok done ↔
      ∃ mid, importEvents E input run native now acc events = .ok mid ∧
        importEvents E input run native now mid events' = .ok done := by
  unfold importEvents
  rw [foldlM_append, bind_ok]

lemma merge_batches {now'' : ℤ} (hπ : Faithful π) (hwf : Wellformed m.events)
    (ha : PartOf E π a now whole now'') (hb : PartOf E π b now' whole now'')
    (hpart : a.complete = false) (hevents : whole.events = a.events ++ b.events)
    (hfound : m.findRun a.runId = some run) (hstate : run.state ≠ .finished)
    {res res' : FinishedWorkstreamRun}
    (hfirst : finishRunInner E m authority a recoverExpired now = .ok (res, m'))
    (hsecond : finishRunInner E m' authority b recoverExpired now' = .ok (res', m₁)) :
    ∃ res'' m₂, finishRunInner E m authority whole recoverExpired now'' = .ok (res'', m₂) ∧
      m₁.events.map π = m₂.events.map π := by
  obtain ⟨hauth, -⟩ := finishRunInner_ok.mp hfirst
  obtain ⟨run', doneA, hfound', hactive, hstream, hagent, hnative, hidsA, hloopA, heventsA, -,
    reopened, hreopen⟩ := part_ok hpart hfound hstate hfirst
  obtain ⟨-, r, hr, hcase⟩ := finishRunInner_ok.mp hsecond
  rw [hb.runId, ← ha.runId, hfound', some.injEq] at hr
  subst hr
  rcases hcase with ⟨hfin, -⟩ | ⟨-, opened, hopen, himport⟩
  · rw [hactive] at hfin
    cases hfin
  obtain ⟨-, hopened⟩ | ⟨hexpired, -⟩ := reopen_ok.mp hopen
  swap
  · rw [hactive] at hexpired
    cases hexpired
  rw [hopened] at himport
  obtain ⟨hidsB, doneB, hloopB, -, rfl⟩ := importBatch_ok.mp himport
  -- the session of the second batch is the session of the first
  have hsession : b.session run' = whole.session run := by
    rw [FinishWorkstreamRun.session, hnative, ha.session, hb.native, FinishWorkstreamRun.session]
    cases whole.nativeSessionId <;> rfl
  rw [ha.session run] at hloopA
  obtain ⟨mid, hmid, halikeA⟩ := importEvents_alike hπ (ha.rows run run rfl) rfl rfl
    (⟨rfl, rfl⟩ : Alike π _ _) hloopA
  have hstart : Alike π (m'.importFrom run.workstreamId) mid :=
    importFrom_alike (importFrom_counted hwf _) (by rw [ha.session run]; exact hloopA) heventsA
      halikeA
  rw [hsession, hstream] at hloopB
  obtain ⟨done, hdone, halike⟩ := importEvents_alike hπ (hb.rows run' run hstream) hstream.symm
    hagent.symm hstart hloopB
  obtain ⟨reopened', hreopen'⟩ := reopen_now hreopen now''
  have himport' : importBatch E reopened' run whole now'' =
      .ok (⟨done.imported, done.latest⟩, importedTables reopened' run whole now'' done) := by
    refine importBatch_ok.mpr ⟨⟨?_, ?_⟩, done, ?_, rfl, rfl⟩
    · rw [← ha.session run]
      exact hidsA.1
    · rw [hevents]
      intro event hevent
      rcases mem_append.mp hevent with h | h
      · exact hidsA.2 event h
      · exact hidsB.2 event h
    · rw [Tables.importFrom, reopen_events hreopen', hevents]
      exact importEvents_append.mpr ⟨mid, hmid, hdone⟩
  have hok := finishRunInner_ok.mpr ⟨ha.runId ▸ hauth, run, ha.runId ▸ hfound,
    .inr ⟨hstate, reopened', hreopen', himport'⟩⟩
  exact ⟨_, _, hok, halike.events⟩

lemma split_batches {now'' : ℤ} (hπ : Faithful π) (hwf : Wellformed m.events)
    (ha : PartOf E π a now whole now'') (hb : PartOf E π b now' whole now'')
    (hpart : a.complete = false) (hevents : whole.events = a.events ++ b.events)
    (hfound : m.findRun a.runId = some run) (hstate : run.state ≠ .finished) {m₂ : Tables}
    (hok : finishRunInner E m authority whole recoverExpired now'' = .ok (res, m₂)) :
    ∃ res' m' res'' m₁, finishRunInner E m authority a recoverExpired now = .ok (res', m') ∧
      finishRunInner E m' authority b recoverExpired now' = .ok (res'', m₁) ∧
      m₁.events.map π = m₂.events.map π := by
  obtain ⟨hauth, r, hr, hcase⟩ := finishRunInner_ok.mp hok
  rw [← ha.runId, hfound, some.injEq] at hr
  subst hr
  rcases hcase with ⟨hfin, -⟩ | ⟨-, reopened, hreopen, himport⟩
  · exact absurd hfin hstate
  obtain ⟨hids, done, hloop, -, rfl⟩ := importBatch_ok.mp himport
  rw [Tables.importFrom, reopen_events hreopen, hevents] at hloop
  obtain ⟨mid, hmid, hrest⟩ := importEvents_append.mp hloop
  obtain ⟨doneA, hloopA, halikeA⟩ := importEvents_alike hπ (ha.symm.rows run run rfl) rfl rfl
    (⟨rfl, rfl⟩ : Alike π _ _) hmid
  obtain ⟨reopened', hreopen'⟩ := reopen_now hreopen now
  have hfirst : finishRunInner E m authority a recoverExpired now =
      .ok (⟨doneA.imported, doneA.latest⟩, importedTables reopened' run a now doneA) := by
    refine finishRunInner_ok.mpr ⟨ha.runId ▸ hauth, run, hfound, .inr ⟨hstate, reopened', hreopen',
      importBatch_ok.mpr ⟨⟨?_, fun event hevent => ?_⟩, doneA, ?_, rfl, rfl⟩⟩⟩
    · rw [ha.session run]
      exact hids.1
    · exact hids.2 event (hevents ▸ mem_append_left _ hevent)
    · rw [Tables.importFrom, reopen_events hreopen', ha.session run]
      exact hloopA
  obtain ⟨run', doneA', hfound', hactive, hstream, hagent, hnative, -, hloopA', heventsA, hauth', -⟩ :=
    part_ok hpart hfound hstate hfirst
  rw [ha.session run, show m.importFrom run.workstreamId = ⟨latestSequence m.events run.workstreamId,
    0, m.events⟩ from rfl, hloopA, Except.ok.injEq] at hloopA'
  subst hloopA'
  have hsession : b.session run' = whole.session run := by
    rw [FinishWorkstreamRun.session, hnative, ha.session, hb.native, FinishWorkstreamRun.session]
    cases whole.nativeSessionId <;> rfl
  have hflip : Alike π doneA mid := ⟨halikeA.latest.symm, halikeA.events.symm⟩
  have hstart : Alike π ((importedTables reopened' run a now doneA).importFrom run.workstreamId) mid :=
    importFrom_alike (importFrom_counted hwf run.workstreamId)
      (by rw [ha.session run]; exact hloopA) heventsA hflip
  obtain ⟨doneB, hloopB, halike⟩ := importEvents_alike hπ (hb.symm.rows run run' hstream.symm)
    hstream hagent (⟨hstart.latest.symm, hstart.events.symm⟩ : Alike π mid _) hrest
  refine ⟨_, _, _, _, hfirst, finishRunInner_ok.mpr ⟨?_, run', ?_, .inr ⟨by simp [hactive],
    _, reopen_ok.mpr (.inl ⟨hactive, rfl⟩),
    importBatch_ok.mpr ⟨⟨?_, fun event hevent => ?_⟩, doneB, ?_, rfl, rfl⟩⟩⟩, halike.events.symm⟩
  · rw [hb.runId, ← ha.runId, hauth', ha.runId]
    exact hauth
  · rw [hb.runId, ← ha.runId]
    exact hfound'
  · rw [hsession]
    exact hids.1
  · exact hids.2 event (hevents ▸ mem_append_right _ hevent)
  · rw [hsession, hstream]
    exact hloopB

def finishAll (E : Env) (m : Tables) (authority : ManagedRunAuthority) (recoverExpired : Bool)
    (batches : List (FinishWorkstreamRun × ℤ)) : Except RunError Tables :=
  batches.foldlM
    (fun m batch => (finishRunInner E m authority batch.1 recoverExpired batch.2).map Prod.snd) m

lemma finishAll_cons {batch : FinishWorkstreamRun × ℤ} {rest : List (FinishWorkstreamRun × ℤ)}
    : finishAll E m authority recoverExpired (batch :: rest) = .ok m₁ ↔
      ∃ res mid, finishRunInner E m authority batch.1 recoverExpired batch.2 = .ok (res, mid) ∧
        finishAll E mid authority recoverExpired rest = .ok m₁ := by
  unfold finishAll
  rw [foldlM_cons_ok]
  constructor
  · rintro ⟨mid, hmid, hrest⟩
    obtain ⟨⟨res, mid'⟩, hok, rfl⟩ := map_ok.mp hmid
    exact ⟨res, _, hok, hrest⟩
  · rintro ⟨res, mid, hok, hrest⟩
    exact ⟨mid, map_ok.mpr ⟨_, hok, rfl⟩, hrest⟩

lemma finish_wellformed (hwf : Wellformed m.events)
    (hok : finishRunInner E m authority a recoverExpired now = .ok (res, m')) :
    Wellformed m'.events := by
  have hstep : step E m (.finish authority a recoverExpired now) = m' := by
    rw [step, hok]
    rfl
  exact hstep ▸ step_wellformed hwf _

lemma batches_agree (hπ : Faithful π) (hwf : Wellformed m.events)
    (hparts : ∀ p ∈ parts, p.1.complete = false)
    (hwhole : ∀ p ∈ parts ++ [last], PartOf E π p.1 p.2 whole now)
    (hevents : whole.events = (parts ++ [last]).flatMap (·.1.events))
    (hfound : m.findRun whole.runId = some run) (hstate : run.state ≠ .finished) :
    (∀ m₁, finishAll E m authority recoverExpired (parts ++ [last]) = .ok m₁ →
      ∃ res m₂, finishRunInner E m authority whole recoverExpired now = .ok (res, m₂) ∧
        m₁.events.map π = m₂.events.map π) ∧
    (∀ res m₂, finishRunInner E m authority whole recoverExpired now = .ok (res, m₂) →
      ∃ m₁, finishAll E m authority recoverExpired (parts ++ [last]) = .ok m₁ ∧
        m₁.events.map π = m₂.events.map π) := by
  induction parts generalizing m run whole with
  | nil =>
    rw [nil_append, flatMap_singleton] at hevents
    have hlast : PartOf E π last.1 last.2 whole now := hwhole last (by simp)
    constructor
    · intro m₁ hall
      obtain ⟨res, mid, hok, hnil⟩ := finishAll_cons.mp hall
      obtain rfl := foldlM_nil_ok.mp hnil
      exact same_batch hπ hlast hevents (hlast.runId ▸ hfound) hstate hok
    · intro res m₂ hok
      obtain ⟨res', m₁, hok', hagree⟩ := same_batch hπ hlast.symm hevents.symm hfound hstate hok
      exact ⟨m₁, finishAll_cons.mpr ⟨res', m₁, hok', foldlM_nil_ok.mpr rfl⟩, hagree.symm⟩
  | cons p parts ih =>
    -- the rest of the upload, as one call
    let rest : FinishWorkstreamRun := { whole with events := (parts ++ [last]).flatMap (·.1.events) }
    have hp : PartOf E π p.1 p.2 whole now := hwhole p (by simp)
    have hrest : PartOf E π rest now whole now :=
      ⟨rfl, rfl, fun r r' hstream acc acc' event hlatest => by
        have hcols : nextRow E rest r now acc event = nextRow E whole r' now acc' event := by
          simp only [nextRow, newEventRow, hstream, hlatest, rest]
        rw [hcols]⟩
    have hrest' : ∀ q ∈ parts ++ [last], PartOf E π q.1 q.2 rest now := fun q hq =>
      have h := hwhole q (mem_cons_of_mem p hq)
      ⟨h.runId, h.native, h.rows⟩
    have hcomplete : p.1.complete = false := hparts p mem_cons_self
    have hlater : ∀ q ∈ parts, q.1.complete = false := fun q hq =>
      hparts q (mem_cons_of_mem p hq)
    rw [cons_append, flatMap_cons] at hevents
    have hstart : m.findRun p.1.runId = some run := hp.runId ▸ hfound
    constructor
    · intro m₁ hall
      obtain ⟨res, mid, hfirst, hall⟩ := finishAll_cons.mp hall
      obtain ⟨run', -, hfound', hactive, -⟩ := part_ok hcomplete hstart hstate hfirst
      have hthere : mid.findRun rest.runId = some run' := hp.runId ▸ hfound'
      obtain ⟨res', m₂', hsecond, hagree⟩ := (ih (finish_wellformed hwf hfirst) hlater hrest' rfl
        hthere (by simp [hactive])).1 m₁ hall
      obtain ⟨res'', m₂, hok, hagree'⟩ := merge_batches hπ hwf hp hrest hcomplete hevents hstart
        hstate hfirst hsecond
      exact ⟨res'', m₂, hok, hagree.trans hagree'⟩
    · intro res m₂ hok
      obtain ⟨res', mid, res'', m₂', hfirst, hsecond, hagree⟩ := split_batches hπ hwf hp hrest
        hcomplete hevents hstart hstate hok
      obtain ⟨run', -, hfound', hactive, -⟩ := part_ok hcomplete hstart hstate hfirst
      have hthere : mid.findRun rest.runId = some run' := hp.runId ▸ hfound'
      obtain ⟨m₁, hall, hagree'⟩ := (ih (finish_wellformed hwf hfirst) hlater hrest' rfl
        hthere (by simp [hactive])).2 res'' m₂' hsecond
      exact ⟨m₁, finishAll_cons.mpr ⟨res', mid, hfirst, hall⟩, hagree'.trans hagree⟩

lemma finishAll_finished {batches : List (FinishWorkstreamRun × ℤ)}
    (hfound : m.findRun whole.runId = some run) (hfin : run.state = .finished)
    (hruns : ∀ p ∈ batches, p.1.runId = whole.runId)
    (h : finishAll E m authority recoverExpired batches = .ok m₁) : m₁ = m := by
  induction batches with
  | nil => exact (foldlM_nil_ok.mp h).symm
  | cons p batches ih =>
    obtain ⟨res, mid, hok, hrest⟩ := finishAll_cons.mp h
    obtain ⟨-, r, hr, hcase⟩ := finishRunInner_ok.mp hok
    rw [hruns p mem_cons_self, hfound, some.injEq] at hr
    subst hr
    rcases hcase with ⟨-, -, -, rfl⟩ | ⟨hunfinished, -⟩
    · exact ih (fun q hq => hruns q (mem_cons_of_mem p hq)) hrest
    · exact absurd hfin hunfinished

/-! ### The law -/

/-- A call that was not carried out: it returned an error, or it answered that it did
nothing. -/
def turnedDown (E : Env) (m : Tables) : Call → Bool
  | .prepare input ownerUser forceUnlock newStream runId now =>
    (prepareRun E m input ownerUser forceUnlock newStream runId now).toOption.isNone
  | .heartbeat runId now => !(heartbeat m runId now).1
  | .cancel runId now => !(cancelRun m runId now).1
  | .link runId agent session now => !(linkNativeSession E m runId agent session now).1
  | .linkOrAdopt input boundary now =>
    (linkOrAdoptNativeSession E m input boundary now).1 ∈ [.noMatch, .ambiguous, .refused]
  | .linkInScope input now =>
    (linkNativeSessionInScope E m input now).1 ∈ [.noMatch, .ambiguous, .refused]
  | .accept runId requireUndelivered now => !(acceptContext m runId requireUndelivered now).1
  | .finish authority input recoverExpired now =>
    (finishRunInner E m authority input recoverExpired now).toOption.isNone
  | .rename input => (rename m input).toOption.isNone
  | .elsewhere _ _ _ => false

lemma committed_of_error {α : Type} {r : Except RunError (α × Tables)}
    (h : r.toOption.isNone) : committed m r = m := by
  cases r with
  | error e => rfl
  | ok out => simp [Except.toOption] at h

lemma update_unmatched {p : RunRow → Bool} {f : RunRow → RunRow} (h : (!m.runs.any p)) :
    { m with runs := update p f m.runs } = m := by
  have hnone : ∀ r ∈ m.runs, p r = false := by
    rw [Bool.not_eq_true', any_eq_false] at h
    exact fun r hr => Bool.eq_false_iff.mpr (h r hr)
  rw [update_eq_self hnone]

lemma turnedDown_linkOrAdopt {input : LinkOrAdoptManagedRunSession}
    {boundary : ClaudeSessionBoundary} (h : turnedDown E m (.linkOrAdopt input boundary now)) :
    step E m (.linkOrAdopt input boundary now) = m := by
  rw [turnedDown, decide_eq_true_eq] at h
  rw [step]
  unfold linkOrAdoptNativeSession at h ⊢
  by_cases hblank : (isBlank input.nativeSessionId || isBlank input.cwd
      || input.ownerUser.any fun owner => !E.validOwner owner) = true
  · rw [if_pos hblank]
  rw [if_neg hblank] at h ⊢
  cases hparse : NativeSessionIdentity.parse E.builtin input.nativeSessionId with
  | none => rfl
  | some identity =>
    simp only [hparse] at h
    by_cases hboundary : boundaryRefused m input boundary now
    · simp only [if_pos hboundary]
    simp only [if_neg hboundary] at h ⊢
    cases hselect : selectRun m input now with
    | error answer => rfl
    | ok selected =>
      obtain ⟨runId, adopted⟩ := selected
      simp only [hselect] at h
      cases hlink : linkNativeSessionInTransaction E m runId input.agent identity now boundary with
      | none => simp only [hlink]
      | some m' =>
        simp only [hlink] at h
        cases adopted <;> simp at h

lemma turnedDown_linkInScope {input : LinkManagedRunSessionInScope}
    (h : turnedDown E m (.linkInScope input now)) :
    step E m (.linkInScope input now) = m := by
  rw [turnedDown, decide_eq_true_eq] at h
  rw [step]
  unfold linkNativeSessionInScope at h ⊢
  by_cases howner : (input.ownerUser.any fun owner => !E.validOwner owner)
  · rw [if_pos howner]
  rw [if_neg howner] at h ⊢
  cases hparse : NativeSessionIdentity.parse E.builtin input.nativeSessionId with
  | none => rfl
  | some identity =>
    simp only [hparse] at h
    cases hread : (readBoundary m input.runId).filter fun b => b.1.state = .active with
    | none => rfl
    | some held =>
      obtain ⟨run, w⟩ := held
      simp only [hread] at h
      by_cases hcaller : (!admitsCaller run w input.workspaceId input.projectId none
          input.ownerUser) = true
      · simp only [if_pos hcaller]
      simp only [if_neg hcaller] at h ⊢
      cases hlink : linkNativeSessionInTransaction E m input.runId input.agent identity now
          .other with
      | none => simp only
      | some m' =>
        simp only [hlink] at h
        simp at h

lemma step_turnedDown {c : Call} (h : turnedDown E m c) : step E m c = m := by
  cases c with
  | prepare input ownerUser forceUnlock newStream runId now
  | finish authority input recoverExpired now | rename input => exact committed_of_error h
  | heartbeat runId now | cancel runId now => exact update_unmatched h
  | link runId agent session now =>
    rw [turnedDown] at h
    rw [step]
    unfold linkNativeSession at h ⊢
    cases hparse : NativeSessionIdentity.parse E.builtin session with
    | none => rfl
    | some identity =>
      simp only [hparse] at h
      cases hlink : linkNativeSessionInTransaction E m runId agent identity now .other with
      | none => simp only [hlink]
      | some m' =>
        simp only [hlink] at h
        cases h
  | linkOrAdopt input boundary now => exact turnedDown_linkOrAdopt h
  | linkInScope input now => exact turnedDown_linkInScope h
  | accept runId requireUndelivered now =>
    rw [turnedDown] at h
    rw [step]
    unfold acceptContext at h ⊢
    cases hfind : m.runs.find? fun r => r.id = runId && r.state = .active
        && (!requireUndelivered || !r.contextDelivered) with
    | none => rfl
    | some run =>
      simp only [hfind] at h
      cases h
  | elsewhere registry users sessions => cases h

/-- What every run keeps of the events, and what sending them again adds. -/
structure LedgerLaw (E : Env) (m : Tables) : Prop where
  /-- The events of a workstream are numbered 1, 2, …, n, in the order of the table. -/
  numbered : ∀ stream,
    (ledger m.events stream).map (·.sequence) = List.range' 1 (ledger m.events stream).length
  /-- No event id of a workstream comes twice. -/
  ids : KeyUnique EventRow.key m.events
  /-- Later calls only append. -/
  kept : ∀ calls, m.events <+: (exec (step E) m calls).events
  /-- A batch that was imported adds nothing when it, or a part of it, is sent again for
  the same workstream, at any later time and by any call. -/
  resent : ∀ authority input recoverExpired now res m' run,
    finishRunInner E m authority input recoverExpired now = .ok (res, m') →
    m.findRun input.runId = some run → run.state ≠ .finished →
    ∀ calls authority' again recoverExpired' now' run',
      (exec (step E) m' calls).findRun again.runId = some run' →
      run'.workstreamId = run.workstreamId →
      (∀ e ∈ again.events, ∃ e' ∈ input.events, e'.eventId = e.eventId) →
      (step E (exec (step E) m' calls) (.finish authority' again recoverExpired' now')).events =
        (exec (step E) m' calls).events
  /-- Any split of an upload into calls that do not complete the run, and one that does,
  leaves the ledger of the upload in one call; for a run that is not finished it succeeds
  exactly when that one does.  Only the columns that record the upload itself can differ,
  and they do not when time and segment are the same. -/
  split : ∀ authority recoverExpired parts last whole now,
    (∀ p ∈ parts, p.1.complete = false) → last.1.complete = true → whole.complete = true →
    (∀ p ∈ parts ++ [last], p.1.runId = whole.runId ∧
      p.1.nativeSessionId = whole.nativeSessionId ∧ p.1.sanitizer = whole.sanitizer) →
    whole.events = (parts ++ [last]).flatMap (fun p => p.1.events) →
    (∀ run, m.findRun whole.runId = some run → run.state ≠ .finished →
      ((∃ m₁, finishAll E m authority recoverExpired (parts ++ [last]) = .ok m₁) ↔
        ∃ out, finishRunInner E m authority whole recoverExpired now = .ok out)) ∧
    ∀ m₁ res m₂, finishAll E m authority recoverExpired (parts ++ [last]) = .ok m₁ →
      finishRunInner E m authority whole recoverExpired now = .ok (res, m₂) →
      m₁.events.map EventRow.entry = m₂.events.map EventRow.entry ∧
      ((∀ p ∈ parts ++ [last], p.2 = now ∧ p.1.segmentPath = whole.segmentPath) →
        m₁.events = m₂.events)
  /-- A call that returns an error, or answers that it did nothing, changed nothing. -/
  rolledBack : ∀ c, turnedDown E m c = true → step E m c = m

lemma split_agrees (hπ : Faithful π) (hwf : Wellformed m.events)
    (hparts : ∀ p ∈ parts, p.1.complete = false)
    (hwhole : ∀ p ∈ parts ++ [last], PartOf E π p.1 p.2 whole now)
    (hevents : whole.events = (parts ++ [last]).flatMap (·.1.events)) {m₁ m₂ : Tables}
    (hall : finishAll E m authority recoverExpired (parts ++ [last]) = .ok m₁)
    (hok : finishRunInner E m authority whole recoverExpired now = .ok (res, m₂)) :
    m₁.events.map π = m₂.events.map π := by
  obtain ⟨-, run, hfound, hcase⟩ := finishRunInner_ok.mp hok
  rcases hcase with ⟨hfin, -, -, rfl⟩ | ⟨hstate, -⟩
  · rw [finishAll_finished hfound hfin (fun p hp => (hwhole p hp).runId) hall]
  · obtain ⟨res', m₂', hok', hagree⟩ :=
      (batches_agree hπ hwf hparts hwhole hevents hfound hstate).1 m₁ hall
    rw [hok, Except.ok.injEq, Prod.mk.injEq] at hok'
    rw [hagree, hok'.2]

lemma ledger_law (hwf : Wellformed m.events) : LedgerLaw E m where
  numbered := hwf.numbered
  ids := hwf.ids
  kept := exec_appends m
  resent := by
    intro authority input recoverExpired now res m' run hok hfound hstate calls authority' again
      recoverExpired' now' run' hfound' hstream hagain
    obtain ⟨-, r, hr, hcase⟩ := finishRunInner_ok.mp hok
    rw [hfound, some.injEq] at hr
    subst hr
    rcases hcase with ⟨hfin, -⟩ | ⟨-, reopened, -, himport⟩
    · exact absurd hfin hstate
    obtain ⟨-, done, hloop, -, rfl⟩ := importBatch_ok.mp himport
    refine finish_present hfound' fun e he => ?_
    obtain ⟨e', he', hid⟩ := hagain e he
    have hthere := importEvents_has hloop e' he'
    rw [hstream, ← hid]
    exact findEvent_of_appended (exec_appends (importedTables reopened run input now done) calls) hthere
  split := by
    intro authority recoverExpired parts last whole now hparts _ _ hsame hevents
    have hentry : ∀ p ∈ parts ++ [last], PartOf E EventRow.entry p.1 p.2 whole now := fun p hp =>
      partOf_entry (hsame p hp).1 (hsame p hp).2.1 (hsame p hp).2.2
    constructor
    · intro run hfound hstate
      obtain ⟨hforth, hback⟩ := batches_agree faithful_entry hwf hparts hentry hevents hfound hstate
      constructor
      · rintro ⟨m₁, hall⟩
        obtain ⟨res, m₂, hok, -⟩ := hforth m₁ hall
        exact ⟨_, hok⟩
      · rintro ⟨⟨res, m₂⟩, hok⟩
        obtain ⟨m₁, hall, -⟩ := hback res m₂ hok
        exact ⟨m₁, hall⟩
    · intro m₁ res m₂ hall hok
      refine ⟨split_agrees faithful_entry hwf hparts hentry hevents hall hok, fun hsegments => ?_⟩
      have hrows : ∀ p ∈ parts ++ [last], PartOf E id p.1 p.2 whole now := by
        intro p hp
        rw [(hsegments p hp).1]
        exact partOf_id (hsame p hp).1 (hsame p hp).2.1 (hsame p hp).2.2 (hsegments p hp).2
      have hagree := split_agrees faithful_id hwf hparts hrows hevents hall hok
      rwa [map_id, map_id] at hagree
  rolledBack := fun _ h => step_turnedDown h

/-- In every state that any calls lead to, the ledger law holds. -/
theorem ledger_integrity (E : Env) (calls : List Call) :
    LedgerLaw E (exec (step E) Tables.empty calls) :=
  ledger_law (exec_wellformed wellformed_nil calls)

end Workstreams
