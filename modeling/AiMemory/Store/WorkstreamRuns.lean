/-
One run at a time.

The index on active runs keeps a workstream to one of them, and a finished run is never
written again.  Whether an expired run was superseded is asked of the clock: the run
that started last counts as the newest, and row order only breaks a tie.
-/
import AiMemory.Store.WorkstreamSteps

open Table Runs List

namespace Workstreams

open Store Projects

variable {E : Env} {m m' : Tables} {now : ℤ} {r r' : RunRow}

/-! ### One active run -/

theorem activeStreams_sublist {runs : List RunRow} {f : RunRow → RunRow}
    (h : ∀ r ∈ runs, (f r).workstreamId = r.workstreamId ∧
      ((f r).state = .active → r.state = .active)) :
    (activeStreams (runs.map f)).Sublist (activeStreams runs) := by
  unfold activeStreams
  induction runs with
  | nil => exact List.Sublist.refl _
  | cons r runs ih =>
    obtain ⟨hstream, hstate⟩ := h r mem_cons_self
    have hrest := ih fun q hq => h q (mem_cons_of_mem r hq)
    rw [map_cons, filter_cons, filter_cons]
    by_cases hnew : (f r).state = .active
    · simp only [hnew, hstate hnew, decide_true, if_true, map_cons, hstream]
      exact hrest.cons_cons _
    · simp only [hnew, decide_false, Bool.false_eq_true, if_false]
      by_cases hold : r.state = .active
      · simp only [hold, decide_true, if_true, map_cons]
        exact hrest.cons _
      · simp only [hold, decide_false, Bool.false_eq_true, if_false]
        exact hrest

lemma activeStreams_update {runs : List RunRow} {p : RunRow → Bool} {f : RunRow → RunRow}
    (hstream : ∀ r, (f r).workstreamId = r.workstreamId)
    (hstate : ∀ r ∈ runs, p r = true → (f r).state = .active → r.state = .active) :
    (activeStreams (update p f runs)).Sublist (activeStreams runs) := by
  refine activeStreams_sublist fun r hr => ?_
  by_cases hp : p r
  · rw [if_pos hp]
    exact ⟨hstream r, hstate r hr hp⟩
  · rw [if_neg hp]
    exact ⟨rfl, id⟩

lemma closeRun_state {input : FinishWorkstreamRun} {native : Option String} :
    (closeRun input native now r).state = .active → r.state = .active := by
  unfold closeRun
  cases input.complete with
  | true => simp
  | false => exact id

def OneActive (m : Tables) : Prop := (activeStreams m.runs).Nodup

lemma step_oneActive (h : OneActive m) (c : Call) : OneActive (step E m c) := by
  unfold OneActive at h ⊢
  cases step_change (E := E) m c with
  | quiet runs natives events => exact runs ▸ h
  | opened input ownerUser forceUnlock newStream runId now stream unlocked select unlock ids one
      runs natives events => exact one
  | renewed runId now eq =>
    rw [eq]
    exact h.sublist (activeStreams_update (fun _ => rfl) fun _ _ _ hactive => hactive)
  | released runId now eq =>
    rw [eq]
    exact h.sublist (activeStreams_update (fun _ => rfl) fun _ _ _ hactive => nomatch hactive)
  | linked run session boundary now mem active admits runs natives events
  | accepted run requireUndelivered now mem active runs natives events answer =>
    rw [runs]
    exact h.sublist (activeStreams_update (fun _ => rfl) fun _ _ _ hactive => hactive)
  | imported authority input recoverExpired now run reopened done found unfinished reopen loop eq =>
    rw [eq]
    have hreopened : (activeStreams reopened.runs).Nodup := by
      rcases reopen_ok.mp reopen with ⟨-, rfl⟩ | ⟨-, -, -, -, hone, rfl⟩
      · exact h
      · exact hone
    refine hreopened.sublist (activeStreams_update (fun r => ?_) fun _ _ _ => closeRun_state)
    exact congrArg (·.2.1) (closeRun_origin input _ now r)

lemma exec_oneActive (h : OneActive m) (calls : List Call) :
    OneActive (exec (step E) m calls) :=
  exec_invariant (I := OneActive) (fun _ c h => step_oneActive h c) h calls

lemma OneActive.countP_le (h : OneActive m) (stream : WorkstreamId) :
    m.runs.countP (fun r => r.workstreamId = stream && r.state = .active) ≤ 1 := by
  have hcount : m.runs.countP (fun r => r.workstreamId = stream && r.state = .active) =
      (activeStreams m.runs).count stream := by
    rw [activeStreams, List.count, countP_map, countP_filter]
    refine countP_congr fun r _ => ?_
    simp [Function.comp_apply]
  rw [hcount]
  exact nodup_iff_count_le_one.mp h stream

lemma expired_update {p : RunRow → Bool} {f : RunRow → RunRow}
    (hid : KeyUnique RunRow.id m.runs) (hr : r ∈ m.runs) (hr' : r' ∈ update p f m.runs)
    (hsame : r'.id = r.id) (hf : ∀ r, (f r).id = r.id) (hexpired : r.state = .expired)
    (hstate : p r → (f r).state ≠ .active) : r'.state ≠ .active := by
  rw [hid.update_eq hr hr' hsame hf]
  by_cases hp : p r
  · rw [if_pos hp]
    exact hstate hp
  · rw [if_neg hp]
    simp [hexpired]

lemma id_ne_of_state {run : RunRow} (hid : KeyUnique RunRow.id m.runs) (hr : r ∈ m.runs)
    (hrun : run ∈ m.runs) (hexpired : r.state = .expired) (hactive : run.state = .active) :
    decide (r.id = run.id) ≠ true := by
  intro heq
  rw [decide_eq_true_eq] at heq
  rw [hid.eq hr hrun heq, hactive] at hexpired
  cases hexpired

lemma unlockBusy_expired {unlocked : List RunRow} {stream : WorkstreamId}
    {ownerUser : Option String} {forceUnlock : Bool}
    (h : unlockBusy (expireStale m.runs now) stream ownerUser forceUnlock now = .ok unlocked)
    (hid : KeyUnique RunRow.id m.runs) (hr : r ∈ m.runs) (hexpired : r.state = .expired)
    (hr' : r' ∈ unlocked) (hsame : r'.id = r.id) : r'.state ≠ .active := by
  have hstale : ∀ q ∈ expireStale m.runs now, q.id = r.id → q = r := by
    intro q hq hqid
    rw [hid.update_eq hr hq hqid fun _ => rfl, if_neg (by simp [hexpired])]
  have hkept : r ∈ expireStale m.runs now := mem_update_of_not hr (by simp [hexpired])
  rcases unlockBusy_ok h with rfl | ⟨runId, rfl⟩
  · rw [hstale r' hr' hsame, hexpired]
    simp
  · obtain ⟨q, hq, rfl⟩ := mem_update.mp hr'
    by_cases hp : (q.id = runId && q.state = .active)
    · rw [if_pos hp]
      simp
    · rw [if_neg hp] at hsame ⊢
      rw [hstale q hq hsame, hexpired]
      simp

lemma step_revives (hid : KeyUnique RunRow.id m.runs) {c : Call} (hr : r ∈ m.runs)
    (hexpired : r.state = .expired) (hr' : r' ∈ (step E m c).runs) (hsame : r'.id = r.id)
    (hactive : r'.state = .active) :
    (∃ authority input now, c = .finish authority input true now ∧ input.runId = r.id) ∧
      isSuperseded m.runs r = false := by
  cases step_change (E := E) m c with
  | quiet runs natives events =>
    rw [runs] at hr'
    rw [hid.eq hr' hr hsame, hexpired] at hactive
    cases hactive
  | opened input ownerUser forceUnlock newStream runId now stream unlocked select unlock ids one
      runs natives events =>
    exfalso
    rw [runs] at hr' ids
    rcases mem_append.mp hr' with hold | hnew
    · exact unlockBusy_expired unlock hid hr hexpired hold hsame hactive
    · -- the new run has an id of its own
      obtain ⟨f, hf⟩ := unlockBusy_rows unlock
      have hstill : f r ∈ unlocked := hf.eq ▸ mem_map_of_mem hr
      rw [mem_singleton] at hnew
      refine (keyUnique_append_singleton.mp ids).2 (f r) hstill ?_
      rw [(hf.step r hr).id, ← hsame, hnew]
  | renewed runId now eq =>
    rw [eq] at hr'
    refine absurd hactive (expired_update hid hr hr' hsame (fun _ => rfl) hexpired fun hp => ?_)
    simp [hexpired] at hp
  | released runId now eq =>
    rw [eq] at hr'
    refine absurd hactive (expired_update hid hr hr' hsame (fun _ => rfl) hexpired fun hp => ?_)
    simp
  | linked run session boundary now mem active admits runs natives events
  | accepted run requireUndelivered now mem active runs natives events answer =>
    rw [runs] at hr'
    refine absurd hactive (expired_update hid hr hr' hsame (fun _ => rfl) hexpired fun hp => ?_)
    exact absurd hp (id_ne_of_state hid hr mem hexpired active)
  | imported authority input recoverExpired now run reopened done found unfinished reopen loop eq =>
    have hfound := mem_of_findRun found
    have hclosed : ∀ r, (closeRun input (input.session run) now r).id = r.id := fun r =>
      congrArg (·.1) (closeRun_origin input _ now r)
    rw [eq] at hr'
    obtain ⟨q, hq, hqr⟩ := mem_update.mp hr'
    have hqid : q.id = r.id := by
      rw [← hsame, ← hqr]
      split
      · exact (hclosed q).symm
      · rfl
    have hqactive : q.state = .active := by
      rw [← hqr] at hactive
      split at hactive
      · exact closeRun_state hactive
      · exact hactive
    rcases reopen_ok.mp reopen with ⟨-, rfl⟩ | ⟨-, rfl, hnewest, -, -, rfl⟩
    · rw [hid.eq hq hr hqid, hexpired] at hqactive
      cases hqactive
    · by_cases hrun : r.id = run.id
      · obtain rfl := hid.eq hr hfound.1 hrun
        exact ⟨⟨authority, input, now, rfl, hfound.2.symm⟩, hnewest⟩
      · refine absurd hqactive (expired_update hid hr hq hqid (fun _ => rfl) hexpired fun hp => ?_)
        rw [Bool.and_eq_true, decide_eq_true_eq] at hp
        exact absurd hp.1 hrun

/-- A prepare call reads a clock that is not behind the start of any run of the
workstream it selects. -/
def Timely (m : Tables) : Call → Prop
  | .prepare input _ _ newStream _ now =>
    ∀ w streams, selectWorkstream m input newStream now = .ok (w, streams) →
      ∀ r ∈ m.runs, r.workstreamId = w.id → r.startedAt ≤ now
  | _ => True

def Ordered (m : Tables) : Prop :=
  m.runs.Pairwise fun a b => a.workstreamId = b.workstreamId → a.startedAt ≤ b.startedAt

lemma ordered_rows {runs runs' : List RunRow} {f : RunRow → RunRow} (h : RowByRow runs runs' f)
    (hpair : runs.Pairwise fun a b => a.workstreamId = b.workstreamId → a.startedAt ≤ b.startedAt) :
    runs'.Pairwise fun a b => a.workstreamId = b.workstreamId → a.startedAt ≤ b.startedAt := by
  rw [h.eq, pairwise_map]
  refine hpair.imp_of_mem fun {a b} ha hb hab => ?_
  rw [(h.step a ha).stream, (h.step b hb).stream, (h.step a ha).startedAt, (h.step b hb).startedAt]
  exact hab

lemma step_ordered (hid : KeyUnique RunRow.id m.runs) (h : Ordered m) {c : Call}
    (htimely : Timely m c) : Ordered (step E m c) := by
  obtain ⟨f, rows, hrows, hkept | ⟨run, hopens, happend, -⟩⟩ := step_runs (E := E) hid c
  · rw [Ordered, hkept]
    exact ordered_rows hrows h
  · obtain ⟨input, ownerUser, forceUnlock, newStream, runId, now, w, streams, rfl, hselect, rfl⟩ :=
      hopens
    rw [Ordered, happend, pairwise_append]
    refine ⟨ordered_rows hrows h, pairwise_singleton _ _, ?_⟩
    intro a ha b hb hstream
    rw [mem_singleton] at hb
    subst hb
    rw [hrows.eq] at ha
    obtain ⟨q, hq, rfl⟩ := mem_map.mp ha
    rw [(hrows.step q hq).stream] at hstream
    rw [(hrows.step q hq).startedAt]
    exact htimely w streams hselect q hq hstream

lemma exec_ordered (hid : KeyUnique RunRow.id m.runs) (h : Ordered m) {calls : List Call}
    (htimely : Guarded (step E) Timely m calls) : Ordered (exec (step E) m calls) :=
  (exec_guarded_invariant (I := fun m : Tables => KeyUnique RunRow.id m.runs ∧ Ordered m)
    (fun _ c h htimely => ⟨step_ids h.1 c, step_ordered h.1 h.2 htimely⟩) ⟨hid, h⟩ htimely).2

lemma newest_of_not_superseded (hid : KeyUnique RunRow.id m.runs)
    {before after : List RunRow} (hsplit : m.runs = before ++ r :: after)
    (h : isSuperseded m.runs r = false) :
    (∀ q ∈ before, q.workstreamId = r.workstreamId → q.startedAt ≤ r.startedAt) ∧
      ∀ q ∈ after, q.workstreamId = r.workstreamId → q.startedAt < r.startedAt := by
  have hfirst : ∀ x ∈ before, decide (x.id ≠ r.id) = true := by
    intro x hx
    rw [KeyUnique, hsplit, map_append, nodup_append] at hid
    exact decide_eq_true (hid.2.2 _ (mem_map_of_mem hx) _ (by simp))
  have htake : m.runs.takeWhile (fun x => x.id ≠ r.id) = before := by
    rw [hsplit, takeWhile_append_of_pos hfirst, takeWhile_cons_of_neg (by simp), append_nil]
  have hdrop : m.runs.dropWhile (fun x => x.id ≠ r.id) = r :: after := by
    rw [hsplit, dropWhile_append_of_pos hfirst, dropWhile_cons_of_neg (by simp)]
  rw [isSuperseded, htake, hdrop, tail_cons, Bool.or_eq_false_iff, any_eq_false, any_eq_false] at h
  constructor
  · intro q hq hstream
    by_contra hlater
    exact h.1 q hq (by simp [hstream, not_le.mp hlater])
  · intro q hq hstream
    by_contra hlater
    exact h.2 q hq (by simp [hstream, not_lt.mp hlater])

/-- The run `q` was prepared after `r`: `r` was there in an earlier state, and `q` came
later. -/
def PreparedAfter (E : Env) (calls : List Call) (r q : RunId) : Prop :=
  ∃ earlier later, calls = earlier ++ later ∧
    r ∈ (exec (step E) .empty earlier).runs.map (·.id) ∧
    q ∉ (exec (step E) .empty earlier).runs.map (·.id) ∧
    q ∈ (exec (step E) .empty calls).runs.map (·.id)

lemma step_ids_append (hid : KeyUnique RunRow.id m.runs) (c : Call) :
    m.runs.map (·.id) <+: (step E m c).runs.map (·.id) := by
  obtain ⟨f, rows, hrows, hcase⟩ := step_runs (E := E) hid c
  have hmap : rows.map (·.id) = m.runs.map (·.id) := by
    rw [hrows.eq, map_map]
    exact map_congr_left fun r hr => (hrows.step r hr).id
  rcases hcase with h | ⟨run, -, h, -⟩
  · rw [h, hmap]
  · rw [h, map_append, hmap]
    exact prefix_append _ _

lemma exec_ids_append (hid : KeyUnique RunRow.id m.runs) (calls : List Call) :
    m.runs.map (·.id) <+: (exec (step E) m calls).runs.map (·.id) :=
  (exec_invariant (I := fun t : Tables => KeyUnique RunRow.id t.runs ∧
      m.runs.map RunRow.id <+: t.runs.map RunRow.id)
    (fun _ c h => ⟨step_ids h.1 c, h.2.trans (step_ids_append h.1 c)⟩)
    ⟨hid, prefix_rfl⟩ calls).2

lemma empty_ids : KeyUnique RunRow.id Tables.empty.runs := nodup_nil

lemma PreparedAfter.follows {calls : List Call} {q : RunRow}
    (h : PreparedAfter E calls r.id q.id) (hr : r ∈ (exec (step E) .empty calls).runs)
    (hq : q ∈ (exec (step E) .empty calls).runs) :
    ∃ before after, (exec (step E) .empty calls).runs = before ++ r :: after ∧ q ∈ after := by
  obtain ⟨earlier, later, hcalls, hthere, hnot, -⟩ := h
  have hids : KeyUnique RunRow.id (exec (step E) .empty calls).runs := exec_ids empty_ids calls
  have hgrow : (exec (step E) .empty earlier).runs.map (·.id) <+:
      (exec (step E) .empty calls).runs.map (·.id) := by
    rw [hcalls, exec_append]
    exact exec_ids_append (exec_ids empty_ids earlier) later
  obtain ⟨before, after, hsplit⟩ := append_of_mem hr
  refine ⟨before, after, hsplit, ?_⟩
  rw [hsplit] at hq
  rcases mem_append.mp hq with hq | hq
  · -- an id before `r` would be among those of the earlier state
    exfalso
    refine hnot ?_
    obtain ⟨rest, hrest⟩ := hgrow
    rw [hsplit, map_append, map_cons] at hrest
    rw [hsplit, KeyUnique, map_append, map_cons] at hids
    rcases append_eq_append_iff.mp hrest with ⟨mid, hmid, hmid'⟩ | ⟨mid, hmid, hmid'⟩
    · -- the earlier ids end before `r`, though `r` is one of them
      exfalso
      have hthere' : r.id ∈ before.map (·.id) := hmid ▸ mem_append_left _ hthere
      exact (nodup_append.mp hids).2.2 _ hthere' _ mem_cons_self rfl
    · rw [hmid]
      exact mem_append_left _ (mem_map_of_mem hq)
  · rcases mem_cons.mp hq with rfl | hq
    · exact absurd hthere hnot
    · exact hq

/-- At most one active run of a workstream, and a finished run stays finished.  A recovery
makes an expired run active only when no run of its workstream comes later by the start
and then by the order of preparation; as long as the prepare calls are timely, no run at
all was then prepared after it. -/
theorem single_run_law (E : Env) (calls : List Call) :
    (∀ stream, (exec (step E) .empty calls).runs.countP
      (fun r => r.workstreamId = stream && r.state = .active) ≤ 1) ∧
    (∀ r ∈ (exec (step E) .empty calls).runs, r.state = .finished →
      ∀ later, ∀ r' ∈ (exec (step E) .empty (calls ++ later)).runs, r'.id = r.id →
        r'.state = .finished) ∧
    (∀ c, ∀ r ∈ (exec (step E) .empty calls).runs, r.state = .expired →
      ∀ r' ∈ (exec (step E) .empty (calls ++ [c])).runs, r'.id = r.id → r'.state = .active →
      ∀ q ∈ (exec (step E) .empty calls).runs, q.workstreamId = r.workstreamId →
        q.startedAt ≤ r.startedAt ∧
        (PreparedAfter E calls r.id q.id → q.startedAt < r.startedAt) ∧
        (Guarded (step E) Timely .empty calls → ¬ PreparedAfter E calls r.id q.id)) := by
  have hids : KeyUnique RunRow.id (exec (step E) .empty calls).runs := exec_ids empty_ids calls
  refine ⟨fun stream => ?_, ?_, ?_⟩
  · have hempty : OneActive .empty := nodup_nil
    exact (exec_oneActive hempty calls).countP_le stream
  · intro r hr hfin later r' hr' hsame
    rw [exec_append] at hr'
    have hstill := exec_finished (E := E) hids hr hfin later
    rw [(exec_ids hids later).eq hr' hstill hsame]
    exact hfin
  · intro c r hr hexpired r' hr' hsame hactive q hq hstream
    rw [exec_append, exec_cons, exec_nil] at hr'
    obtain ⟨-, hnewest⟩ := step_revives hids hr hexpired hr' hsame hactive
    have hearlier : PreparedAfter E calls r.id q.id → q.startedAt < r.startedAt := by
      intro hafter
      obtain ⟨before, after, hsplit, hqafter⟩ := hafter.follows hr hq
      exact (newest_of_not_superseded hids hsplit hnewest).2 q hqafter hstream
    refine ⟨?_, hearlier, fun htimely hafter => ?_⟩
    · obtain ⟨before, after, hsplit⟩ := append_of_mem hr
      obtain ⟨hbefore, hafter⟩ := newest_of_not_superseded hids hsplit hnewest
      rw [hsplit] at hq
      rcases mem_append.mp hq with hq | hq
      · exact hbefore q hq hstream
      · rcases mem_cons.mp hq with rfl | hq
        · exact le_rfl
        · exact (hafter q hq hstream).le
    · -- timely clocks put the starts in the order of preparation
      have hordered := exec_ordered (E := E) empty_ids List.Pairwise.nil htimely
      obtain ⟨before, after, hsplit, hqafter⟩ := hafter.follows hr hq
      rw [Ordered, hsplit, pairwise_append, pairwise_cons] at hordered
      have hlater := hordered.2.1.1 q hqafter hstream.symm
      exact absurd (hearlier hafter) (not_lt.mpr hlater)

/-! ### Two runs of one checkout -/

def plainText : Env := ⟨id, fun _ => true, fun _ => 0, fun _ => "null"⟩

def oneProject : Registry :=
  ⟨[⟨1, "default"⟩], [⟨1, 1, "notes", .open, none, "notes", none, "notes", "notes"⟩], []⟩

def launch (agent : AgentKind) : PrepareWorkstreamRun :=
  ⟨1, 1, false, "repo", "tree", "/repo", agent, false, [], .current, "host"⟩

def root : ManagedRunAuthority := ⟨⟨true, false, none⟩, .unattributed, false, .grants⟩

def emptyBatch (runId : RunId) : FinishWorkstreamRun := ⟨id, runId, none, none, [], false, none, none⟩

def twoRuns (start start' : ℤ) : List Call :=
  [.elsewhere oneProject [] [], .prepare (launch .codex) none false 1 1 start, .cancel 1 (start + 1),
    .prepare (launch .codex) none false 2 2 start', .cancel 2 (start' + 1)]

lemma timely_of_all {input : PrepareWorkstreamRun} {ownerUser : Option String}
    {forceUnlock : Bool} {newStream : WorkstreamId} {runId : RunId}
    (h : ∀ r ∈ m.runs, r.startedAt ≤ now) :
    Timely m (.prepare input ownerUser forceUnlock newStream runId now) :=
  fun _ _ _ r hr _ => h r hr

/-- With clocks in order, only the run prepared last comes back. -/
theorem single_run_law_two_runs : Guarded (step plainText) Timely .empty (twoRuns 50 100) ∧
    ∀ r ∈ (exec (step plainText) .empty (twoRuns 50 100)).runs, r.state = .expired →
      ∀ r' ∈ (exec (step plainText) .empty
        (twoRuns 50 100 ++ [.finish root (emptyBatch 2) true 120])).runs,
      r'.id = r.id → r'.state = .active →
      ∀ q ∈ (exec (step plainText) .empty (twoRuns 50 100)).runs,
        q.workstreamId = r.workstreamId → ¬ PreparedAfter plainText (twoRuns 50 100) r.id q.id := by
  have htimely : Guarded (step plainText) Timely .empty (twoRuns 50 100) :=
    ⟨trivial, timely_of_all (by decide +kernel), trivial, timely_of_all (by decide +kernel),
      trivial, trivial⟩
  refine ⟨htimely, fun r hr hexpired r' hr' hsame hactive q hq hstream => ?_⟩
  exact ((single_run_law plainText (twoRuns 50 100)).2.2 _ r hr hexpired r' hr' hsame hactive q hq
    hstream).2.2 htimely

/-- Run 2 is prepared after run 1, at an earlier clock reading: run 1 comes back. -/
theorem recovers_superseded_run :
    ∃ r ∈ (exec (step plainText) .empty (twoRuns 100 50)).runs, r.state = .expired ∧
    ∃ r' ∈ (exec (step plainText) .empty
      (twoRuns 100 50 ++ [.finish root (emptyBatch 1) true 120])).runs,
      r'.id = r.id ∧ r'.state = .active ∧
    ∃ q ∈ (exec (step plainText) .empty (twoRuns 100 50)).runs, q.workstreamId = r.workstreamId ∧
      PreparedAfter plainText (twoRuns 100 50) r.id q.id := by
  have hstates : ∃ r ∈ (exec (step plainText) .empty (twoRuns 100 50)).runs,
      (r.id = 1 ∧ r.state = .expired) ∧
      (∃ r' ∈ (exec (step plainText) .empty
        (twoRuns 100 50 ++ [.finish root (emptyBatch 1) true 120])).runs,
        r'.id = r.id ∧ r'.state = .active) ∧
      ∃ q ∈ (exec (step plainText) .empty (twoRuns 100 50)).runs,
        q.workstreamId = r.workstreamId ∧ q.id = 2 := by decide +kernel
  have hafter : PreparedAfter plainText (twoRuns 100 50) 1 2 :=
    ⟨(twoRuns 100 50).take 2, (twoRuns 100 50).drop 2, (take_append_drop 2 _).symm,
      by decide +kernel, by decide +kernel, by decide +kernel⟩
  obtain ⟨r, hr, ⟨hid, hexpired⟩, ⟨r', hr', hsame, hactive⟩, q, hq, hstream, hqid⟩ := hstates
  exact ⟨r, hr, hexpired, r', hr', hsame, hactive, q, hq, hstream, hid ▸ hqid ▸ hafter⟩

end Workstreams
