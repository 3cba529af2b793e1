/-
The ledger of a workstream.

Whatever is called, the events of a workstream are numbered 1, 2, …, n in the order
they were imported, no event id comes twice, and what was imported stays.  A batch
that is already there adds nothing, and a transcript may be sent in one batch or in
several.

* `ledger_integrity` — all of it, in every reachable state.
-/
import AiMemory.Store.WorkstreamSteps

open Table Runs List

namespace Workstreams

open Store Projects

variable {E : Env} {m m' : Tables} {now : ℤ} {input : FinishWorkstreamRun} {run : RunRow}
  {native : Option String} {acc done : Import} {event : NewWorkstreamEvent}

def SameIdentity (old : EventRow) (event : NewWorkstreamEvent) : Prop :=
  old.agent = event.agent ∧ old.nativeSessionId = event.nativeSessionId ∧ old.kind = event.kind

def Import.push (acc : Import) (row : EventRow) : Import :=
  ⟨acc.latest + 1, acc.imported + 1, acc.events ++ [row]⟩

def nextRow (E : Env) (input : FinishWorkstreamRun) (run : RunRow) (now : ℤ) (acc : Import)
    (event : NewWorkstreamEvent) : EventRow :=
  newEventRow E input run.workstreamId (acc.latest + 1) now event event.nativeSessionId

lemma importEvent_ok :
    importEvent E input run native now acc event event.nativeSessionId = .ok done ↔
      event.agent = run.agent ∧ (∀ session ∈ native, event.nativeSessionId = session) ∧
        ((∃ old, findEvent acc.events run.workstreamId event.eventId = some old ∧
            SameIdentity old event ∧ done = acc) ∨
          (findEvent acc.events run.workstreamId event.eventId = none ∧
            done = acc.push (nextRow E input run now acc event))) := by
  unfold importEvent
  by_cases hagent : event.agent = run.agent
  · rw [if_neg (not_not.mpr hagent)]
    cases hfilter : native.filter (event.nativeSessionId ≠ ·) with
    | some expected =>
      obtain ⟨hmem, hne⟩ := Option.filter_eq_some_iff.mp hfilter
      simp only [reduceCtorEq, false_iff]
      rintro ⟨-, hsession, -⟩
      exact absurd (hsession expected hmem) (by simpa using hne)
    | none =>
      have hsession : ∀ session ∈ native, event.nativeSessionId = session := by
        intro session hmem
        simpa using Option.filter_eq_none_iff.mp hfilter session hmem
      simp only [hagent, true_and]
      refine Iff.trans ?_ (and_iff_right hsession).symm
      cases hold : findEvent acc.events run.workstreamId event.eventId with
      | none =>
        simp only [reduceCtorEq, false_and, exists_false, false_or, true_and, Except.ok.injEq]
        exact eq_comm
      | some old =>
        simp only [Option.some.injEq, reduceCtorEq, false_and, or_false, exists_eq_left']
        by_cases hsame : SameIdentity old event
        · rw [if_neg (by simp [hsame.1, hsame.2.1, hsame.2.2, hagent]), Except.ok.injEq]
          exact ⟨fun h => ⟨hsame, h.symm⟩, fun h => h.2.symm⟩
        · rw [if_pos]
          · simp [hsame]
          · rw [SameIdentity, not_and_or, not_and_or] at hsame
            simpa [or_assoc, hagent] using hsame
  · rw [if_pos hagent]
    simp [hagent]

variable {events : List EventRow}

lemma findEvent_eq_none {stream : WorkstreamId} {id : String} :
    findEvent events stream id = none ↔ ∀ e ∈ events, e.key ≠ (stream, id) :=
  find?_key_eq_none

/-! ### Numbers and ids -/

def ledger (events : List EventRow) (stream : WorkstreamId) : List EventRow :=
  events.filter fun e => e.workstreamId = stream

lemma ledger_append_singleton (events : List EventRow) (e : EventRow) (stream : WorkstreamId) :
    ledger (events ++ [e]) stream =
      ledger events stream ++ if e.workstreamId = stream then [e] else [] := by
  rw [ledger, ledger, filter_append, filter_singleton]
  by_cases h : e.workstreamId = stream <;> simp [h]

structure Wellformed (events : List EventRow) : Prop where
  numbered : ∀ stream,
    (ledger events stream).map (·.sequence) = List.range' 1 (ledger events stream).length
  ids : KeyUnique EventRow.key events

lemma wellformed_nil : Wellformed [] := ⟨fun _ => rfl, nodup_nil⟩

lemma foldr_max_range' (n : ℕ) : (List.range' 1 n).foldr max 0 = n := by
  induction n with
  | zero => rfl
  | succ n ih =>
    have hfold : ∀ (l : List ℕ) (a : ℕ), (l ++ [a]).foldr max 0 = max (l.foldr max 0) a := by
      intro l a
      induction l with
      | nil => simp
      | cons b l ihl => rw [cons_append, foldr_cons, ihl, foldr_cons, max_assoc]
    rw [range'_concat, hfold, ih]
    omega

lemma Wellformed.latest (h : Wellformed events) (stream : WorkstreamId) :
    latestSequence events stream = (ledger events stream).length := by
  have hnumbers := h.numbered stream
  rw [latestSequence, ← ledger, hnumbers, foldr_max_range']

lemma Wellformed.sequence_le (h : Wellformed events) {e : EventRow} (he : e ∈ events) :
    1 ≤ e.sequence ∧ e.sequence ≤ latestSequence events e.workstreamId := by
  have hmem : e.sequence ∈ (ledger events e.workstreamId).map (·.sequence) :=
    mem_map_of_mem (mem_filter.mpr ⟨he, decide_eq_true rfl⟩)
  rw [h.numbered, mem_range'_1] at hmem
  rw [h.latest]
  omega

lemma Wellformed.append (h : Wellformed events) {e : EventRow}
    (hnumber : e.sequence = (ledger events e.workstreamId).length + 1)
    (hid : ∀ e' ∈ events, e'.key ≠ e.key) : Wellformed (events ++ [e]) := by
  refine ⟨fun stream => ?_, keyUnique_append_singleton.mpr ⟨h.ids, hid⟩⟩
  rw [ledger_append_singleton]
  by_cases hstream : e.workstreamId = stream
  · subst hstream
    rw [if_pos rfl, map_append, h.numbered, length_append, length_singleton,
      range'_concat, map_singleton, hnumber]
    congr 1
    simp [Nat.add_comm]
  · rw [if_neg hstream, append_nil]
    exact h.numbered stream

structure Import.Counted (acc : Import) (stream : WorkstreamId) : Prop where
  wellformed : Wellformed acc.events
  latest : acc.latest = (ledger acc.events stream).length

lemma importFrom_counted (h : Wellformed m.events) (stream : WorkstreamId) :
    (m.importFrom stream).Counted stream := ⟨h, h.latest stream⟩

lemma importEvent_counted (h : acc.Counted run.workstreamId)
    (hok : importEvent E input run native now acc event event.nativeSessionId = .ok done) :
    done.Counted run.workstreamId := by
  obtain ⟨-, -, ⟨old, -, -, rfl⟩ | ⟨hnone, rfl⟩⟩ := importEvent_ok.mp hok
  · exact h
  · refine ⟨h.wellformed.append ?_ (findEvent_eq_none.mp hnone), ?_⟩
    · change acc.latest + 1 = _
      rw [h.latest]
      rfl
    · have hstream : (nextRow E input run now acc event).workstreamId = run.workstreamId := rfl
      change acc.latest + 1 = (ledger (acc.events ++ [_]) _).length
      rw [ledger_append_singleton, if_pos hstream, length_append, length_singleton, h.latest]

lemma importEvents_counted {events : List NewWorkstreamEvent} (h : acc.Counted run.workstreamId)
    (hok : importEvents E input run native now acc events = .ok done) :
    done.Counted run.workstreamId :=
  foldlM_invariant (I := fun acc : Import => acc.Counted run.workstreamId)
    (fun _ _ _ _ h hok => importEvent_counted h hok) h hok

lemma importEvents_appends {events : List NewWorkstreamEvent}
    (hok : importEvents E input run native now acc events = .ok done) :
    acc.events <+: done.events := by
  refine foldlM_invariant (I := fun x : Import => acc.events <+: x.events)
    (fun event _ before after hprefix hstep => ?_) prefix_rfl hok
  obtain ⟨-, -, ⟨old, -, -, rfl⟩ | ⟨-, rfl⟩⟩ := importEvent_ok.mp hstep
  · exact hprefix
  · exact hprefix.trans (prefix_append _ _)

lemma reopen_events {recoverExpired : Bool} {reopened : Tables}
    (h : reopen m run recoverExpired now = .ok reopened) : reopened.events = m.events := by
  rcases reopen_ok.mp h with ⟨-, rfl⟩ | ⟨-, -, -, -, -, rfl⟩
  · rfl
  · rfl

lemma step_events (m : Tables) (c : Call) : (step E m c).events = m.events ∨
    ∃ authority input recoverExpired now run done, c = .finish authority input recoverExpired now ∧
      m.findRun input.runId = some run ∧ run.state ≠ .finished ∧
      importEvents E input run (input.session run) now (m.importFrom run.workstreamId)
        input.events = .ok done ∧ (step E m c).events = done.events := by
  cases step_change (E := E) m c with
  | quiet runs natives events
  | linked run session boundary now mem active admits runs natives events
  | accepted run requireUndelivered now mem active runs natives events answer => exact .inl events
  | opened input ownerUser forceUnlock newStream runId now stream unlocked select unlock ids one
      runs natives events => exact .inl events
  | renewed runId now eq | released runId now eq =>
    rw [eq]
    exact .inl rfl
  | imported authority input recoverExpired now run reopened done found unfinished reopen loop eq =>
    refine .inr ⟨authority, input, recoverExpired, now, run, done, rfl, found, unfinished, ?_,
      congrArg Tables.events eq⟩
    rw [Tables.importFrom, reopen_events reopen] at loop
    exact loop

lemma step_wellformed (h : Wellformed m.events) (c : Call) : Wellformed (step E m c).events := by
  rcases step_events (E := E) m c with heq | ⟨_, _, _, _, run, done, -, -, -, hloop, heq⟩
  · rw [heq]
    exact h
  · rw [heq]
    exact (importEvents_counted (importFrom_counted h run.workstreamId) hloop).wellformed

lemma exec_wellformed (h : Wellformed m.events) (calls : List Call) :
    Wellformed (exec (step E) m calls).events :=
  exec_invariant (I := fun m : Tables => Wellformed m.events) (fun _ c h => step_wellformed h c)
    h calls

lemma step_appends (m : Tables) (c : Call) : m.events <+: (step E m c).events := by
  rcases step_events (E := E) m c with heq | ⟨_, _, _, _, run, done, -, -, -, hloop, heq⟩
  · rw [heq]
  · rw [heq]
    exact importEvents_appends hloop

lemma exec_appends (m : Tables) (calls : List Call) : m.events <+: (exec (step E) m calls).events :=
  exec_invariant (I := fun t : Tables => m.events <+: t.events)
    (fun t c h => h.trans (step_appends t c)) prefix_rfl calls

lemma findEvent_of_appended {events' : List EventRow} (h : events <+: events')
    {stream : WorkstreamId} {id : String} (hfound : findEvent events stream id ≠ none) :
    findEvent events' stream id ≠ none := by
  rw [ne_eq, findEvent_eq_none] at hfound ⊢
  exact fun hnone => hfound fun e he => hnone e (h.subset he)

lemma importEvents_present {events : List NewWorkstreamEvent}
    (hpresent : ∀ e ∈ events, findEvent acc.events run.workstreamId e.eventId ≠ none)
    (hok : importEvents E input run native now acc events = .ok done) : done = acc := by
  refine foldlM_invariant (I := fun x : Import => x = acc)
    (fun event hevent before after hbefore hstep => ?_) rfl hok
  subst hbefore
  obtain ⟨-, -, ⟨old, -, -, rfl⟩ | ⟨hnone, -⟩⟩ := importEvent_ok.mp hstep
  · rfl
  · exact absurd hnone (hpresent event hevent)

lemma importEvents_has {events : List NewWorkstreamEvent}
    (hok : importEvents E input run native now acc events = .ok done) :
    ∀ e ∈ events, findEvent done.events run.workstreamId e.eventId ≠ none := by
  induction events generalizing acc with
  | nil => simp
  | cons event events ih =>
    obtain ⟨next, hstep, hrest⟩ := foldlM_cons_ok.mp hok
    intro e he
    rcases mem_cons.mp he with rfl | he
    · refine findEvent_of_appended (importEvents_appends hrest) ?_
      obtain ⟨-, -, ⟨old, hold, -, rfl⟩ | ⟨-, rfl⟩⟩ := importEvent_ok.mp hstep
      · simp [hold]
      · rw [ne_eq, findEvent_eq_none]
        intro hnone
        exact hnone (nextRow E input run now acc e) (by simp [Import.push]) rfl
    · exact ih hrest e he

lemma finish_present {authority : ManagedRunAuthority} {recoverExpired : Bool}
    (hfound : m.findRun input.runId = some run)
    (hpresent : ∀ e ∈ input.events, findEvent m.events run.workstreamId e.eventId ≠ none) :
    (step E m (.finish authority input recoverExpired now)).events = m.events := by
  rcases step_events (E := E) m (.finish authority input recoverExpired now) with
    heq | ⟨_, _, _, _, run', done, hcall, hfound', -, hloop, heq⟩
  · exact heq
  · obtain ⟨rfl, rfl, rfl, rfl⟩ := Call.finish.injEq .. ▸ hcall
    rw [hfound, Option.some.injEq] at hfound'
    subst hfound'
    rw [heq, importEvents_present hpresent hloop]
    rfl

/-! ### One batch or several -/

def EventRow.entry (e : EventRow) : EventRow :=
  { e with
    segmentPath := none
    createdAt := 0 }

structure Faithful (π : EventRow → EventRow) : Prop where
  key : ∀ e, (π e).key = e.key
  identity : ∀ e event, SameIdentity (π e) event ↔ SameIdentity e event

lemma faithful_entry : Faithful EventRow.entry := ⟨fun _ => rfl, fun _ _ => Iff.rfl⟩

lemma faithful_id : Faithful id := ⟨fun _ => rfl, fun _ _ => Iff.rfl⟩

/-- Two imports that stand at the same point, as `π` sees it. -/
structure Alike (π : EventRow → EventRow) (acc acc' : Import) : Prop where
  latest : acc.latest = acc'.latest
  events : acc.events.map π = acc'.events.map π

section alike

variable {π : EventRow → EventRow} {acc' : Import} {input' : FinishWorkstreamRun} {run' : RunRow}
  {now' : ℤ}

lemma Alike.find (hπ : Faithful π) (h : Alike π acc acc') (stream : WorkstreamId) (id : String) :
    (findEvent acc.events stream id).map π = (findEvent acc'.events stream id).map π := by
  have hmap : ∀ events : List EventRow,
      findEvent (events.map π) stream id = (findEvent events stream id).map π := by
    intro events
    rw [findEvent, find?_map]
    refine congrArg (Option.map π) (congrArg (List.find? · events) (funext fun e => ?_))
    rw [Function.comp_apply, hπ.key]
  rw [← hmap, ← hmap, h.events]

/-- The two imports write the same rows, as `π` sees them. -/
def SameRows (E : Env) (π : EventRow → EventRow) (input : FinishWorkstreamRun) (run : RunRow)
    (now : ℤ) (input' : FinishWorkstreamRun) (run' : RunRow) (now' : ℤ) : Prop :=
  ∀ acc acc' event, acc.latest = acc'.latest →
    π (nextRow E input run now acc event) = π (nextRow E input' run' now' acc' event)

lemma importEvent_alike (hπ : Faithful π) (hrows : SameRows E π input run now input' run' now')
    (hstream : run'.workstreamId = run.workstreamId) (hagent : run'.agent = run.agent)
    (h : Alike π acc acc')
    (hok : importEvent E input run native now acc event event.nativeSessionId = .ok done) :
    ∃ done', importEvent E input' run' native now' acc' event event.nativeSessionId = .ok done' ∧
      Alike π done done' := by
  obtain ⟨hharness, hsession, hcase⟩ := importEvent_ok.mp hok
  have hfind := h.find hπ run.workstreamId event.eventId
  rcases hcase with ⟨old, hold, hsame, rfl⟩ | ⟨hnone, rfl⟩
  · rw [hold, Option.map_some] at hfind
    obtain ⟨old', hold', heq⟩ := Option.map_eq_some_iff.mp hfind.symm
    refine ⟨acc', importEvent_ok.mpr ⟨hharness.trans hagent.symm, hsession, .inl ⟨old', ?_, ?_, rfl⟩⟩,
      h⟩
    · rw [hstream, hold']
    · rw [← hπ.identity, heq, hπ.identity]
      exact hsame
  · rw [hnone, Option.map_none] at hfind
    have hnone' : findEvent acc'.events run'.workstreamId event.eventId = none := by
      rw [hstream]
      exact Option.map_eq_none_iff.mp hfind.symm
    refine ⟨_, importEvent_ok.mpr ⟨hharness.trans hagent.symm, hsession, .inr ⟨hnone', rfl⟩⟩, ?_⟩
    refine ⟨congrArg (· + 1) h.latest, ?_⟩
    simp only [Import.push, map_append, map_singleton]
    rw [h.events, hrows acc acc' event h.latest]

lemma importEvents_alike (hπ : Faithful π) (hrows : SameRows E π input run now input' run' now')
    (hstream : run'.workstreamId = run.workstreamId) (hagent : run'.agent = run.agent)
    {events : List NewWorkstreamEvent} (h : Alike π acc acc')
    (hok : importEvents E input run native now acc events = .ok done) :
    ∃ done', importEvents E input' run' native now' acc' events = .ok done' ∧
      Alike π done done' := by
  induction events generalizing acc acc' with
  | nil =>
    obtain rfl := foldlM_nil_ok.mp hok
    exact ⟨acc', foldlM_nil_ok.mpr rfl, h⟩
  | cons event events ih =>
    obtain ⟨next, hstep, hrest⟩ := foldlM_cons_ok.mp hok
    obtain ⟨next', hstep', hnext⟩ := importEvent_alike hπ hrows hstream hagent h hstep
    obtain ⟨done', hrest', hdone⟩ := ih hnext hrest
    exact ⟨done', foldlM_cons_ok.mpr ⟨next', hstep', hrest'⟩, hdone⟩

end alike

end Workstreams
