/-
The replay of a finished run.

A client that did not hear the answer to its last batch sends it again through
`recover_run`.  The import scrubs what it stores and takes a missing session from the
run; the replay compares with the input as it was sent.
-/
import AiMemory.Store.WorkstreamBatches
import AiMemory.Store.WorkstreamRuns

open Table Runs List

namespace Workstreams

open Store Projects
open Option (map_none or_none map_some some_or none_or some.injEq)

variable {E : Env} {m m' : Tables} {now : ℤ} {run : RunRow} {input : FinishWorkstreamRun}
  {authority : ManagedRunAuthority} {recoverExpired : Bool}

variable (E) in
def committedEvent (scrub : String → String) (event : NewWorkstreamEvent) : StoredEvent :=
  { expectedEvent E scrub event with
    content := truncateUtf8Bytes (scrub event.content) workstreamContentMaxBytes }

lemma findEvent_append {events later : List EventRow} {stream : WorkstreamId} {id : String} :
    findEvent (events ++ later) stream id =
      (findEvent events stream id).or (findEvent later stream id) :=
  find?_append

variable {native : Option String} {done : Import} {events : List NewWorkstreamEvent}

lemma importEvents_stored {acc : Import}
    (hok : importEvents E input run native now acc events = .ok done) (id : String) :
    (findEvent done.events run.workstreamId id).map EventRow.stored =
      ((findEvent acc.events run.workstreamId id).map EventRow.stored).or
        ((events.find? fun e => e.eventId = id).map (committedEvent E input.sanitizer)) := by
  induction events generalizing acc with
  | nil =>
    rw [← foldlM_nil_ok.mp hok, find?_nil, map_none, or_none]
  | cons event events ih =>
    obtain ⟨next, hstep, hrest⟩ := foldlM_cons_ok.mp hok
    rw [ih hrest]
    obtain ⟨-, -, ⟨old, hold, -, rfl⟩ | ⟨hnone, rfl⟩⟩ := importEvent_ok.mp hstep
    · by_cases hid : event.eventId = id
      · subst hid
        rw [hold, map_some, some_or, some_or]
      · rw [find?_cons_of_neg (by simpa using hid)]
    · have hpushed : (acc.push (nextRow E input run now acc event)).events =
          acc.events ++ [nextRow E input run now acc event] := rfl
      have hkey : (nextRow E input run now acc event).key = (run.workstreamId, event.eventId) := rfl
      rw [hpushed, findEvent_append]
      by_cases hid : event.eventId = id
      · subst hid
        have hnew : findEvent [nextRow E input run now acc event] run.workstreamId event.eventId =
            some (nextRow E input run now acc event) :=
          find?_cons_of_pos (decide_eq_true hkey)
        have hfirst : (event :: events).find? (fun e => e.eventId = event.eventId) = some event :=
          find?_cons_of_pos (by simp)
        rw [hnone, hnew, hfirst, none_or, map_some, some_or, map_none,
          none_or, map_some]
        rfl
      · have hother : findEvent [nextRow E input run now acc event] run.workstreamId id = none := by
          refine findEvent_eq_none.mpr fun e he => ?_
          rw [mem_singleton.mp he, hkey]
          simp [hid]
        rw [hother, or_none, find?_cons_of_neg (by simpa using hid)]

lemma importEvents_agent {acc : Import}
    (hok : importEvents E input run native now acc events = .ok done) :
    ∀ e ∈ events, e.agent = run.agent := by
  induction events generalizing acc with
  | nil => simp
  | cons event events ih =>
    obtain ⟨next, hstep, hrest⟩ := foldlM_cons_ok.mp hok
    exact forall_mem_cons.mpr ⟨(importEvent_ok.mp hstep).1, ih hrest⟩

/-- A complete batch passes the check when it names the session and the exit code of the
run, finds each of its events as it is, and the cursor of the session is its own. -/
theorem validateFinishedRecovery_ok (hcomplete : input.complete) :
    validateFinishedRecovery E m run input = .ok () ↔
      input.nativeSessionId = run.nativeSessionId ∧ input.exitCode = run.exitCode ∧
      (∀ e ∈ input.events, (findEvent m.events run.workstreamId e.eventId).map EventRow.stored =
        some (expectedEvent E input.sanitizer e) ∧ e.agent = run.agent) ∧
      storedCursor m run = .ok input.sourceCursor := by
  have hevent : ∀ e, replayedEvent E m run input.sanitizer e = true ↔
      (findEvent m.events run.workstreamId e.eventId).map EventRow.stored =
        some (expectedEvent E input.sanitizer e) ∧ e.agent = run.agent := by
    intro e
    rw [replayedEvent, Bool.and_eq_true, decide_eq_true_eq]
    cases findEvent m.events run.workstreamId e.eventId with
    | none | some old => simp
  have hevents : input.events.all (replayedEvent E m run input.sanitizer) ↔
      ∀ e ∈ input.events, (findEvent m.events run.workstreamId e.eventId).map EventRow.stored =
        some (expectedEvent E input.sanitizer e) ∧ e.agent = run.agent := by
    rw [all_eq_true]
    exact forall₂_congr fun e _ => hevent e
  rw [← hevents]
  unfold validateFinishedRecovery
  rw [hcomplete]
  by_cases hnative : input.nativeSessionId = run.nativeSessionId
  · by_cases hexit : input.exitCode = run.exitCode
    · cases hall : input.events.all (replayedEvent E m run input.sanitizer) with
      | false => simp [hnative, hexit]
      | true =>
        simp only [hnative, hexit, ne_eq, not_true_eq_false, decide_false, Bool.and_false,
          Bool.not_true, Bool.false_and, Bool.or_self, Bool.false_eq_true, if_false, true_and,
          Bool.true_and, decide_eq_true_eq]
        rw [bind_ok]
        constructor
        · rintro ⟨stored, hstored, hcursor⟩
          by_cases heq : stored = input.sourceCursor
          · rw [hstored, heq]
          · rw [if_pos heq] at hcursor
            cases hcursor
        · intro hstored
          exact ⟨_, hstored, if_neg (not_not.mpr rfl)⟩
    · simp [hnative, hexit]
  · simp [hnative]

variable (E) in
/-- A complete batch that agrees with what it leaves, from the state before it. -/
structure Replayable (m : Tables) (run : RunRow) (input : FinishWorkstreamRun) : Prop where
  /-- It names its session; a run without one keeps no source cursor. -/
  session : input.nativeSessionId = none →
    run.nativeSessionId = none ∧ input.sourceCursor = none
  /-- An event whose id is in the ledger is the one that is there. -/
  kept : ∀ e ∈ input.events, ∀ old, findEvent m.events run.workstreamId e.eventId = some old →
    old.stored = expectedEvent E input.sanitizer e
  /-- The privacy strip finds nothing in the part of a new event that is stored. -/
  plain : ∀ e, (input.events.find? fun e' => e'.eventId = e.eventId) = some e →
    findEvent m.events run.workstreamId e.eventId = none →
    truncateUtf8Bytes (input.sanitizer e.content) workstreamContentMaxBytes =
      truncateUtf8Bytes e.content workstreamContentMaxBytes
  /-- Events of one id are alike. -/
  alike : ∀ e ∈ input.events, ∀ e' ∈ input.events, e.eventId = e'.eventId →
    expectedEvent E input.sanitizer e = expectedEvent E input.sanitizer e'

lemma committedEvent_eq {scrub : String → String} {e : NewWorkstreamEvent} :
    committedEvent E scrub e = expectedEvent E scrub e ↔
      truncateUtf8Bytes (scrub e.content) workstreamContentMaxBytes =
        truncateUtf8Bytes e.content workstreamContentMaxBytes := by
  constructor
  · intro h
    exact congrArg StoredEvent.content h
  · intro h
    rw [committedEvent, h]
    rfl

lemma exists_first {e : NewWorkstreamEvent} (he : e ∈ events) :
    ∃ first ∈ events, (events.find? fun e' => e'.eventId = e.eventId) = some first ∧
      first.eventId = e.eventId := by
  cases hfind : events.find? fun e' => e'.eventId = e.eventId with
  | none => exact absurd (decide_eq_true rfl) (find?_eq_none.mp hfind e he)
  | some first =>
    have hid := find?_some hfind
    rw [decide_eq_true_eq] at hid
    exact ⟨first, mem_of_find?_eq_some hfind, rfl, hid⟩

/-- The ledger shows every event of the batch as it was sent exactly when the batch repeats
what was there, is not scrubbed and has no two events under one id. -/
theorem stored_iff
    (hok : importEvents E input run native now (m.importFrom run.workstreamId) input.events =
      .ok done) :
    (∀ e ∈ input.events, (findEvent done.events run.workstreamId e.eventId).map EventRow.stored =
        some (expectedEvent E input.sanitizer e)) ↔
      (∀ e ∈ input.events, ∀ old, findEvent m.events run.workstreamId e.eventId = some old →
        old.stored = expectedEvent E input.sanitizer e) ∧
      (∀ e, (input.events.find? fun e' => e'.eventId = e.eventId) = some e →
        findEvent m.events run.workstreamId e.eventId = none →
        truncateUtf8Bytes (input.sanitizer e.content) workstreamContentMaxBytes =
          truncateUtf8Bytes e.content workstreamContentMaxBytes) ∧
      ∀ e ∈ input.events, ∀ e' ∈ input.events, e.eventId = e'.eventId →
        expectedEvent E input.sanitizer e = expectedEvent E input.sanitizer e' := by
  have hstored := importEvents_stored hok
  have hstart : (m.importFrom run.workstreamId).events = m.events := rfl
  rw [hstart] at hstored
  constructor
  · intro hall
    refine ⟨?_, ?_, ?_⟩
    · intro e he old hold
      have h := hall e he
      rw [hstored, hold, map_some, some_or, some.injEq] at h
      exact h
    · intro e hfirst hnone
      have h := hall e (mem_of_find?_eq_some hfirst)
      rw [hstored, hnone, map_none, none_or, hfirst, map_some,
        some.injEq] at h
      exact committedEvent_eq.mp h
    · intro e he e' he' hid
      have h := hall e he
      rw [hid, hall e' he', some.injEq] at h
      exact h.symm
  · rintro ⟨hkept, hplain, halike⟩ e he
    rw [hstored]
    cases hold : findEvent m.events run.workstreamId e.eventId with
    | some old => rw [map_some, some_or, hkept e he old hold]
    | none =>
      obtain ⟨first, hmem, hfirst, hid⟩ := exists_first he
      rw [map_none, none_or, hfirst, map_some, some.injEq,
        ← halike first hmem e he hid]
      refine committedEvent_eq.mpr (hplain first ?_ ?_)
      · rw [hid]
        exact hfirst
      · rw [hid]
        exact hold

lemma closeSessions_cursor {natives : List NativeSessionRow} {session : String} {known : ℕ}
    (hcomplete : input.complete) :
    ((closeSessions natives input run (some session) known now).find? fun n =>
      n.key = (run.workstreamId, run.agent, session)).map (·.sourceCursor) =
        some input.sourceCursor := by
  rw [closeSessions, if_pos hcomplete, find?_upsert, NativeSessionRow.key, if_pos rfl,
    map_some]
  · cases (retireSessions natives run.workstreamId run.agent session now).find? fun n =>
        n.key = (run.workstreamId, run.agent, session) with
    | none => rfl
    | some n => rfl
  · exact fun _ => rfl

lemma storedCursor_ok {cursor : Option String} :
    storedCursor m run = .ok cursor ↔ (run.nativeSessionId = none → cursor = none) ∧
      ∀ session, run.nativeSessionId = some session →
        (m.nativeSessions.find? fun n => n.key = (run.workstreamId, run.agent, session)).map
          (·.sourceCursor) = some cursor := by
  unfold storedCursor
  cases hnative : run.nativeSessionId with
  | none =>
    simp only [Except.ok.injEq, forall_const, reduceCtorEq, false_imp_iff, and_true]
    exact eq_comm
  | some session =>
    simp only [reduceCtorEq, false_imp_iff, true_and, some.injEq, forall_eq']
    cases m.nativeSessions.find? fun n => n.key = (run.workstreamId, run.agent, session) with
    | none | some n => simp

variable (E) in
/-- The batch is recovered with nothing imported and nothing changed. -/
def Replays (m : Tables) (authority : ManagedRunAuthority) (input : FinishWorkstreamRun)
    (now : ℤ) : Prop :=
  ∃ latest, recoverRun E m authority input now = .ok (⟨0, latest⟩, m)

lemma replays_iff (hfound : m.findRun input.runId = some run) (hfin : run.state = .finished) :
    Replays E m authority input now ↔ m.authorizeRunMutation input.runId authority = .ok () ∧
        validateFinishedRecovery E m run input = .ok () := by
  unfold Replays recoverRun
  constructor
  · rintro ⟨latest, h⟩
    obtain ⟨hauth, r, hr, hcase⟩ := finishRunInner_ok.mp h
    rw [hfound, some.injEq] at hr
    subst hr
    rcases hcase with ⟨-, hvalid, -⟩ | ⟨hunfinished, -⟩
    · exact ⟨hauth, hvalid rfl⟩
    · exact absurd hfin hunfinished
  · rintro ⟨hauth, hvalid⟩
    exact ⟨_, finishRunInner_ok.mpr ⟨hauth, run, hfound, .inl ⟨hfin, fun _ => hvalid, rfl, rfl⟩⟩⟩

lemma findEvent_stable {events events' : List EventRow} (h : events <+: events')
    {stream : WorkstreamId} {id : String} (hfound : findEvent events stream id ≠ none) :
    findEvent events' stream id = findEvent events stream id := by
  obtain ⟨later, rfl⟩ := h
  obtain ⟨e, he⟩ := Option.ne_none_iff_exists'.mp hfound
  rw [findEvent_append, he, some_or]

lemma replays_again {run' : RunRow} (hcomplete : input.complete)
    (hloop : importEvents E input run (input.session run) now (m.importFrom run.workstreamId)
      input.events = .ok done) (hfound : m'.findRun input.runId = some run')
    (hfin : run'.state = .finished) (hstream : run'.workstreamId = run.workstreamId)
    (hagent : run'.agent = run.agent) (hnative : run'.nativeSessionId = input.session run)
    (hexit : run'.exitCode = input.exitCode) (hevents : done.events <+: m'.events) (now' : ℤ) :
    Replays E m' authority input now' ↔
      m'.authorizeRunMutation input.runId authority = .ok () ∧ Replayable E m run input ∧
      ∀ session, input.nativeSessionId = some session →
        (m'.nativeSessions.find? fun n => n.key = (run.workstreamId, run.agent, session)).map
          (·.sourceCursor) = some input.sourceCursor := by
  -- the rows of the batch are found as the import left them
  have hrows : (∀ e ∈ input.events,
      (findEvent m'.events run'.workstreamId e.eventId).map EventRow.stored =
        some (expectedEvent E input.sanitizer e) ∧ e.agent = run'.agent) ↔
      ∀ e ∈ input.events, (findEvent done.events run.workstreamId e.eventId).map EventRow.stored =
        some (expectedEvent E input.sanitizer e) := by
    refine forall₂_congr fun e he => ?_
    rw [hstream, hagent, findEvent_stable hevents (importEvents_has hloop e he)]
    exact and_iff_left (importEvents_agent hloop e he)
  rw [replays_iff hfound hfin, validateFinishedRecovery_ok hcomplete, hrows, stored_iff hloop,
    storedCursor_ok, hnative, hexit, hstream, hagent]
  refine and_congr_right fun _ => ?_
  constructor
  · rintro ⟨hsession, -, ⟨hkept, hplain, halike⟩, hnone, hcursor⟩
    rw [← hsession] at hnone hcursor
    refine ⟨⟨fun hmissing => ⟨?_, hnone hmissing⟩, hkept, hplain, halike⟩, hcursor⟩
    rw [FinishWorkstreamRun.session, hmissing] at hsession
    exact hsession.symm
  · rintro ⟨hreplayable, hcursor⟩
    have hsession : input.nativeSessionId = input.session run := by
      rw [FinishWorkstreamRun.session]
      cases hmissing : input.nativeSessionId with
      | none => exact (hreplayable.session hmissing).1.symm
      | some session => rfl
    rw [← hsession]
    exact ⟨rfl, rfl, ⟨hreplayable.kept, hreplayable.plain, hreplayable.alike⟩,
      fun hmissing => (hreplayable.session hmissing).2, hcursor⟩

/-- Sent again right after it was committed, a complete batch succeeds, imports nothing and
changes nothing exactly when it is replayable.  Through any later calls the same holds as
long as the caller may still change the run, and no later run has moved the cursor of its
session. -/
theorem replay_law (E : Env) (calls : List Call) (authority : ManagedRunAuthority)
    (input : FinishWorkstreamRun) (recoverExpired : Bool) (now : ℤ) (run : RunRow)
    (res : FinishedWorkstreamRun) (m' : Tables)
    (hfound : (exec (step E) .empty calls).findRun input.runId = some run)
    (hstate : run.state ≠ .finished) (hcomplete : input.complete = true)
    (hok : finishRunInner E (exec (step E) .empty calls) authority input recoverExpired now =
      .ok (res, m')) :
    (∀ now', Replays E m' authority input now' ↔
      Replayable E (exec (step E) .empty calls) run input) ∧
    ∀ later authority' now', Replays E (exec (step E) m' later) authority' input now' ↔
      (exec (step E) m' later).authorizeRunMutation input.runId authority' = .ok () ∧
      Replayable E (exec (step E) .empty calls) run input ∧
      ∀ session, input.nativeSessionId = some session →
        ((exec (step E) m' later).nativeSessions.find? fun n =>
          n.key = (run.workstreamId, run.agent, session)).map (·.sourceCursor) =
            some input.sourceCursor := by
  have hids : KeyUnique RunRow.id m'.runs := by
    have hstep : step E (exec (step E) .empty calls)
        (.finish authority input recoverExpired now) = m' := by
      rw [step, hok]
      rfl
    rw [← hstep]
    exact step_ids (exec_ids empty_ids calls) _
  have hauth := (finishRunInner_ok.mp hok).1
  obtain ⟨run', reopened, done, -, heq, hfound', hfin, hstream, hagent, hnative, hexit, -, hloop,
    hsame⟩ := batch_ok hfound hstate hok
  rw [if_pos hcomplete] at hfin
  have hevents : m'.events = done.events := by rw [heq]; rfl
  constructor
  · intro now'
    rw [replays_again hcomplete hloop hfound' hfin hstream hagent hnative (hexit hcomplete)
      (by rw [hevents]), hsame]
    refine ⟨fun h => h.2.1, fun h => ⟨hauth, h, fun session hsession => ?_⟩⟩
    have hnatives : m'.nativeSessions = closeSessions reopened.nativeSessions input run
        (input.session run) (knownThrough run done.latest) now := by rw [heq]; rfl
    have hnamed : input.session run = some session := by
      rw [FinishWorkstreamRun.session, hsession]
      rfl
    rw [hnatives, hnamed]
    exact closeSessions_cursor hcomplete
  · intro later authority' now'
    obtain ⟨hmem, hid⟩ := mem_of_findRun hfound'
    have hstill := exec_finished (E := E) hids hmem hfin later
    have hlater : (exec (step E) m' later).findRun input.runId = some run' := by
      exact (exec_ids hids later).find?_eq_some.mpr ⟨hstill, hid⟩
    exact replays_again hcomplete hloop hlater hfin hstream hagent hnative (hexit hcomplete)
      (hevents ▸ exec_appends m' later) now'

/-- Run 1 is prepared for Codex and linked to the session `s1`. -/
def oneRun : List Call :=
  [.elsewhere oneProject [] [], .prepare (launch .codex) none false 1 1 50, .link 1 .codex "s1" 60]

def message (content : String) : NewWorkstreamEvent :=
  ⟨"e1", .codex, "s1", none, .message, some "assistant", content, none, .null⟩

def lastBatch (scrub : String → String) (session : Option String) (content : String) :
    FinishWorkstreamRun :=
  ⟨scrub, 1, session, some "c1", [message content], true, none, some 0⟩

def afterLast (input : FinishWorkstreamRun) : Tables :=
  exec (step plainText) .empty (oneRun ++ [.finish root input false 100])

/-- A batch that names its session and has nothing private in it can be sent again. -/
theorem replay_law_named_session :
    finishRunInner plainText (exec (step plainText) .empty oneRun) root
      (lastBatch id (some "s1") "done") false 100 =
        .ok (⟨1, 1⟩, afterLast (lastBatch id (some "s1") "done")) ∧
    ∀ now, Replays plainText (afterLast (lastBatch id (some "s1") "done")) root
      (lastBatch id (some "s1") "done") now := by
  have hok : finishRunInner plainText (exec (step plainText) .empty oneRun) root
      (lastBatch id (some "s1") "done") false 100 =
        .ok (⟨1, 1⟩, afterLast (lastBatch id (some "s1") "done")) := by decide +kernel
  have hfound : ∃ run ∈ (exec (step plainText) .empty oneRun).findRun 1, run.state ≠ .finished := by
    decide +kernel
  obtain ⟨run, hrun, hstate⟩ := hfound
  have hnew : ∀ stream id, findEvent (exec (step plainText) .empty oneRun).events stream id = none :=
    fun _ _ => rfl
  refine ⟨hok, fun now => ?_⟩
  refine ((replay_law plainText oneRun root _ false 100 run _ _ hrun hstate rfl hok).1 now).mpr ?_
  refine ⟨(fun h => nomatch h), fun e _ old hold => ?_, fun e _ _ => rfl, fun e he e' he' _ => ?_⟩
  · rw [hnew] at hold
    cases hold
  · rw [mem_singleton.mp he, mem_singleton.mp he']

def hidesKey (text : String) : String := if text = "key=hunter2" then "key=[REDACTED]" else text

/-- A batch that leaves its session to the run, and one with a secret in it, are committed,
and refused when they are sent again. -/
theorem refuses_exact_replay :
    (finishRunInner plainText (exec (step plainText) .empty oneRun) root
      (lastBatch id none "done") false 100 = .ok (⟨1, 1⟩, afterLast (lastBatch id none "done")) ∧
    recoverRun plainText (afterLast (lastBatch id none "done")) root (lastBatch id none "done") 200 =
      .error .notExactReplay) ∧
    finishRunInner plainText (exec (step plainText) .empty oneRun) root
      (lastBatch hidesKey (some "s1") "key=hunter2") false 100 =
        .ok (⟨1, 1⟩, afterLast (lastBatch hidesKey (some "s1") "key=hunter2")) ∧
    recoverRun plainText (afterLast (lastBatch hidesKey (some "s1") "key=hunter2")) root
      (lastBatch hidesKey (some "s1") "key=hunter2") 200 = .error .changedEvents := by
  decide +kernel

end Workstreams
