/-
What one call does to the tables of managed runs.

Each function is taken apart once; `step_change` says for any call which of these
happened, and `step_runs` what it means for the single run.

* `RunStep`, `step_runs` — a run keeps what it was opened with, and a finished run
  is never written again.
-/
import AiMemory.Store.WorkstreamCalls

open Table Runs List
open Strings (trim)

namespace Workstreams

open Store Projects

variable {E : Env} {m m' : Tables} {now : ℤ}

variable {runs runs' : List RunRow} {ownerUser : Option String} {runId : RunId}
  {forceUnlock recoverExpired : Bool} {identity : NativeSessionIdentity E.builtin}
  {boundary : ClaudeSessionBoundary} {ids : List (NativeSessionIdentity E.builtin)}
  {events : List NewWorkstreamEvent} {run r r' : RunRow} {input : FinishWorkstreamRun}
  {res : FinishedWorkstreamRun} {reopened : Tables}

lemma checkedRuns_ok : checkedRuns runs = .ok runs' ↔
    runs' = runs ∧ KeyUnique RunRow.id runs ∧ (activeStreams runs).Nodup := by
  unfold checkedRuns
  by_cases h : KeyUnique RunRow.id runs ∧ (activeStreams runs).Nodup
  · rw [if_pos h, Except.ok.injEq]
    exact ⟨fun heq => ⟨heq.symm, h⟩, fun heq => heq.1.symm⟩
  · rw [if_neg h]
    simp only [reduceCtorEq, false_iff, not_and]
    exact fun _ hid hnodup => h ⟨hid, hnodup⟩

lemma prepareRun_ok {input : PrepareWorkstreamRun}
    {newStream : WorkstreamId} {p : PreparedWorkstreamRun}
    (h : prepareRun E m input ownerUser forceUnlock newStream runId now = .ok (p, m')) :
    ∃ stream unlocked,
      (∃ w streams, selectWorkstream m input newStream now = .ok (w, streams) ∧ w.id = stream) ∧
      unlockBusy (expireStale m.runs now) stream ownerUser forceUnlock now = .ok unlocked ∧
      KeyUnique RunRow.id (unlocked ++ [openedRun m input ownerUser stream runId now]) ∧
      (activeStreams (unlocked ++ [openedRun m input ownerUser stream runId now])).Nodup ∧
      m'.runs = unlocked ++ [openedRun m input ownerUser stream runId now] ∧
      m'.nativeSessions = m.nativeSessions ∧ m'.events = m.events := by
  unfold prepareRun at h
  by_cases howner : (ownerUser.any fun owner => !E.validOwner owner)
  · rw [if_pos howner] at h
    cases h
  rw [if_neg howner] at h
  obtain ⟨⟨stream, streams⟩, hselect, h⟩ := bind_ok.mp h
  obtain ⟨unlocked, hunlocked, h⟩ := bind_ok.mp h
  obtain ⟨runs, hruns, h⟩ := bind_ok.mp h
  obtain ⟨rfl, hid, hnodup⟩ := checkedRuns_ok.mp hruns
  simp only [pure_ok, Prod.mk.injEq] at h
  obtain ⟨-, rfl⟩ := h
  exact ⟨stream.id, unlocked, ⟨stream, streams, hselect, rfl⟩, hunlocked, hid, hnodup, rfl, rfl, rfl⟩

lemma unlockBusy_ok {runs unlocked : List RunRow} {stream : WorkstreamId}
    (h : unlockBusy runs stream ownerUser forceUnlock now = .ok unlocked) :
    unlocked = runs ∨ ∃ runId, unlocked = release runs runId now := by
  unfold unlockBusy at h
  cases hbusy : runs.find? fun r => r.workstreamId = stream && r.state = .active with
  | none =>
    rw [hbusy, Except.ok.injEq] at h
    exact .inl h.symm
  | some busy =>
    rw [hbusy] at h
    by_cases hforce : (forceUnlock && busy.ownerUser = ownerUser)
    · simp only [hforce, if_true, Except.ok.injEq] at h
      exact .inr ⟨busy.id, h.symm⟩
    · simp only [hforce] at h
      cases h

def initialDelivery (m : Tables) (run : RunRow) (session : String) : ℕ :=
  (deliveryCursor m.nativeSessions run.workstreamId run.agent session).getD
    (if run.contextDelivered then run.syncThrough else 0)

def linkedRow (m : Tables) (run : RunRow) (session : String) (now : ℤ) : NativeSessionRow where
  workstreamId := run.workstreamId
  agent := run.agent
  nativeSessionId := session
  isCurrent := true
  sourceCursor := none
  deliveryCursor := initialDelivery m run session
  createdAt := now
  updatedAt := now

def linkedRun (m : Tables) (run : RunRow) (session : String) (now : ℤ) (r : RunRow) : RunRow :=
  { r with
    nativeSessionId := some session
    syncAfter := initialDelivery m run session
    nativeSessionLinkedAt := some now }

lemma deliveryCursor_retire {natives : List NativeSessionRow} {stream stream' : WorkstreamId}
    {agent agent' : AgentKind} {session session' : String} :
    deliveryCursor (retireSessions natives stream agent session now) stream' agent' session' =
      deliveryCursor natives stream' agent' session' := by
  unfold deliveryCursor retireSessions
  rw [find?_update, Option.map_map]
  · refine congrArg (Option.map · _) (funext fun n => ?_)
    rw [Function.comp_apply]
    split <;> rfl
  · exact fun _ => rfl

lemma linkInTransaction_some {agent : AgentKind}
    (h : linkNativeSessionInTransaction E m runId agent identity now boundary = some m') :
    ∃ run ∈ m.runs, run.state = .active ∧ run.id = runId ∧
      admitsSession m run identity.asStr boundary ∧
      m'.events = m.events ∧
      m'.nativeSessions = upsert NativeSessionRow.key relinked
        (retireSessions m.nativeSessions run.workstreamId run.agent identity.asStr now)
        (linkedRow m run identity.asStr now) ∧
      m'.runs = update (fun r => r.id = run.id) (linkedRun m run identity.asStr now) m.runs := by
  unfold linkNativeSessionInTransaction at h
  cases hfind : m.runs.find? fun r => r.id = runId && r.state = .active with
  | none =>
    rw [hfind] at h
    cases h
  | some run =>
    simp only [hfind] at h
    have hmem := mem_of_find?_eq_some hfind
    have hfound := find?_some hfind
    rw [Bool.and_eq_true, decide_eq_true_eq, decide_eq_true_eq] at hfound
    by_cases hrefused : (run.agent ≠ agent || (run.scopeById && foreignSession E m run identity.asStr)
        || !admitsSession m run identity.asStr boundary) = true
    · rw [if_pos hrefused] at h
      cases h
    rw [if_neg hrefused, Option.some.injEq] at h
    rw [Bool.not_eq_true, Bool.or_eq_false_iff, Bool.or_eq_false_iff] at hrefused
    obtain ⟨⟨hagent, -⟩, hadmits⟩ := hrefused
    rw [decide_eq_false_iff_not, not_not] at hagent
    rw [Bool.not_eq_false'] at hadmits
    subst hagent
    subst h
    refine ⟨run, hmem, hfound.2, hfound.1, hadmits, rfl, ?_, ?_⟩
    · simp only [deliveryCursor_retire]
      rfl
    · simp only [deliveryCursor_retire, hfound.1]
      rfl

def deliveredSessions (m : Tables) (run : RunRow) (now : ℤ) : List NativeSessionRow :=
  update (fun n => n.workstreamId = run.workstreamId && n.agent = run.agent
      && run.nativeSessionId = some n.nativeSessionId)
    (fun n => { n with
      deliveryCursor := max n.deliveryCursor run.syncThrough
      updatedAt := now }) m.nativeSessions

lemma acceptContext_cases (m : Tables) (runId : RunId) (requireUndelivered : Bool) (now : ℤ) :
    (acceptContext m runId requireUndelivered now).2 = m ∨
      ∃ run ∈ m.runs, run.state = .active ∧ run.id = runId ∧
        (acceptContext m runId requireUndelivered now).1 ∧
        (acceptContext m runId requireUndelivered now).2 = { m with
            runs := update (fun r => r.id = run.id) (fun r => { r with
                contextDelivered := true
                leaseExpiresAt := now + leaseMicros }) m.runs
            nativeSessions := deliveredSessions m run now } := by
  unfold acceptContext
  cases hfind : m.runs.find? fun r => r.id = runId && r.state = .active
      && (!requireUndelivered || !r.contextDelivered) with
  | none => exact .inl rfl
  | some run =>
    have hmem := mem_of_find?_eq_some hfind
    have hfound := find?_some hfind
    rw [Bool.and_eq_true, Bool.and_eq_true, decide_eq_true_eq, decide_eq_true_eq] at hfound
    obtain ⟨⟨rfl, hactive⟩, -⟩ := hfound
    exact .inr ⟨run, hmem, hactive, rfl, rfl, rfl⟩

/-! ### Imports -/

theorem validate_ok {id : String} :
    validate E id = .ok identity ↔ identity.asStr = id := by
  unfold validate NativeSessionIdentity.parse
  constructor
  · intro h
    by_cases hid : isIdentity E.builtin id
    · simp only [dif_pos hid, Except.ok.injEq] at h
      rw [← h]
    · simp only [dif_neg hid] at h
      cases h
  · rintro rfl
    simp only [dif_pos identity.accepted]

lemma mapM_validate_ok {id : Option String} {identity : Option (NativeSessionIdentity E.builtin)} :
    id.mapM (validate E) = .ok identity ↔ identity.map (·.asStr) = id := by
  cases id with
  | none =>
    rw [Option.mapM_none, pure_ok, Option.map_eq_none_iff]
    exact eq_comm
  | some id =>
    rw [Option.mapM_some]
    constructor
    · intro h
      obtain ⟨x, hx, rfl⟩ := map_ok.mp h
      rw [Option.map_some, validate_ok.mp hx]
    · intro h
      obtain ⟨x, rfl, hx⟩ := Option.map_eq_some_iff.mp h
      exact map_ok.mpr ⟨x, validate_ok.mpr hx, rfl⟩

lemma identities_ok :
    (events.mapM fun event => validate E event.nativeSessionId) = .ok ids ↔
      ids.map (·.asStr) = events.map (·.nativeSessionId) := by
  induction events generalizing ids with
  | nil =>
    rw [mapM_nil, pure_ok, map_nil, map_eq_nil_iff]
    exact eq_comm
  | cons event events ih =>
    rw [mapM_cons]
    constructor
    · intro h
      obtain ⟨id, hid, h⟩ := bind_ok.mp h
      obtain ⟨rest, hrest, h⟩ := bind_ok.mp h
      rw [pure_ok] at h
      rw [← h, map_cons, map_cons, validate_ok.mp hid, ih.mp hrest]
    · intro h
      cases ids with
      | nil => cases h
      | cons id rest =>
        rw [map_cons, map_cons, List.cons.injEq] at h
        exact bind_ok.mpr ⟨id, validate_ok.mpr h.1, bind_ok.mpr ⟨rest, ih.mpr h.2, rfl⟩⟩

def FinishWorkstreamRun.session (input : FinishWorkstreamRun) (run : RunRow) : Option String :=
  input.nativeSessionId <|> run.nativeSessionId

variable (E) in
def importEvents (input : FinishWorkstreamRun) (run : RunRow) (native : Option String) (now : ℤ)
    (acc : Import) (events : List NewWorkstreamEvent) : Except RunError Import :=
  events.foldlM (fun acc event => importEvent E input run native now acc event
    event.nativeSessionId) acc

lemma importEvents_zip {native : Option String}
    (h : ids.map (·.asStr) = events.map (·.nativeSessionId)) (acc : Import) :
    (events.zip ids).foldlM
      (fun acc (event, identity) => importEvent E input run native now acc event identity.asStr)
        acc = importEvents E input run native now acc events := by
  induction events generalizing ids acc with
  | nil => rfl
  | cons event events ih =>
    cases ids with
    | nil => cases h
    | cons id rest =>
      rw [map_cons, map_cons, List.cons.injEq] at h
      rw [zip_cons_cons, foldlM_cons, importEvents, foldlM_cons, ← h.1]
      exact congrArg _ (funext fun acc => ih h.2 acc)

def Tables.importFrom (m : Tables) (stream : WorkstreamId) : Import :=
  ⟨latestSequence m.events stream, 0, m.events⟩

def knownThrough (run : RunRow) (latest : ℕ) : ℕ :=
  if run.contextDelivered || run.syncThrough ≤ run.syncAfter then latest else 0

variable (E) in
def IdentitiesHold (input : FinishWorkstreamRun) (run : RunRow) : Prop :=
  (∀ id ∈ input.session run, isIdentity E.builtin id = true) ∧
    ∀ event ∈ input.events, isIdentity E.builtin event.nativeSessionId = true

def importedTables (m : Tables) (run : RunRow) (input : FinishWorkstreamRun) (now : ℤ)
    (done : Import) : Tables :=
  { m with
    events := done.events
    nativeSessions := closeSessions m.nativeSessions input run (input.session run)
      (knownThrough run done.latest) now
    runs := update (fun r => r.id = run.id) (closeRun input (input.session run) now) m.runs
    workstreams := update (fun w => w.id = run.workstreamId)
      (fun w => { w with updatedAt := now }) m.workstreams }

lemma exists_identities {texts : List String} (h : ∀ id ∈ texts, isIdentity E.builtin id = true) :
    ∃ ids : List (NativeSessionIdentity E.builtin), ids.map (·.asStr) = texts := by
  induction texts with
  | nil => exact ⟨[], rfl⟩
  | cons id texts ih =>
    obtain ⟨ids, rfl⟩ := ih fun x hx => h x (mem_cons_of_mem id hx)
    exact ⟨⟨id, h id mem_cons_self⟩ :: ids, rfl⟩

lemma importBatch_ok : importBatch E m run input now = .ok (res, m') ↔
      IdentitiesHold E input run ∧ ∃ done,
        importEvents E input run (input.session run) now (m.importFrom run.workstreamId)
          input.events = .ok done ∧
        res = ⟨done.imported, done.latest⟩ ∧ m' = importedTables m run input now done := by
  unfold importBatch
  constructor
  · intro h
    obtain ⟨identity, hidentity, h⟩ := bind_ok.mp h
    obtain ⟨ids, hids, h⟩ := bind_ok.mp h
    obtain ⟨done, hdone, h⟩ := bind_ok.mp h
    have hsession := mapM_validate_ok.mp hidentity
    have hsessions := identities_ok.mp hids
    simp only [pure_ok, Prod.mk.injEq] at h
    obtain ⟨rfl, rfl⟩ := h
    rw [importEvents_zip hsessions, hsession] at hdone
    refine ⟨⟨?_, ?_⟩, done, hdone, rfl, ?_⟩
    · intro id hid
      rw [FinishWorkstreamRun.session, ← hsession] at hid
      obtain ⟨x, -, rfl⟩ := Option.map_eq_some_iff.mp hid
      exact x.accepted
    · intro event hevent
      have hmem : event.nativeSessionId ∈ ids.map (·.asStr) :=
        hsessions ▸ mem_map_of_mem hevent
      obtain ⟨x, -, hx⟩ := mem_map.mp hmem
      rw [← hx]
      exact x.accepted
    · rw [hsession]
      rfl
  · rintro ⟨⟨hsession, hsessions⟩, done, hdone, rfl, rfl⟩
    obtain ⟨ids, hids⟩ : ∃ ids : List (NativeSessionIdentity E.builtin),
        ids.map (·.asStr) = input.events.map (·.nativeSessionId) := by
      refine exists_identities fun id hid => ?_
      obtain ⟨event, hevent, rfl⟩ := mem_map.mp hid
      exact hsessions event hevent
    obtain ⟨identity, hidentity⟩ : ∃ x : Option (NativeSessionIdentity E.builtin),
        x.map (·.asStr) = input.session run := by
      cases hs : input.session run with
      | none => exact ⟨none, rfl⟩
      | some id => exact ⟨some ⟨id, hsession id hs⟩, rfl⟩
    refine bind_ok.mpr ⟨identity, mapM_validate_ok.mpr hidentity, ?_⟩
    refine bind_ok.mpr ⟨ids, identities_ok.mpr hids, ?_⟩
    rw [importEvents_zip hids, hidentity]
    refine bind_ok.mpr ⟨done, hdone, ?_⟩
    rfl

def reopenedRuns (runs : List RunRow) (runId : RunId) (now : ℤ) : List RunRow :=
  update (fun r => r.id = runId && r.state = .expired)
    (fun r => { r with
      state := .active
      endedAt := none
      leaseExpiresAt := now + leaseMicros }) runs

lemma reopen_ok :
    reopen m run recoverExpired now = .ok m' ↔ (run.state = .active ∧ m' = m) ∨
      (run.state = .expired ∧ recoverExpired ∧ isSuperseded m.runs run = false ∧
        KeyUnique RunRow.id (reopenedRuns m.runs run.id now) ∧
        (activeStreams (reopenedRuns m.runs run.id now)).Nodup ∧
        m' = { m with runs := reopenedRuns m.runs run.id now }) := by
  unfold reopen
  cases hstate : run.state with
  | active =>
    simp only [reduceCtorEq, decide_false, Bool.false_and, Bool.false_eq_true, if_false, ne_eq,
      not_true_eq_false, Except.ok.injEq, true_and, false_and, or_false]
    exact eq_comm
  | finished => simp
  | expired =>
    cases hrec : recoverExpired with
    | false => simp
    | true =>
      cases hsup : isSuperseded m.runs run with
      | true => simp
      | false =>
        simp only [decide_true, Bool.and_self, if_true, Bool.false_eq_true, if_false, reduceCtorEq,
          false_and, false_or, true_and]
        rw [bind_ok]
        constructor
        · rintro ⟨runs, hruns, h⟩
          obtain ⟨rfl, hid, hnodup⟩ := checkedRuns_ok.mp hruns
          rw [pure_ok] at h
          exact ⟨hid, hnodup, h.symm⟩
        · rintro ⟨hid, hnodup, rfl⟩
          exact ⟨_, checkedRuns_ok.mpr ⟨rfl, hid, hnodup⟩, rfl⟩

lemma finishRunInner_ok {authority : ManagedRunAuthority} :
    finishRunInner E m authority input recoverExpired now = .ok (res, m') ↔
      m.authorizeRunMutation input.runId authority = .ok () ∧
      ∃ run, m.findRun input.runId = some run ∧ ((run.state = .finished ∧
            (recoverExpired → validateFinishedRecovery E m run input = .ok ()) ∧
            res = ⟨0, latestSequence m.events run.workstreamId⟩ ∧ m' = m) ∨
          (run.state ≠ .finished ∧ ∃ opened, reopen m run recoverExpired now = .ok opened ∧
            importBatch E opened run input now = .ok (res, m'))) := by
  unfold finishRunInner
  rw [bind_ok]
  constructor
  · rintro ⟨⟨⟩, hauth, h⟩
    refine ⟨hauth, ?_⟩
    cases hrun : m.findRun input.runId with
    | none =>
      rw [hrun] at h
      cases h
    | some run =>
      simp only [hrun] at h
      refine ⟨run, rfl, ?_⟩
      by_cases hfin : run.state = .finished
      · rw [if_pos hfin] at h
        left
        cases recoverExpired with
        | false =>
          simp only [Bool.false_eq_true, if_false, bind_ok, pure_ok, Prod.mk.injEq] at h
          obtain ⟨-, -, rfl, rfl⟩ := h
          exact ⟨hfin, by simp, rfl, rfl⟩
        | true =>
          simp only [if_true, bind_ok, pure_ok, Prod.mk.injEq] at h
          obtain ⟨⟨⟩, hvalid, rfl, rfl⟩ := h
          exact ⟨hfin, fun _ => hvalid, rfl, rfl⟩
      · rw [if_neg hfin] at h
        exact .inr ⟨hfin, bind_ok.mp h⟩
  · rintro ⟨hauth, run, hrun, h⟩
    refine ⟨(), hauth, ?_⟩
    simp only [hrun]
    rcases h with ⟨hfin, hvalid, rfl, rfl⟩ | ⟨hfin, h⟩
    · rw [if_pos hfin]
      cases recoverExpired with
      | false => rfl
      | true => exact bind_ok.mpr ⟨(), hvalid rfl, rfl⟩
    · rw [if_neg hfin]
      exact bind_ok.mpr h

variable (E) in
inductive Change (m : Tables) : Call → Tables → Prop
  /-- Nothing: it failed, was refused, or is about something else. -/
  | quiet {c : Call} {m' : Tables} (runs : m'.runs = m.runs)
      (natives : m'.nativeSessions = m.nativeSessions) (events : m'.events = m.events) :
      Change m c m'
  | opened {m' : Tables} (input : PrepareWorkstreamRun) (ownerUser : Option String)
      (forceUnlock : Bool) (newStream : WorkstreamId) (runId : RunId) (now : ℤ)
      (stream : WorkstreamId) (unlocked : List RunRow)
      (select : ∃ w streams, selectWorkstream m input newStream now = .ok (w, streams) ∧
        w.id = stream)
      (unlock : unlockBusy (expireStale m.runs now) stream ownerUser forceUnlock now = .ok unlocked)
      (ids : KeyUnique RunRow.id m'.runs) (one : (activeStreams m'.runs).Nodup)
      (runs : m'.runs = unlocked ++ [openedRun m input ownerUser stream runId now])
      (natives : m'.nativeSessions = m.nativeSessions) (events : m'.events = m.events) :
      Change m (.prepare input ownerUser forceUnlock newStream runId now) m'
  | renewed {m' : Tables} (runId : RunId) (now : ℤ) (eq : m' = (heartbeat m runId now).2) :
      Change m (.heartbeat runId now) m'
  | released {m' : Tables} (runId : RunId) (now : ℤ) (eq : m' = (cancelRun m runId now).2) :
      Change m (.cancel runId now) m'
  | linked {c : Call} {m' : Tables} (run : RunRow) (session : String)
      (boundary : ClaudeSessionBoundary) (now : ℤ) (mem : run ∈ m.runs)
      (active : run.state = .active) (admits : admitsSession m run session boundary = true)
      (runs : m'.runs = update (fun r => r.id = run.id) (linkedRun m run session now) m.runs)
      (natives : m'.nativeSessions = upsert NativeSessionRow.key relinked
        (retireSessions m.nativeSessions run.workstreamId run.agent session now)
        (linkedRow m run session now))
      (events : m'.events = m.events) : Change m c m'
  | accepted {m' : Tables} (run : RunRow) (requireUndelivered : Bool) (now : ℤ)
      (mem : run ∈ m.runs) (active : run.state = .active)
      (runs : m'.runs = update (fun r => r.id = run.id)
        (fun r => { r with
          contextDelivered := true
          leaseExpiresAt := now + leaseMicros }) m.runs)
      (natives : m'.nativeSessions = deliveredSessions m run now) (events : m'.events = m.events)
      (answer : (acceptContext m run.id requireUndelivered now).1 = true) :
      Change m (.accept run.id requireUndelivered now) m'
  | imported {m' : Tables} (authority : ManagedRunAuthority) (input : FinishWorkstreamRun)
      (recoverExpired : Bool) (now : ℤ) (run : RunRow) (reopened : Tables) (done : Import)
      (found : m.findRun input.runId = some run) (unfinished : run.state ≠ .finished)
      (reopen : reopen m run recoverExpired now = .ok reopened)
      (loop : importEvents E input run (input.session run) now
        (reopened.importFrom run.workstreamId) input.events = .ok done)
      (eq : m' = importedTables reopened run input now done) :
      Change m (.finish authority input recoverExpired now) m'

lemma linkInTransaction_change {c : Call} {agent : AgentKind}
    (h : linkNativeSessionInTransaction E m runId agent identity now boundary = some m') :
    Change E m c m' := by
  obtain ⟨run, hmem, hactive, -, hadmits, hevents, hnatives, hruns⟩ := linkInTransaction_some h
  exact .linked run identity.asStr boundary now hmem hactive hadmits hruns hnatives hevents

lemma link_change (runId : RunId) (agent : AgentKind) (session : String) :
    Change E m (.link runId agent session now) (linkNativeSession E m runId agent session now).2 := by
  unfold linkNativeSession
  cases NativeSessionIdentity.parse E.builtin session with
  | none => exact .quiet rfl rfl rfl
  | some identity =>
    cases hlink : linkNativeSessionInTransaction E m runId agent identity now .other with
    | none =>
      simp only [hlink]
      exact .quiet rfl rfl rfl
    | some m' =>
      simp only [hlink]
      exact linkInTransaction_change hlink

lemma linkOrAdopt_change (input : LinkOrAdoptManagedRunSession)
    (boundary : ClaudeSessionBoundary) : Change E m (.linkOrAdopt input boundary now)
      (linkOrAdoptNativeSession E m input boundary now).2 := by
  unfold linkOrAdoptNativeSession
  by_cases hblank : (isBlank input.nativeSessionId || isBlank input.cwd
      || input.ownerUser.any fun owner => !E.validOwner owner) = true
  · rw [if_pos hblank]
    exact .quiet rfl rfl rfl
  rw [if_neg hblank]
  cases NativeSessionIdentity.parse E.builtin input.nativeSessionId with
  | none => exact .quiet rfl rfl rfl
  | some identity =>
    by_cases hboundary : boundaryRefused m input boundary now
    · simp only [if_pos hboundary]
      exact .quiet rfl rfl rfl
    simp only [if_neg hboundary]
    cases selectRun m input now with
    | error answer => exact .quiet rfl rfl rfl
    | ok selected =>
      obtain ⟨runId, adopted⟩ := selected
      cases hlink : linkNativeSessionInTransaction E m runId input.agent identity now boundary with
      | none =>
        simp only [hlink]
        exact .quiet rfl rfl rfl
      | some m' =>
        simp only [hlink]
        exact linkInTransaction_change hlink

lemma linkInScope_change (input : LinkManagedRunSessionInScope) :
    Change E m (.linkInScope input now) (linkNativeSessionInScope E m input now).2 := by
  unfold linkNativeSessionInScope
  by_cases howner : (input.ownerUser.any fun owner => !E.validOwner owner)
  · rw [if_pos howner]
    exact .quiet rfl rfl rfl
  rw [if_neg howner]
  cases NativeSessionIdentity.parse E.builtin input.nativeSessionId with
  | none => exact .quiet rfl rfl rfl
  | some identity =>
    cases (readBoundary m input.runId).filter fun b => b.1.state = .active with
    | none => exact .quiet rfl rfl rfl
    | some held =>
      obtain ⟨run, w⟩ := held
      by_cases hcaller : (!admitsCaller run w input.workspaceId input.projectId none
          input.ownerUser) = true
      · simp only [if_pos hcaller]
        exact .quiet rfl rfl rfl
      simp only [if_neg hcaller]
      cases hlink : linkNativeSessionInTransaction E m input.runId input.agent identity now
          .other with
      | none =>
        simp only
        exact .quiet rfl rfl rfl
      | some m' =>
        simp only
        exact linkInTransaction_change hlink

lemma rename_change (input : RenameWorkstream) :
    Change E m (.rename input) (committed m (rename m input)) := by
  cases hrename : rename m input with
  | error e => exact .quiet rfl rfl rfl
  | ok out =>
    obtain ⟨answer, m'⟩ := out
    unfold rename at hrename
    obtain ⟨⟨⟩, -, hrename⟩ := bind_ok.mp hrename
    obtain ⟨found, -, hrename⟩ := bind_ok.mp hrename
    by_cases hsame : found.name = String.ofList (trim input.newName.toList)
    · simp only [if_pos hsame, pure_ok, Prod.mk.injEq] at hrename
      obtain ⟨-, rfl⟩ := hrename
      exact .quiet rfl rfl rfl
    · simp only [if_neg hsame] at hrename
      split at hrename
      · cases hrename
      · simp only [pure_ok, Prod.mk.injEq] at hrename
        obtain ⟨-, rfl⟩ := hrename
        exact .quiet rfl rfl rfl

lemma step_change (m : Tables) (c : Call) : Change E m c (step E m c) := by
  cases c with
  | prepare input ownerUser forceUnlock newStream runId now =>
    rw [step]
    cases hprep : prepareRun E m input ownerUser forceUnlock newStream runId now with
    | error e => exact .quiet rfl rfl rfl
    | ok out =>
      obtain ⟨p, m'⟩ := out
      obtain ⟨stream, unlocked, hselect, hunlock, hid, hnodup, hruns, hnatives, hevents⟩ :=
        prepareRun_ok hprep
      exact .opened input ownerUser forceUnlock newStream runId now stream unlocked hselect hunlock
        (hruns ▸ hid) (hruns ▸ hnodup) hruns hnatives hevents
  | heartbeat runId now => exact .renewed runId now rfl
  | cancel runId now => exact .released runId now rfl
  | link runId agent session now => exact link_change runId agent session
  | linkOrAdopt input boundary now => exact linkOrAdopt_change input boundary
  | linkInScope input now => exact linkInScope_change input
  | accept runId requireUndelivered now =>
    rw [step]
    rcases acceptContext_cases m runId requireUndelivered now with
      heq | ⟨run, hmem, hactive, rfl, hanswer, heq⟩
    · rw [heq]
      exact .quiet rfl rfl rfl
    · rw [heq]
      exact .accepted run requireUndelivered now hmem hactive rfl rfl rfl hanswer
  | finish authority input recoverExpired now =>
    rw [step]
    cases hfin : finishRunInner E m authority input recoverExpired now with
    | error e => exact .quiet rfl rfl rfl
    | ok out =>
      obtain ⟨res, m'⟩ := out
      obtain ⟨-, run, hrun, h⟩ := finishRunInner_ok.mp hfin
      rcases h with ⟨-, -, -, rfl⟩ | ⟨hstate, reopened, hreopen, himport⟩
      · exact .quiet rfl rfl rfl
      · obtain ⟨-, done, hloop, -, rfl⟩ := importBatch_ok.mp himport
        exact .imported authority input recoverExpired now run reopened done hrun hstate hreopen
          hloop rfl
  | rename input => exact rename_change input
  | elsewhere registry users sessions => exact .quiet rfl rfl rfl

/-! ### The single run -/

def RunRow.origin (r : RunRow) :
    RunId × WorkstreamId × AgentKind × Option String × ℕ × ℤ × Bool :=
  (r.id, r.workstreamId, r.agent, r.ownerUser, r.syncThrough, r.startedAt, r.scopeById)

structure RunStep (r r' : RunRow) : Prop where
  origin : r'.origin = r.origin
  final : r.state = .finished → r' = r

lemma RunStep.refl (r : RunRow) : RunStep r r := ⟨rfl, fun _ => rfl⟩

lemma RunStep.trans {r s t : RunRow} (h : RunStep r s) (h' : RunStep s t) : RunStep r t := by
  refine ⟨h'.origin.trans h.origin, fun hfin => ?_⟩
  obtain rfl := h.final hfin
  exact h'.final hfin

lemma RunStep.id (h : RunStep r r') : r'.id = r.id := congrArg (·.1) h.origin

lemma RunStep.stream (h : RunStep r r') : r'.workstreamId = r.workstreamId :=
  congrArg (·.2.1) h.origin

lemma RunStep.agent (h : RunStep r r') : r'.agent = r.agent :=
  congrArg (·.2.2.1) h.origin

lemma RunStep.syncThrough (h : RunStep r r') : r'.syncThrough = r.syncThrough :=
  congrArg (·.2.2.2.2.1) h.origin

lemma RunStep.startedAt (h : RunStep r r') : r'.startedAt = r.startedAt :=
  congrArg (·.2.2.2.2.2.1) h.origin

lemma closeRun_origin (input : FinishWorkstreamRun) (native : Option String) (now : ℤ)
    (r : RunRow) :
    (closeRun input native now r).origin = r.origin := by
  unfold closeRun
  cases input.complete <;> rfl

lemma unfinished_of_id (hid : KeyUnique RunRow.id m.runs) (hrun : run ∈ m.runs)
    (hstate : run.state ≠ .finished) {r : RunRow} (hr : r ∈ m.runs)
    (heq : decide (r.id = run.id)) : r.state ≠ .finished := by
  rw [decide_eq_true_eq] at heq
  rwa [hid.eq hr hrun heq]

lemma mem_of_findRun (h : m.findRun runId = some run) :
    run ∈ m.runs ∧ run.id = runId :=
  find?_key_some h

structure RowByRow (runs runs' : List RunRow) (f : RunRow → RunRow) : Prop where
  eq : runs' = runs.map f
  step : ∀ r ∈ runs, RunStep r (f r)

lemma RowByRow.trans {runs runs' runs'' : List RunRow} {f g : RunRow → RunRow}
    (h : RowByRow runs runs' f) (h' : RowByRow runs' runs'' g) : RowByRow runs runs'' (g ∘ f) := by
  refine ⟨?_, fun r hr => ?_⟩
  · rw [h'.eq, h.eq, map_map]
  · exact (h.step r hr).trans (h'.step (f r) (h.eq ▸ mem_map_of_mem hr))

lemma rowByRow_update {p : RunRow → Bool} {f : RunRow → RunRow}
    (heq : runs' = update p f runs) (horigin : ∀ r, (f r).origin = r.origin)
    (hunfinished : ∀ r ∈ runs, p r = true → r.state ≠ .finished) : ∃ g, RowByRow runs runs' g := by
  refine ⟨fun r => if p r then f r else r, heq, fun r hr => ?_⟩
  by_cases hp : p r
  · rw [if_pos hp]
    exact ⟨horigin r, fun hfin => absurd hfin (hunfinished r hr hp)⟩
  · rw [if_neg hp]
    exact .refl r

lemma unfinished_of_state {r : RunRow} {b : Bool} (state : RunState)
    (hp : (b && r.state = state)) (hstate : state ≠ .finished) : r.state ≠ .finished := by
  rw [Bool.and_eq_true, decide_eq_true_eq] at hp
  rw [hp.2]
  exact hstate

lemma rowByRow_release (runs : List RunRow) (runId : RunId) (now : ℤ) :
    ∃ f, RowByRow runs (release runs runId now) f :=
  rowByRow_update rfl (fun _ => rfl) fun _ _ hp => unfinished_of_state .active hp (by simp)

lemma rowByRow_expireStale (runs : List RunRow) (now : ℤ) :
    ∃ f, RowByRow runs (expireStale runs now) f := by
  refine rowByRow_update rfl (fun _ => rfl) fun r _ hp => ?_
  rw [Bool.and_eq_true, decide_eq_true_eq] at hp
  simp [hp.1]

lemma unlockBusy_rows {unlocked : List RunRow} {stream : WorkstreamId}
    (h : unlockBusy (expireStale m.runs now) stream ownerUser forceUnlock now = .ok unlocked) :
    ∃ f, RowByRow m.runs unlocked f := by
  obtain ⟨f, hf⟩ := rowByRow_expireStale m.runs now
  rcases unlockBusy_ok h with rfl | ⟨runId, rfl⟩
  · exact ⟨f, hf⟩
  · obtain ⟨g, hg⟩ := rowByRow_release (expireStale m.runs now) runId now
    exact ⟨g ∘ f, hf.trans hg⟩

lemma reopen_rows (h : reopen m run recoverExpired now = .ok reopened) :
    ∃ f, RowByRow m.runs reopened.runs f := by
  rcases reopen_ok.mp h with ⟨-, rfl⟩ | ⟨-, -, -, -, -, rfl⟩
  · exact ⟨id, ⟨(map_id _).symm, fun r _ => .refl r⟩⟩
  · exact rowByRow_update rfl (fun _ => rfl) fun _ _ hp => unfinished_of_state .expired hp (by simp)

lemma keyUnique_rows {f : RunRow → RunRow} (h : RowByRow runs runs' f)
    (hid : KeyUnique RunRow.id runs) : KeyUnique RunRow.id runs' := by
  have hmap : runs'.map RunRow.id = runs.map RunRow.id := by
    rw [h.eq, map_map]
    exact map_congr_left fun r hr => (h.step r hr).id
  rw [KeyUnique, hmap]
  exact hid

lemma reopen_unfinished
    (hid : KeyUnique RunRow.id m.runs) (hrun : run ∈ m.runs) (hstate : run.state ≠ .finished)
    (h : reopen m run recoverExpired now = .ok reopened) :
    ∀ r ∈ reopened.runs, decide (r.id = run.id) = true → r.state ≠ .finished := by
  intro r hr heq
  rcases reopen_ok.mp h with ⟨-, rfl⟩ | ⟨-, -, -, -, -, rfl⟩
  · exact unfinished_of_id hid hrun hstate hr heq
  · obtain ⟨a, ha, rfl⟩ := mem_update.mp hr
    by_cases hp : (a.id = run.id && a.state = .expired)
    · rw [if_pos hp]
      simp
    · rw [if_neg hp] at heq ⊢
      exact unfinished_of_id hid hrun hstate ha heq

lemma importBatch_rows {done : Import} (hid : KeyUnique RunRow.id m.runs)
    (hrun : run ∈ m.runs) (hstate : run.state ≠ .finished)
    (h : reopen m run recoverExpired now = .ok reopened) :
    ∃ f, RowByRow m.runs (importedTables reopened run input now done).runs f := by
  obtain ⟨f, hf⟩ := reopen_rows h
  obtain ⟨g, hg⟩ := rowByRow_update (rfl : (importedTables reopened run input now done).runs = _)
    (closeRun_origin input (input.session run) now) (reopen_unfinished hid hrun hstate h)
  exact ⟨g ∘ f, hf.trans hg⟩

/-- The `prepare` that made the run. -/
def Opens (m : Tables) (c : Call) (run : RunRow) : Prop :=
  ∃ input ownerUser forceUnlock newStream runId now w streams,
    c = .prepare input ownerUser forceUnlock newStream runId now ∧
      selectWorkstream m input newStream now = .ok (w, streams) ∧
      run = openedRun m input ownerUser w.id runId now

lemma step_runs (hid : KeyUnique RunRow.id m.runs) (c : Call) : ∃ f rows,
    RowByRow m.runs rows f ∧ ((step E m c).runs = rows ∨
      ∃ run, Opens m c run ∧ (step E m c).runs = rows ++ [run] ∧
        KeyUnique RunRow.id (step E m c).runs) := by
  have hfixed : RowByRow m.runs m.runs id := ⟨(map_id _).symm, fun r _ => .refl r⟩
  cases step_change (E := E) m c with
  | quiet runs natives events => exact ⟨id, m.runs, hfixed, .inl runs⟩
  | opened input ownerUser forceUnlock newStream runId now stream unlocked select unlock ids one
      runs natives events =>
    obtain ⟨f, hf⟩ := unlockBusy_rows unlock
    obtain ⟨w, streams, hselect, rfl⟩ := select
    refine ⟨f, unlocked, hf, .inr ⟨_, ?_, runs, ids⟩⟩
    exact ⟨input, ownerUser, forceUnlock, newStream, runId, now, w, streams, rfl, hselect, rfl⟩
  | renewed runId now eq =>
    obtain ⟨f, hf⟩ := rowByRow_update (congrArg Tables.runs eq) (fun _ => rfl)
      fun _ _ hp => unfinished_of_state .active hp (by simp)
    exact ⟨f, _, hf, .inl rfl⟩
  | released runId now eq =>
    obtain ⟨f, hf⟩ := rowByRow_release m.runs runId now
    exact ⟨f, _, hf, .inl (congrArg Tables.runs eq)⟩
  | linked run session boundary now mem active admits runs natives events
  | accepted run requireUndelivered now mem active runs natives events answer =>
    obtain ⟨f, hf⟩ := rowByRow_update runs (fun _ => rfl) fun r hr =>
      unfinished_of_id hid mem (by simp [active]) hr
    exact ⟨f, _, hf, .inl rfl⟩
  | imported authority input recoverExpired now run reopened done found unfinished reopen loop eq =>
    obtain ⟨f, hf⟩ := importBatch_rows hid (mem_of_findRun found).1 unfinished reopen
    exact ⟨f, _, hf, .inl (congrArg Tables.runs eq)⟩

lemma step_ids (hid : KeyUnique RunRow.id m.runs) (c : Call) :
    KeyUnique RunRow.id (step E m c).runs := by
  obtain ⟨f, rows, hrows, h | ⟨run, -, -, h⟩⟩ := step_runs (E := E) hid c
  · rw [h]
    exact keyUnique_rows hrows hid
  · exact h

lemma exec_ids (hid : KeyUnique RunRow.id m.runs) (calls : List Call) :
    KeyUnique RunRow.id (exec (step E) m calls).runs :=
  exec_invariant (I := fun m : Tables => KeyUnique RunRow.id m.runs) (fun _ c h => step_ids h c) hid calls

lemma step_finished (hid : KeyUnique RunRow.id m.runs) {r : RunRow} (hr : r ∈ m.runs)
    (hfin : r.state = .finished) (c : Call) : r ∈ (step E m c).runs := by
  obtain ⟨f, rows, hrows, h⟩ := step_runs (E := E) hid c
  have hmem : r ∈ rows := by
    rw [hrows.eq, mem_map]
    exact ⟨r, hr, (hrows.step r hr).final hfin⟩
  rcases h with h | ⟨run, -, h, -⟩
  · exact h ▸ hmem
  · rw [h]
    exact mem_append_left _ hmem

lemma exec_finished (hid : KeyUnique RunRow.id m.runs) {r : RunRow} (hr : r ∈ m.runs)
    (hfin : r.state = .finished) (calls : List Call) : r ∈ (exec (step E) m calls).runs :=
  (exec_invariant (I := fun m : Tables => KeyUnique RunRow.id m.runs ∧ r ∈ m.runs)
    (fun _ c h => ⟨step_ids h.1 c, step_finished h.1 h.2 hfin c⟩) ⟨hid, hr⟩ calls).2

end Workstreams
