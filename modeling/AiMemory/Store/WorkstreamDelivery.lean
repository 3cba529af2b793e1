/-
What a native session has been shown of the ledger.

A run is assigned the events after its session's cursor, up to the end of the ledger
when it was prepared.  The cursor moves when the packet is accepted, and to the end of
the ledger when the run is closed.  A run may change its session on the way: at the
boundaries Claude documents, and when a batch names another one.
-/
import AiMemory.Store.WorkstreamLedger
import AiMemory.Store.WorkstreamRuns

open Table Runs List

namespace Workstreams

open Store Projects
open Option (map_some some.injEq map_eq_some_iff)
open Function (comp_apply)

variable {E : Env} {m m' : Tables} {now : ℤ} {run : RunRow}

inductive Reader
  | session (stream : WorkstreamId) (agent : AgentKind) (session : String)
  | unlinked (run : RunId)
  deriving DecidableEq

def RunRow.reader (r : RunRow) : Reader :=
  match r.nativeSessionId with
  | some session => .session r.workstreamId r.agent session
  | none => .unlinked r.id

variable {r : RunRow} {natives : List NativeSessionRow} {runs : List RunRow}

lemma reader_of_session {session : String} (h : r.nativeSessionId = some session) :
    r.reader = .session r.workstreamId r.agent session := by
  rw [RunRow.reader, h]

lemma reader_eq_session {stream : WorkstreamId} {agent : AgentKind}
    {session : String} : r.reader = .session stream agent session ↔
      r.workstreamId = stream ∧ r.agent = agent ∧ r.nativeSessionId = some session := by
  unfold RunRow.reader
  cases hnative : r.nativeSessionId with
  | none => simp
  | some held => simp

/-! ### Cursors after a write -/

variable {stream : WorkstreamId} {agent : AgentKind} {session : String}

lemma deliveryCursor_upsert {merge : NativeSessionRow → NativeSessionRow → NativeSessionRow}
    {new : NativeSessionRow} (hkey : ∀ n, (merge n new).key = n.key)
    (hmax : ∀ n, (merge n new).deliveryCursor = max n.deliveryCursor new.deliveryCursor) :
    deliveryCursor (upsert NativeSessionRow.key merge natives new) stream agent session =
      if (stream, agent, session) = new.key then
        some (max ((deliveryCursor natives stream agent session).getD 0) new.deliveryCursor)
      else deliveryCursor natives stream agent session := by
  unfold deliveryCursor
  rw [find?_upsert hkey]
  by_cases hnew : (stream, agent, session) = new.key
  · rw [if_pos hnew, if_pos hnew]
    cases natives.find? fun n => n.key = (stream, agent, session) with
    | none => simp
    | some n => simp [hmax]
  · rw [if_neg hnew, if_neg hnew]

lemma deliveryCursor_linked (m : Tables) (run : RunRow) (linked : String) :
    deliveryCursor (upsert NativeSessionRow.key relinked
        (retireSessions m.nativeSessions run.workstreamId run.agent linked now)
        (linkedRow m run linked now)) stream agent session =
      if (stream, agent, session) = (run.workstreamId, run.agent, linked) then
        some (max ((deliveryCursor m.nativeSessions stream agent session).getD 0)
          (initialDelivery m run linked))
      else deliveryCursor m.nativeSessions stream agent session := by
  rw [deliveryCursor_upsert (fun _ => rfl) fun _ => rfl, deliveryCursor_retire]
  rfl

lemma deliveryCursor_delivered (m : Tables) (run : RunRow) :
    deliveryCursor (deliveredSessions m run now) stream agent session =
      (deliveryCursor m.nativeSessions stream agent session).map fun cursor =>
        if run.reader = .session stream agent session then max cursor run.syncThrough
        else cursor := by
  unfold deliveryCursor deliveredSessions
  rw [find?_update, Option.map_map, Option.map_map]
  · cases hfind : m.nativeSessions.find? fun n => n.key = (stream, agent, session) with
    | none => rfl
    | some n =>
      obtain ⟨-, hkey⟩ := find?_key_some hfind
      obtain ⟨rfl, rfl, rfl⟩ : n.workstreamId = stream ∧ n.agent = agent ∧
          n.nativeSessionId = session := by
        simpa [NativeSessionRow.key] using hkey
      rw [map_some, map_some, comp_apply, comp_apply]
      by_cases hown : run.reader = .session n.workstreamId n.agent n.nativeSessionId
      · obtain ⟨hstream, hagent, hnative⟩ := reader_eq_session.mp hown
        rw [if_pos hown, if_pos (by simp [hstream, hagent, hnative])]
      · rw [if_neg hown, if_neg]
        intro hmatch
        rw [Bool.and_eq_true, Bool.and_eq_true, decide_eq_true_eq, decide_eq_true_eq,
          decide_eq_true_eq] at hmatch
        exact hown (reader_eq_session.mpr ⟨hmatch.1.1.symm, hmatch.1.2.symm, hmatch.2⟩)
  · exact fun _ => rfl

lemma deliveryCursor_close {input : FinishWorkstreamRun} {native : Option String} {known : ℕ} :
    deliveryCursor (closeSessions natives input run native known now) stream agent session =
      if input.complete = true ∧ run.workstreamId = stream ∧ run.agent = agent ∧
          native = some session then
        some (max ((deliveryCursor natives stream agent session).getD 0) known)
      else deliveryCursor natives stream agent session := by
  unfold closeSessions
  cases native with
  | none => simp
  | some held =>
    by_cases hcomplete : input.complete
    · simp only [hcomplete, if_true, true_and, some.injEq]
      rw [deliveryCursor_upsert (fun _ => rfl) fun _ => rfl, deliveryCursor_retire]
      refine if_congr ?_ rfl rfl
      rw [NativeSessionRow.key, Prod.mk.injEq, Prod.mk.injEq]
      exact ⟨fun h => ⟨h.1.symm, h.2.1.symm, h.2.2.symm⟩, fun h => ⟨h.1.symm, h.2.1.symm, h.2.2.symm⟩⟩
    · simp [hcomplete]

lemma cursor_le_of_raised {cursor x : ℕ} {old new : Option ℕ} {p : Prop} [Decidable p]
    (hold : old = some cursor) (hnew : new = if p then some (max (old.getD 0) x) else old) :
    ∃ cursor', new = some cursor' ∧ cursor ≤ cursor' := by
  subst hold
  by_cases hp : p
  · rw [if_pos hp] at hnew
    exact ⟨_, hnew, le_max_left _ _⟩
  · rw [if_neg hp] at hnew
    exact ⟨cursor, hnew, le_rfl⟩

lemma reopen_natives {recoverExpired : Bool} {reopened : Tables}
    (h : reopen m run recoverExpired now = .ok reopened) :
    reopened.nativeSessions = m.nativeSessions := by
  rcases reopen_ok.mp h with ⟨-, rfl⟩ | ⟨-, -, -, -, -, rfl⟩
  · rfl
  · rfl

lemma step_cursor_le (m : Tables) (c : Call) {cursor : ℕ}
    (h : deliveryCursor m.nativeSessions stream agent session = some cursor) :
    ∃ cursor', deliveryCursor (step E m c).nativeSessions stream agent session = some cursor' ∧
      cursor ≤ cursor' := by
  cases step_change (E := E) m c with
  | quiet runs natives events => exact ⟨cursor, natives ▸ h, le_rfl⟩
  | opened input ownerUser forceUnlock newStream runId now stream unlocked select unlock ids one
      runs natives events => exact ⟨cursor, natives ▸ h, le_rfl⟩
  | renewed runId now eq | released runId now eq => exact ⟨cursor, eq ▸ h, le_rfl⟩
  | linked run linked boundary now mem active admits runs natives events =>
    rw [natives]
    exact cursor_le_of_raised h (deliveryCursor_linked m run linked)
  | accepted run requireUndelivered now mem active runs natives events answer =>
    rw [natives, deliveryCursor_delivered, h, map_some]
    refine ⟨_, rfl, ?_⟩
    split
    · exact le_max_left _ _
    · exact le_rfl
  | imported authority input recoverExpired now run reopened done found unfinished reopen loop eq =>
    rw [← reopen_natives reopen] at h
    rw [eq]
    exact cursor_le_of_raised h deliveryCursor_close

lemma exec_cursor_le (m : Tables) (calls : List Call) {cursor : ℕ}
    (h : deliveryCursor m.nativeSessions stream agent session = some cursor) :
    ∃ cursor', deliveryCursor (exec (step E) m calls).nativeSessions stream agent session =
      some cursor' ∧ cursor ≤ cursor' := by
  refine exec_invariant (I := fun t : Tables => ∃ cursor',
    deliveryCursor t.nativeSessions stream agent session = some cursor' ∧ cursor ≤ cursor')
    (fun t c ht => ?_) ⟨cursor, h, le_rfl⟩ calls
  obtain ⟨before, hbefore, hle⟩ := ht
  obtain ⟨after, hafter, hle'⟩ := step_cursor_le (E := E) t c hbefore
  exact ⟨after, hafter, hle.trans hle'⟩

lemma retire_keys (h : KeyUnique NativeSessionRow.key natives) :
    KeyUnique NativeSessionRow.key (retireSessions natives stream agent session now) :=
  h.update fun _ => rfl

lemma step_nativeKeys (h : KeyUnique NativeSessionRow.key m.nativeSessions) (c : Call) :
    KeyUnique NativeSessionRow.key (step E m c).nativeSessions := by
  cases step_change (E := E) m c with
  | quiet runs natives events => exact natives ▸ h
  | opened input ownerUser forceUnlock newStream runId now stream unlocked select unlock ids one
      runs natives events => exact natives ▸ h
  | renewed runId now eq | released runId now eq => exact eq ▸ h
  | linked run linked boundary now mem active admits runs natives events =>
    rw [natives]
    refine (retire_keys h).upsert ?_ _
    exact fun _ _ => rfl
  | accepted run requireUndelivered now mem active runs natives events answer =>
    rw [natives]
    exact h.update fun _ => rfl
  | imported authority input recoverExpired now run reopened done found unfinished reopen loop eq =>
    rw [← reopen_natives reopen] at h
    rw [eq]
    change KeyUnique NativeSessionRow.key (closeSessions _ _ _ _ _ _)
    unfold closeSessions
    cases input.session run with
    | none => exact h
    | some session =>
      cases input.complete with
      | false => exact h
      | true =>
        refine (retire_keys h).upsert ?_ _
        exact fun _ _ => rfl

/-! ### Who was shown what -/

inductive Deed
  /-- A run whose packet was accepted worked for one reader and works for another. -/
  | moved (old new : Reader)
  /-- A packet of the events after one number, up to another, was accepted. -/
  | shown (reader : Reader) (after through : ℕ)
  /-- An event was imported from the reader's transcript. -/
  | imported (reader : Reader) (sequence : ℕ)

def moves (m m' : Tables) : List Deed :=
  (m.runs.filter fun r => r.contextDelivered).filterMap fun r =>
    ((m'.findRun r.id).filter fun r' => r'.reader ≠ r.reader).map
      fun r' => .moved r.reader r'.reader

def shows (m : Tables) : Call → List Deed
  | .accept runId requireUndelivered now =>
    if (acceptContext m runId requireUndelivered now).1 then
      (m.findRun runId).toList.map fun r => .shown r.reader r.syncAfter r.syncThrough
    else []
  | _ => []

def EventRow.source (e : EventRow) : Reader :=
  .session e.workstreamId e.agent e.nativeSessionId

def imports (m m' : Tables) : Call → List Deed
  | .finish _ input _ _ => (m'.findRun input.runId).toList.flatMap fun r =>
      (m'.events.drop m.events.length).flatMap fun e =>
        [.imported e.source e.sequence, .imported r.reader e.sequence]
  | _ => []

variable (E) in
def deeds (m : Tables) (c : Call) : List Deed :=
  moves m (step E m c) ++ shows m c ++ imports m (step E m c) c

variable (E) in
def history (m : Tables) (calls : List Call) : List Deed :=
  (outputs (step E) (deeds E) m calls).flatten

/-- What the readers know after a deed.  A run that changes its reader once its packet was
accepted brings along what the reader before had seen. -/
def record (saw : Reader → ℕ → Prop) : Deed → Reader → ℕ → Prop
  | .moved old new, x, n => saw x n ∨ (x = new ∧ saw old n)
  | .shown y after through, x, n => saw x n ∨ (x = y ∧ after < n ∧ n ≤ through)
  | .imported y sequence, x, n => saw x n ∨ (x = y ∧ n = sequence)

def Saw (log : List Deed) : Reader → ℕ → Prop := log.foldl record fun _ _ => False

section Record

variable {saw : Reader → ℕ → Prop} {log : List Deed} {x y : Reader} {n : ℕ}

lemma record_of_saw (d : Deed) (h : saw x n) : record saw d x n := by
  cases d with
  | moved old new | shown reader after through | imported reader sequence => exact .inl h

lemma foldl_of_saw (log : List Deed) (h : saw x n) : log.foldl record saw x n := by
  induction log generalizing saw with
  | nil => exact h
  | cons d log ih => exact ih (record_of_saw d h)

lemma foldl_of_mem {d : Deed} (hd : d ∈ log)
    (h : ∀ saw', (∀ x n, saw x n → saw' x n) → record saw' d y n) :
    log.foldl record saw y n := by
  obtain ⟨before, after, rfl⟩ := append_of_mem hd
  rw [foldl_append, foldl_cons]
  exact foldl_of_saw after (h _ fun _ _ => foldl_of_saw before)

lemma foldl_moved (hd : .moved x y ∈ log) (h : saw x n) : log.foldl record saw y n :=
  foldl_of_mem hd fun _ hmono => .inr ⟨rfl, hmono _ _ h⟩

lemma foldl_shown {after through : ℕ} (hd : .shown y after through ∈ log) (hafter : after < n)
    (hthrough : n ≤ through) : log.foldl record saw y n :=
  foldl_of_mem hd fun _ _ => .inr ⟨rfl, hafter, hthrough⟩

lemma foldl_imported (hd : .imported y n ∈ log) : log.foldl record saw y n :=
  foldl_of_mem hd fun _ _ => .inr ⟨rfl, rfl⟩

end Record

lemma deeds_knows {saw : Reader → ℕ → Prop} {c : Call} {r r' : RunRow} {n : ℕ}
    (hids : KeyUnique RunRow.id (step E m c).runs) (hr : r ∈ m.runs)
    (hr' : r' ∈ (step E m c).runs) (hid : r'.id = r.id)
    (hkept : r'.reader = r.reader ∨ r.contextDelivered) (h : saw r.reader n) :
    (deeds E m c).foldl record saw r'.reader n := by
  by_cases hsame : r'.reader = r.reader
  · rw [hsame]
    exact foldl_of_saw _ h
  · have hdelivered := hkept.resolve_left hsame
    have hfound : (step E m c).findRun r.id = some r' := hids.find?_eq_some.mpr ⟨hr', hid⟩
    have hmove : .moved r.reader r'.reader ∈ moves m (step E m c) := by
      refine mem_filterMap.mpr ⟨r, mem_filter.mpr ⟨hr, hdelivered⟩, ?_⟩
      rw [hfound, Option.filter_some, if_pos (decide_eq_true hsame), map_some]
    exact foldl_moved (mem_append_left _ (mem_append_left _ hmove)) h

/-- A call that gives a run another session before its packet was accepted leaves no bound of
the session before in use: what the run starts after was delivered to the new session, and
what came since the run was prepared was imported from it. -/
def Rebased (E : Env) (m : Tables) (c : Call) : Prop :=
  ∀ r ∈ m.runs, r.contextDelivered = false → ∀ r' ∈ (step E m c).runs, r'.id = r.id →
    r'.reader ≠ r.reader → (r'.state = .finished → r.syncThrough ≤ r.syncAfter) →
    ∀ session ∈ r'.nativeSessionId,
      r'.syncAfter ≤ (deliveryCursor m.nativeSessions r.workstreamId r.agent session).getD 0 ∧
      ∀ e ∈ m.events, e.workstreamId = r.workstreamId → r.syncThrough < e.sequence →
        e.source = .session r.workstreamId r.agent session

instance (E : Env) (m : Tables) (c : Call) : Decidable (Rebased E m c) :=
  inferInstanceAs (Decidable (∀ r ∈ m.runs, _ → ∀ r' ∈ (step E m c).runs, _))

def latestRun (runs : List RunRow) (stream : WorkstreamId) : Option RunRow :=
  (runs.filter fun r => r.workstreamId = stream).getLast?

lemma latestRun_map {f : RunRow → RunRow}
    (hf : ∀ r ∈ runs, (f r).workstreamId = r.workstreamId) (stream : WorkstreamId) :
    latestRun (runs.map f) stream = (latestRun runs stream).map f := by
  unfold latestRun
  rw [filter_map, getLast?_map]
  refine congrArg (fun l => Option.map f (List.getLast? l)) (filter_congr fun r hr => ?_)
  rw [comp_apply, hf r hr]

lemma latestRun_append {new : RunRow} {stream : WorkstreamId} :
    latestRun (runs ++ [new]) stream =
      if new.workstreamId = stream then some new else latestRun runs stream := by
  unfold latestRun
  rw [filter_append, filter_singleton]
  by_cases h : new.workstreamId = stream
  · simp [h]
  · simp [h]

lemma latestRun_mem {stream : WorkstreamId}
    (h : latestRun runs stream = some r) : r ∈ runs ∧ r.workstreamId = stream := by
  have hmem := mem_filter.mp (mem_of_getLast? h)
  rw [decide_eq_true_eq] at hmem
  exact hmem

lemma latestRun_of_not_superseded (hid : KeyUnique RunRow.id m.runs) (h : Ordered m)
    (hrun : run ∈ m.runs) (hnewest : isSuperseded m.runs run = false) :
    latestRun m.runs run.workstreamId = some run := by
  obtain ⟨before, after, hsplit⟩ := append_of_mem hrun
  obtain ⟨-, hafter⟩ := newest_of_not_superseded hid hsplit hnewest
  rw [Ordered, hsplit, pairwise_append, pairwise_cons] at h
  have hother : ∀ q ∈ after, ¬ (decide (q.workstreamId = run.workstreamId) = true) := by
    intro q hq hstream
    rw [decide_eq_true_eq] at hstream
    exact absurd (hafter q hq hstream) (not_lt.mpr (h.2.1.1 q hq hstream.symm))
  have hlast : (run :: after).filter (fun q => q.workstreamId = run.workstreamId) = [run] := by
    rw [filter_cons_of_pos (by simp), filter_eq_nil_iff.mpr hother]
  rw [latestRun, hsplit, filter_append, hlast]
  simp

/-! ### Soundness -/

/-- The reader saw each event up to the `n`-th. -/
def KnownThrough (saw : Reader → ℕ → Prop) (x : Reader) (n : ℕ) : Prop :=
  ∀ q, 0 < q → q ≤ n → saw x q

/-- Every cursor, and every bound that a run may still be closed with, is backed by what
was seen. -/
structure Sound (m : Tables) (saw : Reader → ℕ → Prop) : Prop where
  cursor : ∀ stream agent session cursor,
    deliveryCursor m.nativeSessions stream agent session = some cursor →
    KnownThrough saw (.session stream agent session) cursor
  after : ∀ r ∈ m.runs, r.state ≠ .finished → KnownThrough saw r.reader r.syncAfter
  delivered : ∀ r ∈ m.runs, r.state ≠ .finished → r.contextDelivered = true →
    KnownThrough saw r.reader r.syncThrough
  /-- What came after the last run was prepared, it imported. -/
  own : ∀ stream r, latestRun m.runs stream = some r → r.state ≠ .finished →
    ∀ q, r.syncThrough < q → q ≤ latestSequence m.events stream → saw r.reader q
  live : ∀ r ∈ m.runs, r.state = .active → latestRun m.runs r.workstreamId = some r
  source : ∀ e ∈ m.events, saw e.source e.sequence

section Sound

variable {saw saw' : Reader → ℕ → Prop} {x y : Reader} {a b : ℕ} {f : RunRow → RunRow}

lemma knownThrough_zero : KnownThrough saw x 0 := by
  intro q hpos hle
  omega

lemma KnownThrough.mono (h : KnownThrough saw x a) (hsaw : ∀ q, saw x q → saw' y q) :
    KnownThrough saw' y a :=
  fun q hpos hle => hsaw q (h q hpos hle)

lemma KnownThrough.max (ha : KnownThrough saw x a) (hb : KnownThrough saw x b) :
    KnownThrough saw x (max a b) := by
  intro q hpos hle
  rcases le_max_iff.mp hle with hle | hle
  · exact ha q hpos hle
  · exact hb q hpos hle

lemma Sound.cursor_getD (h : Sound m saw) : KnownThrough saw (.session stream agent session)
    ((deliveryCursor m.nativeSessions stream agent session).getD 0) := by
  cases hcursor : deliveryCursor m.nativeSessions stream agent session with
  | none => exact knownThrough_zero
  | some cursor => exact h.cursor stream agent session cursor hcursor

lemma Sound.raised (h : Sound m saw) (hmono : ∀ x n, saw x n → saw' x n) {cursor : ℕ} {p : Prop}
    [Decidable p] (hp : p → KnownThrough saw' (.session stream agent session) b)
    (hcursor : (if p then
        some (Max.max ((deliveryCursor m.nativeSessions stream agent session).getD 0) b)
      else deliveryCursor m.nativeSessions stream agent session) = some cursor) :
    KnownThrough saw' (.session stream agent session) cursor := by
  by_cases hcond : p
  · rw [if_pos hcond, some.injEq] at hcursor
    rw [← hcursor]
    exact (h.cursor_getD.mono (hmono _)).max (hp hcond)
  · rw [if_neg hcond] at hcursor
    exact (h.cursor _ _ _ _ hcursor).mono (hmono _)

/-- The bounds of a run are backed after a call by what its reader has seen then. -/
structure Carried (m : Tables) (saw saw' : Reader → ℕ → Prop) (r r' : RunRow) : Prop extends
    RunStep r r' where
  after : r'.state ≠ .finished → KnownThrough saw' r'.reader r'.syncAfter
  delivered : r'.state ≠ .finished → r'.contextDelivered = true →
    KnownThrough saw' r'.reader r.syncThrough
  own : r'.state ≠ .finished → ∀ q, r.syncThrough < q →
    q ≤ latestSequence m.events r.workstreamId → saw r.reader q → saw' r'.reader q

lemma RunStep.unfinished {r r' : RunRow} (h : RunStep r r') (hr' : r'.state ≠ .finished) :
    r.state ≠ .finished := by
  intro hfin
  rw [h.final hfin] at hr'
  exact hr' hfin

lemma Sound.unmoved {r r' : RunRow} (h : Sound m saw) (hmono : ∀ x n, saw x n → saw' x n)
    (hr : r ∈ m.runs) (hstep : RunStep r r') (hnative : r'.nativeSessionId = r.nativeSessionId)
    (hafter : r'.syncAfter = r.syncAfter) (hdelivered : r'.contextDelivered = r.contextDelivered) :
    Carried m saw saw' r r' := by
  have hreader : r'.reader = r.reader := by
    rw [RunRow.reader, RunRow.reader, hnative, hstep.id, hstep.stream, hstep.agent]
  refine ⟨hstep, fun hr' => ?_, fun hr' hd => ?_, fun _ q _ _ hq => ?_⟩
  · rw [hreader, hafter]
    exact (h.after r hr (hstep.unfinished hr')).mono (hmono _)
  · rw [hreader]
    exact (h.delivered r hr (hstep.unfinished hr') (hdelivered ▸ hd)).mono (hmono _)
  · rw [hreader]
    exact hmono _ _ hq

lemma Sound.carried (h : Sound m saw) (hruns : m'.runs = m.runs.map f)
    (hcarried : ∀ r ∈ m.runs, Carried m saw saw' r (f r))
    (hcursor : ∀ stream agent session cursor,
      deliveryCursor m'.nativeSessions stream agent session = some cursor →
      KnownThrough saw' (.session stream agent session) cursor)
    (hnew : ∀ stream r, latestRun m.runs stream = some r → (f r).state ≠ .finished →
      ∀ q, latestSequence m.events stream < q → q ≤ latestSequence m'.events stream →
        saw' (f r).reader q)
    (hlive : ∀ r ∈ m.runs, (f r).state = .active → latestRun m.runs r.workstreamId = some r)
    (hsource : ∀ e ∈ m'.events, saw' e.source e.sequence) : Sound m' saw' := by
  have hrow : ∀ r' ∈ m'.runs, ∃ r ∈ m.runs, f r = r' := by
    intro r' hr'
    rw [hruns] at hr'
    exact mem_map.mp hr'
  have hlatest : ∀ stream, latestRun m'.runs stream = (latestRun m.runs stream).map f := by
    intro stream
    rw [hruns]
    exact latestRun_map (fun r hr => (hcarried r hr).stream) stream
  refine ⟨hcursor, ?_, ?_, ?_, ?_, hsource⟩
  · intro r' hr' hunfinished
    obtain ⟨r, hr, rfl⟩ := hrow r' hr'
    exact (hcarried r hr).after hunfinished
  · intro r' hr' hunfinished hdelivered
    obtain ⟨r, hr, rfl⟩ := hrow r' hr'
    rw [(hcarried r hr).syncThrough]
    exact (hcarried r hr).delivered hunfinished hdelivered
  · intro stream r' hr' hunfinished q hpast hle
    rw [hlatest] at hr'
    obtain ⟨r, hlast, rfl⟩ := map_eq_some_iff.mp hr'
    obtain ⟨hr, hstream⟩ := latestRun_mem hlast
    rw [(hcarried r hr).syncThrough] at hpast
    rcases le_or_gt q (latestSequence m.events stream) with hold | hfresh
    · exact (hcarried r hr).own hunfinished q hpast (hstream ▸ hold)
        (h.own stream r hlast ((hcarried r hr).unfinished hunfinished) q hpast hold)
    · exact hnew stream r hlast hunfinished q hfresh hle
  · intro r' hr' hactive
    obtain ⟨r, hr, rfl⟩ := hrow r' hr'
    rw [hlatest, (hcarried r hr).stream, hlive r hr hactive, map_some]

/-- A run whose session and bounds a call leaves alone, and that it does not start. -/
structure AtRest (r r' : RunRow) : Prop extends RunStep r r' where
  native : r'.nativeSessionId = r.nativeSessionId
  after : r'.syncAfter = r.syncAfter
  delivered : r'.contextDelivered = r.contextDelivered
  active : r'.state = .active → r.state = .active

lemma AtRest.refl (r : RunRow) : AtRest r r := ⟨.refl r, rfl, rfl, rfl, id⟩

lemma AtRest.trans {r s t : RunRow} (h : AtRest r s) (h' : AtRest s t) : AtRest r t :=
  ⟨h.toRunStep.trans h'.toRunStep, h'.native.trans h.native, h'.after.trans h.after,
    h'.delivered.trans h.delivered, h.active ∘ h'.active⟩

lemma atRest_ite {p : Bool} {r q : RunRow} (h : p → AtRest r q) :
    AtRest r (if p then q else r) := by
  cases p with
  | false => exact .refl r
  | true => exact h rfl

lemma atRest_expireStale (now : ℤ) (r : RunRow) :
    AtRest r (if r.state = .active && r.leaseExpiresAt ≤ now then
      { r with
        state := .expired
        endedAt := some now }
      else r) := by
  refine atRest_ite fun hp => ⟨⟨rfl, fun hfin => ?_⟩, rfl, rfl, rfl, fun h => nomatch h⟩
  simp [hfin] at hp

lemma atRest_release (runId : RunId) (now : ℤ) (r : RunRow) :
    AtRest r (if r.id = runId && r.state = .active then
      { r with
        state := .expired
        endedAt := some now
        leaseExpiresAt := now }
      else r) := by
  refine atRest_ite fun hp => ⟨⟨rfl, fun hfin => ?_⟩, rfl, rfl, rfl, fun h => nomatch h⟩
  simp [hfin] at hp

lemma atRest_heartbeat (runId : RunId) (now : ℤ) (r : RunRow) :
    AtRest r (if r.id = runId && r.state = .active then
      { r with leaseExpiresAt := now + leaseMicros }
      else r) := by
  refine atRest_ite fun hp => ⟨⟨rfl, fun hfin => ?_⟩, rfl, rfl, rfl, id⟩
  simp [hfin] at hp

lemma unlockBusy_rests {unlocked : List RunRow} {ownerUser : Option String} {forceUnlock : Bool}
    (h : unlockBusy (expireStale m.runs now) stream ownerUser forceUnlock now = .ok unlocked) :
    ∃ f, unlocked = m.runs.map f ∧ ∀ r, AtRest r (f r) := by
  rcases unlockBusy_ok h with rfl | ⟨runId, rfl⟩
  · exact ⟨_, rfl, atRest_expireStale now⟩
  · refine ⟨_, map_map, fun r => ?_⟩
    exact (atRest_expireStale now r).trans (atRest_release runId now _)

lemma Sound.kept (h : Sound m saw) (hmono : ∀ x n, saw x n → saw' x n)
    (hruns : m'.runs = m.runs.map f) (hrest : ∀ r, AtRest r (f r))
    (hnatives : m'.nativeSessions = m.nativeSessions) (hevents : m'.events = m.events) :
    Sound m' saw' := by
  refine h.carried hruns (fun r hr => ?_) ?_ ?_
    (fun r hr hnow => h.live r hr ((hrest r).active hnow)) fun e he => ?_
  · exact h.unmoved hmono hr (hrest r).toRunStep (hrest r).native (hrest r).after (hrest r).delivered
  · intro stream agent session cursor hcursor
    rw [hnatives] at hcursor
    exact (h.cursor _ _ _ _ hcursor).mono (hmono _)
  · intro stream r _ _ q hgt hle
    rw [hevents] at hle
    omega
  · rw [hevents] at he
    exact hmono _ _ (h.source e he)

lemma Sound.append (h : Sound m saw) {new : RunRow} (hruns : m'.runs = m.runs ++ [new])
    (hactive : new.state = .active) (hone : OneActive m')
    (hafter : KnownThrough saw new.reader new.syncAfter) (hdelivered : new.contextDelivered = false)
    (hthrough : latestSequence m.events new.workstreamId ≤ new.syncThrough)
    (hnatives : m'.nativeSessions = m.nativeSessions) (hevents : m'.events = m.events) :
    Sound m' saw := by
  have hmem : ∀ r ∈ m'.runs, r ∈ m.runs ∨ r = new := by
    intro r hr
    rw [hruns, mem_append, mem_singleton] at hr
    exact hr
  refine ⟨fun stream agent session cursor hcursor => ?_, fun r hr hunfinished => ?_,
    fun r hr hunfinished hshown => ?_, fun stream r hlast hunfinished q hpast hle => ?_,
    fun r hr hlive => ?_, hevents ▸ h.source⟩
  · rw [hnatives] at hcursor
    exact h.cursor _ _ _ _ hcursor
  · rcases hmem r hr with hr | rfl
    · exact h.after r hr hunfinished
    · exact hafter
  · rcases hmem r hr with hr | rfl
    · exact h.delivered r hr hunfinished hshown
    · rw [hdelivered] at hshown
      cases hshown
  · rw [hruns, latestRun_append] at hlast
    rw [hevents] at hle
    by_cases hstream : new.workstreamId = stream
    · rw [if_pos hstream, some.injEq] at hlast
      subst hlast
      subst hstream
      omega
    · rw [if_neg hstream] at hlast
      exact h.own stream r hlast hunfinished q hpast hle
  · rw [hruns, latestRun_append]
    rcases hmem r hr with hold | rfl
    · -- the index on active runs keeps the earlier ones off this workstream
      have hstream : new.workstreamId ≠ r.workstreamId := by
        intro heq
        rw [OneActive, activeStreams, hruns, filter_append, map_append, nodup_append] at hone
        refine hone.2.2 r.workstreamId ?_ new.workstreamId ?_ heq.symm
        · exact mem_map_of_mem (mem_filter.mpr ⟨hold, decide_eq_true hlive⟩)
        · simp [hactive]
      rw [if_neg hstream]
      exact h.live r hold hlive
    · rw [if_pos rfl]

lemma opened_known (h : Sound m saw) (hkeys : KeyUnique NativeSessionRow.key m.nativeSessions)
    (input : PrepareWorkstreamRun) (ownerUser : Option String) (stream : WorkstreamId)
    (runId : RunId) (now : ℤ) :
    KnownThrough saw (openedRun m input ownerUser stream runId now).reader
      (openedRun m input ownerUser stream runId now).syncAfter := by
  cases hcurrent : currentSession m stream (chosenAgent m input stream) with
  | none =>
    have hzero : (openedRun m input ownerUser stream runId now).syncAfter = 0 := by
      simp [openedRun, hcurrent]
    rw [hzero]
    exact knownThrough_zero
  | some n =>
    have hn := find?_some hcurrent
    rw [Bool.and_eq_true, Bool.and_eq_true, decide_eq_true_eq, decide_eq_true_eq] at hn
    have hkey : n.key = (stream, chosenAgent m input stream, n.nativeSessionId) := by
      rw [NativeSessionRow.key, hn.1.1, hn.1.2]
    have hcursor : deliveryCursor m.nativeSessions stream (chosenAgent m input stream)
        n.nativeSessionId = some n.deliveryCursor := by
      rw [deliveryCursor, hkeys.find?_eq_some.mpr ⟨mem_of_find?_eq_some hcurrent, hkey⟩,
        map_some]
    have hnative : (openedRun m input ownerUser stream runId now).nativeSessionId =
        some n.nativeSessionId := by
      simp [openedRun, hcurrent]
    have hafter : (openedRun m input ownerUser stream runId now).syncAfter = n.deliveryCursor := by
      simp [openedRun, hcurrent]
    rw [reader_of_session hnative, hafter]
    exact h.cursor _ _ _ _ hcursor

lemma initial_known (h : Sound m saw) (hmono : ∀ x n, saw x n → saw' x n) (hrun : run ∈ m.runs)
    (hactive : run.state = .active) (hknows : run.contextDelivered →
      ∀ q, saw run.reader q → saw' (.session run.workstreamId run.agent session) q) :
    KnownThrough saw' (.session run.workstreamId run.agent session)
      (initialDelivery m run session) := by
  unfold initialDelivery
  cases hcursor : deliveryCursor m.nativeSessions run.workstreamId run.agent session with
  | some cursor => exact (h.cursor _ _ _ _ hcursor).mono (hmono _)
  | none =>
    rw [Option.getD_none]
    by_cases hdelivered : run.contextDelivered
    · rw [if_pos hdelivered]
      exact (h.delivered run hrun (by simp [hactive]) hdelivered).mono (hknows hdelivered)
    · rw [if_neg hdelivered]
      exact knownThrough_zero

end Sound

/-! ### Any call -/

section Calls

variable {saw : Reader → ℕ → Prop} {r' : RunRow} {c : Call}

lemma rebased_known (hwf : Wellformed m.events) (h : Sound m saw) (hrebased : Rebased E m c)
    (hr : r ∈ m.runs) (hr' : r' ∈ (step E m c).runs) (horigin : r'.origin = r.origin)
    (hundelivered : r.contextDelivered = false) (hmoved : r'.reader ≠ r.reader)
    (hsession : r'.nativeSessionId = none → r.nativeSessionId = none)
    (hfinished : r'.state = .finished → r.syncThrough ≤ r.syncAfter) :
    KnownThrough saw r'.reader r'.syncAfter ∧
      ∀ q, r.syncThrough < q → q ≤ latestSequence m.events r.workstreamId → saw r'.reader q := by
  have hid : r'.id = r.id := congrArg (·.1) horigin
  have hstream : r'.workstreamId = r.workstreamId := congrArg (·.2.1) horigin
  have hagent : r'.agent = r.agent := congrArg (·.2.2.1) horigin
  cases hnative : r'.nativeSessionId with
  | none =>
    refine absurd ?_ hmoved
    rw [RunRow.reader, RunRow.reader, hnative, hsession hnative, hid]
  | some session =>
    obtain ⟨hafter, hown⟩ := hrebased r hr hundelivered r' hr' hid hmoved hfinished session hnative
    rw [reader_of_session hnative, hstream, hagent]
    refine ⟨fun q hpos hle => h.cursor_getD q hpos (hle.trans hafter), fun q hpast hle => ?_⟩
    have hmem : q ∈ (ledger m.events r.workstreamId).map (·.sequence) := by
      rw [hwf.numbered, mem_range'_1, ← hwf.latest]
      omega
    obtain ⟨e, he, rfl⟩ := mem_map.mp hmem
    obtain ⟨he, hledger⟩ := mem_filter.mp he
    rw [← hown e he (of_decide_eq_true hledger) hpast]
    exact h.source e he

lemma Sound.rebound (hid : KeyUnique RunRow.id m.runs) (hwf : Wellformed m.events)
    (h : Sound m saw) (hrebased : Rebased E m c) (hr : r ∈ m.runs) (hr' : r' ∈ (step E m c).runs)
    (hstep : RunStep r r') (hdelivered : r'.contextDelivered = r.contextDelivered)
    (hsession : r'.nativeSessionId = none → r.nativeSessionId = none)
    (hafter : r'.syncAfter = r.syncAfter ∨
      KnownThrough ((deeds E m c).foldl record saw) r'.reader r'.syncAfter) :
    Carried m saw ((deeds E m c).foldl record saw) r r' := by
  have hmono : ∀ x n, saw x n → (deeds E m c).foldl record saw x n := fun _ _ => foldl_of_saw _
  by_cases hkept : r'.reader = r.reader ∨ r.contextDelivered
  · have hknows : ∀ q, saw r.reader q → (deeds E m c).foldl record saw r'.reader q :=
      fun q hq => deeds_knows (step_ids hid c) hr hr' hstep.id hkept hq
    refine ⟨hstep, fun hopen => ?_, fun hopen hd => ?_, fun _ q _ _ hq => hknows q hq⟩
    · rcases hafter with hsame | hknown
      · rw [hsame]
        exact (h.after r hr (hstep.unfinished hopen)).mono hknows
      · exact hknown
    · exact (h.delivered r hr (hstep.unfinished hopen) (hdelivered ▸ hd)).mono hknows
  · obtain ⟨hmoved, hundelivered⟩ := not_or.mp hkept
    rw [Bool.not_eq_true] at hundelivered
    have hbacked := fun hopen : r'.state ≠ .finished => rebased_known hwf h hrebased hr hr'
      hstep.origin hundelivered hmoved hsession fun hfin => absurd hfin hopen
    refine ⟨hstep, fun hopen => (hbacked hopen).1.mono (hmono _), fun _ hd => ?_,
      fun hopen q hpast hle _ => hmono _ _ ((hbacked hopen).2 q hpast hle)⟩
    rw [hdelivered, hundelivered] at hd
    cases hd

lemma linked_sound {linked : String} (hid : KeyUnique RunRow.id m.runs)
    (hwf : Wellformed m.events) (h : Sound m saw) (hrebased : Rebased E m c) (hrun : run ∈ m.runs) (hactive : run.state = .active)
    (hruns : (step E m c).runs = update (fun r => r.id = run.id) (linkedRun m run linked now) m.runs)
    (hnatives : (step E m c).nativeSessions = upsert NativeSessionRow.key relinked
      (retireSessions m.nativeSessions run.workstreamId run.agent linked now)
      (linkedRow m run linked now)) (hevents : (step E m c).events = m.events) :
    Sound (step E m c) ((deeds E m c).foldl record saw) := by
  have hmono : ∀ x n, saw x n → (deeds E m c).foldl record saw x n := fun _ _ => foldl_of_saw _
  have hlinked : linkedRun m run linked now run ∈ (step E m c).runs := by
    rw [hruns]
    exact mem_update.mpr ⟨run, hrun, if_pos (decide_eq_true rfl)⟩
  have hreader : (linkedRun m run linked now run).reader =
      .session run.workstreamId run.agent linked := reader_of_session rfl
  have hinitial := initial_known h hmono hrun hactive fun hdelivered q hq => by
    rw [← hreader]
    exact deeds_knows (step_ids hid c) hrun hlinked rfl (.inr hdelivered) hq
  refine h.carried hruns (fun r hr => ?_) ?_ ?_ ?_ fun e he => ?_
  · by_cases hsame : r.id = run.id
    · obtain rfl := hid.eq hr hrun hsame
      rw [if_pos (decide_eq_true rfl)]
      refine h.rebound hid hwf hrebased hr hlinked ⟨rfl, fun hfin => ?_⟩ rfl (fun hnone => nomatch hnone)
        (.inr (hreader ▸ hinitial))
      rw [hactive] at hfin
      cases hfin
    · rw [if_neg (by simpa using hsame)]
      exact h.unmoved hmono hr (.refl r) rfl rfl rfl
  · intro stream agent session cursor hcursor
    rw [hnatives, deliveryCursor_linked] at hcursor
    refine h.raised hmono (fun hkey => ?_) hcursor
    rw [Prod.mk.injEq, Prod.mk.injEq] at hkey
    obtain ⟨rfl, rfl, rfl⟩ := hkey
    exact hinitial
  · intro stream r _ _ q hgt hle
    rw [hevents] at hle
    omega
  · intro r hr hnow
    refine h.live r hr ?_
    split at hnow
    · exact hnow
    · exact hnow
  · rw [hevents] at he
    exact hmono _ _ (h.source e he)

lemma accepted_sound {requireUndelivered : Bool} (hid : KeyUnique RunRow.id m.runs)
    (h : Sound m saw) (hrun : run ∈ m.runs) (hactive : run.state = .active)
    (hruns : (step E m (.accept run.id requireUndelivered now)).runs =
      update (fun r => r.id = run.id) (fun r => { r with
          contextDelivered := true
          leaseExpiresAt := now + leaseMicros }) m.runs)
    (hnatives : (step E m (.accept run.id requireUndelivered now)).nativeSessions =
      deliveredSessions m run now)
    (hevents : (step E m (.accept run.id requireUndelivered now)).events = m.events)
    (hanswer : (acceptContext m run.id requireUndelivered now).1) :
    Sound (step E m (.accept run.id requireUndelivered now))
      ((deeds E m (.accept run.id requireUndelivered now)).foldl record saw) := by
  have hmono : ∀ x n, saw x n →
      (deeds E m (.accept run.id requireUndelivered now)).foldl record saw x n :=
    fun _ _ => foldl_of_saw _
  have hshown : .shown run.reader run.syncAfter run.syncThrough ∈
      deeds E m (.accept run.id requireUndelivered now) := by
    refine mem_append_left _ (mem_append_right _ ?_)
    have hfound : m.findRun run.id = some run := hid.find?_eq_some.mpr ⟨hrun, rfl⟩
    rw [shows, if_pos hanswer, hfound]
    exact mem_singleton_self _
  -- up to the cursor the reader has seen the events, and the packet has the rest
  have hknown : KnownThrough ((deeds E m (.accept run.id requireUndelivered now)).foldl record saw)
      run.reader run.syncThrough := by
    intro q hpos hle
    rcases le_or_gt q run.syncAfter with hbefore | hafter
    · exact hmono _ _ (h.after run hrun (by simp [hactive]) q hpos hbefore)
    · exact foldl_shown hshown hafter hle
  refine h.carried hruns (fun r hr => ?_) ?_ ?_ ?_ fun e he => ?_
  · by_cases hsame : r.id = run.id
    · obtain rfl := hid.eq hr hrun hsame
      rw [if_pos (decide_eq_true rfl)]
      refine ⟨⟨rfl, fun hfin => ?_⟩, fun _ => (h.after r hr (by simp [hactive])).mono (hmono _),
        fun _ _ => hknown, fun _ q _ _ hq => hmono _ _ hq⟩
      rw [hactive] at hfin
      cases hfin
    · rw [if_neg (by simpa using hsame)]
      exact h.unmoved hmono hr (.refl r) rfl rfl rfl
  · intro stream agent session cursor hcursor
    rw [hnatives, deliveryCursor_delivered] at hcursor
    obtain ⟨before, hbefore, hcursor⟩ := map_eq_some_iff.mp hcursor
    have hold := (h.cursor _ _ _ _ hbefore).mono (hmono _)
    split at hcursor
    · rename_i hreader
      rw [← hcursor]
      exact hold.max (hreader ▸ hknown)
    · rw [← hcursor]
      exact hold
  · intro stream r _ _ q hgt hle
    rw [hevents] at hle
    omega
  · intro r hr hnow
    refine h.live r hr ?_
    split at hnow
    · exact hnow
    · exact hnow
  · rw [hevents] at he
    exact hmono _ _ (h.source e he)

lemma imported_runs (input : FinishWorkstreamRun) {recoverExpired : Bool} {reopened : Tables}
    (done : Import) (hopen : reopen m run recoverExpired now = .ok reopened) :
    ∃ f, (importedTables reopened run input now done).runs = m.runs.map f ∧
      (∀ r, r.id ≠ run.id → f r = r) ∧ (f run).origin = run.origin ∧
      (f run).nativeSessionId = input.session run ∧ (f run).syncAfter = run.syncAfter ∧
      (f run).contextDelivered = run.contextDelivered := by
  have hclosed : ∀ r : RunRow, r.nativeSessionId = run.nativeSessionId →
      (closeRun input (input.session run) now r).nativeSessionId = input.session run ∧
        (closeRun input (input.session run) now r).syncAfter = r.syncAfter ∧
        (closeRun input (input.session run) now r).contextDelivered = r.contextDelivered := by
    intro r hnative
    have hkept : (input.session run <|> r.nativeSessionId) = input.session run := by
      rw [hnative, FinishWorkstreamRun.session]
      cases input.nativeSessionId with
      | some named => rfl
      | none => cases run.nativeSessionId <;> rfl
    unfold closeRun
    cases input.complete <;> exact ⟨hkept, rfl, rfl⟩
  rcases reopen_ok.mp hopen with ⟨-, rfl⟩ | ⟨-, -, -, -, -, rfl⟩
  · refine ⟨_, rfl, fun r hr => if_neg (by simpa using hr), ?_⟩
    rw [if_pos (decide_eq_true rfl)]
    exact ⟨closeRun_origin input _ now run, hclosed run rfl⟩
  · refine ⟨_, map_map, fun r hr => ?_, ?_⟩
    · have hkept : ¬ (decide (r.id = run.id) && decide (r.state = .expired)) := by simp [hr]
      rw [comp_apply, if_neg hkept, if_neg (by simpa using hr)]
    · rw [comp_apply]
      split
      · rw [if_pos (decide_eq_true rfl)]
        exact ⟨closeRun_origin input _ now _, hclosed _ rfl⟩
      · rw [if_pos (decide_eq_true rfl)]
        exact ⟨closeRun_origin input _ now run, hclosed run rfl⟩

variable {input : FinishWorkstreamRun} {events : List NewWorkstreamEvent}

lemma importEvents_elsewhere {native : Option String}
    {acc done : Import} (hstream : run.workstreamId ≠ stream)
    (hok : importEvents E input run native now acc events = .ok done) :
    ledger done.events stream = ledger acc.events stream := by
  refine foldlM_invariant (I := fun x : Import => ledger x.events stream = ledger acc.events stream)
    (fun event _ before after hkept hstep => ?_) rfl hok
  obtain ⟨-, -, ⟨old, -, -, rfl⟩ | ⟨-, rfl⟩⟩ := importEvent_ok.mp hstep
  · exact hkept
  · have hother : (nextRow E input run now before event).workstreamId ≠ stream := hstream
    change ledger (before.events ++ [_]) stream = _
    rw [ledger_append_singleton, if_neg hother, append_nil, hkept]

lemma importEvents_new {native : Option String} {done : Import} (hwf : Wellformed m.events)
    (hok : importEvents E input run native now (m.importFrom run.workstreamId) events = .ok done)
    {q : ℕ} (hgt : latestSequence m.events run.workstreamId < q) (hle : q ≤ done.latest) :
    ∃ e ∈ done.events.drop m.events.length, e.sequence = q := by
  have hcounted := importEvents_counted (importFrom_counted hwf run.workstreamId) hok
  obtain ⟨rest, hrest⟩ : m.events <+: done.events := importEvents_appends hok
  have hmem : q ∈ (ledger done.events run.workstreamId).map (·.sequence) := by
    rw [hcounted.wellformed.numbered, mem_range'_1, ← hcounted.latest]
    omega
  obtain ⟨e, he, rfl⟩ := mem_map.mp hmem
  obtain ⟨he, hstream⟩ := mem_filter.mp he
  rw [decide_eq_true_eq] at hstream
  rw [← hrest, mem_append] at he
  rw [← hrest, drop_left]
  rcases he with hold | hnew
  · have hbound := (hwf.sequence_le hold).2
    rw [hstream] at hbound
    omega
  · exact ⟨e, hnew, rfl⟩

lemma imported_sound {authority : ManagedRunAuthority}
    {recoverExpired : Bool} {reopened : Tables} {done : Import}
    (hid : KeyUnique RunRow.id m.runs) (hwf : Wellformed m.events) (hordered : Ordered m)
    (h : Sound m saw) (hrebased : Rebased E m (.finish authority input recoverExpired now))
    (hfound : m.findRun input.runId = some run) (hstate : run.state ≠ .finished)
    (hopen : reopen m run recoverExpired now = .ok reopened)
    (hloop : importEvents E input run (input.session run) now
      (reopened.importFrom run.workstreamId) input.events = .ok done)
    (heq : step E m (.finish authority input recoverExpired now) =
      importedTables reopened run input now done) :
    Sound (step E m (.finish authority input recoverExpired now))
      ((deeds E m (.finish authority input recoverExpired now)).foldl record saw) := by
  generalize hc : Call.finish authority input recoverExpired now = c at heq hrebased ⊢
  have hmono : ∀ x n, saw x n → (deeds E m c).foldl record saw x n := fun _ _ => foldl_of_saw _
  obtain ⟨hrun, hrunId⟩ := mem_of_findRun hfound
  rw [Tables.importFrom, reopen_events hopen] at hloop
  obtain ⟨f, hruns, hothers, horigin, hnative, hafter, hdelivered⟩ :=
    imported_runs input done hopen
  rw [← heq] at hruns
  have hevents : (step E m c).events = done.events := by
    rw [heq]
    rfl
  have hids := step_ids (E := E) hid c
  have hf : f run ∈ (step E m c).runs := hruns ▸ mem_map_of_mem hrun
  have hfid : (f run).id = run.id := congrArg (·.1) horigin
  have hheld : (f run).nativeSessionId = none → run.nativeSessionId = none := by
    intro hnone
    rw [hnative, FinishWorkstreamRun.session] at hnone
    simp only [Option.orElse_eq_orElse, Option.orElse_eq_or, Option.or_eq_none_iff] at hnone
    exact hnone.2
  -- the run that imports is the last of its workstream
  have hlast : latestRun m.runs run.workstreamId = some run := by
    rcases reopen_ok.mp hopen with ⟨hactive, -⟩ | ⟨-, -, hnewest, -⟩
    · exact h.live run hrun hactive
    · exact latestRun_of_not_superseded hid hordered hrun hnewest
  have hcounted := importEvents_counted (importFrom_counted hwf run.workstreamId) hloop
  have hlatest : latestSequence (step E m c).events run.workstreamId = done.latest := by
    rw [hevents, hcounted.wellformed.latest, hcounted.latest]
  have hfound' : (step E m c).findRun input.runId = some (f run) :=
    hids.find?_eq_some.mpr ⟨hf, hfid.trans hrunId⟩
  have himported : ∀ e ∈ (step E m c).events.drop m.events.length,
      (deeds E m c).foldl record saw e.source e.sequence ∧
        (deeds E m c).foldl record saw (f run).reader e.sequence := by
    intro e he
    have hdeeds : ∀ d ∈ [Deed.imported e.source e.sequence, .imported (f run).reader e.sequence],
        d ∈ deeds E m c := by
      intro d hd
      refine mem_append_right _ ?_
      rw [← hc] at he hfound' ⊢
      rw [imports, hfound', Option.toList_some, flatMap_singleton]
      exact mem_flatMap.mpr ⟨e, he, hd⟩
    exact ⟨foldl_imported (hdeeds _ (by simp)), foldl_imported (hdeeds _ (by simp))⟩
  have hnew : ∀ q, latestSequence m.events run.workstreamId < q → q ≤ done.latest →
      (deeds E m c).foldl record saw (f run).reader q := by
    intro q hgt hle
    obtain ⟨e, he, rfl⟩ := importEvents_new hwf hloop hgt hle
    exact (himported e (hevents ▸ he)).2
  refine h.carried hruns (fun r hr => ?_) ?_ ?_ ?_ fun e he => ?_
  · by_cases hsame : r.id = run.id
    · obtain rfl := hid.eq hr hrun hsame
      exact h.rebound hid hwf hrebased hr hf ⟨horigin, fun hfin => absurd hfin hstate⟩ hdelivered
        hheld (.inl hafter)
    · rw [hothers r hsame]
      exact h.unmoved hmono hr (.refl r) rfl rfl rfl
  · intro stream agent session cursor hcursor
    have hnatives : (step E m c).nativeSessions = closeSessions m.nativeSessions input run
        (input.session run) (knownThrough run done.latest) now := by
      rw [heq, ← reopen_natives hopen]
      rfl
    rw [hnatives, deliveryCursor_close] at hcursor
    refine h.raised hmono ?_ hcursor
    rintro ⟨-, rfl, rfl, hsession⟩
    have hreader : (f run).reader = .session run.workstreamId run.agent session := by
      refine reader_eq_session.mpr ⟨congrArg (·.2.1) horigin, congrArg (·.2.2.1) horigin, ?_⟩
      rw [hnative, hsession]
    rw [← hreader]
    unfold knownThrough
    split
    · rename_i hcond
      rw [Bool.or_eq_true, decide_eq_true_eq] at hcond
      intro q hpos hle
      rcases le_or_gt q (latestSequence m.events run.workstreamId) with hold | hgt
      swap
      · exact hnew q hgt hle
      by_cases hkept : (f run).reader = run.reader ∨ run.contextDelivered
      · refine deeds_knows hids hrun hf hfid hkept ?_
        rcases le_or_gt q run.syncThrough with hthrough | hpast
        · rcases hcond with hshown | hnothing
          · exact h.delivered run hrun hstate hshown q hpos hthrough
          · exact h.after run hrun hstate q hpos (hthrough.trans hnothing)
        · exact h.own run.workstreamId run hlast hstate q hpast hold
      · obtain ⟨hmoved, hundelivered⟩ := not_or.mp hkept
        have hnothing := hcond.resolve_left hundelivered
        rw [Bool.not_eq_true] at hundelivered
        obtain ⟨hknown, hown⟩ := rebased_known hwf h hrebased hrun hf horigin hundelivered hmoved
          hheld fun _ => hnothing
        refine hmono _ _ ?_
        rcases le_or_gt q run.syncThrough with hthrough | hpast
        · exact hknown q hpos (hafter ▸ hthrough.trans hnothing)
        · exact hown q hpast hold
    · exact knownThrough_zero
  · intro stream r hr _ q hgt hle
    by_cases hstream : run.workstreamId = stream
    · subst hstream
      rw [hlast, some.injEq] at hr
      subst hr
      rw [hlatest] at hle
      exact hnew q hgt hle
    · have hsame : latestSequence (step E m c).events stream = latestSequence m.events stream := by
        have hledger := importEvents_elsewhere hstream hloop
        rw [hevents, latestSequence, latestSequence]
        exact congrArg (fun l : List EventRow => (l.map (·.sequence)).foldr max 0) hledger
      omega
  · intro r hr hnow
    by_cases hsame : r.id = run.id
    · obtain rfl := hid.eq hr hrun hsame
      exact hlast
    · rw [hothers r hsame] at hnow
      exact h.live r hr hnow
  · obtain ⟨rest, hrest⟩ : m.events <+: done.events := importEvents_appends hloop
    rw [hevents, ← hrest, drop_left] at himported
    rw [hevents, ← hrest, mem_append] at he
    rcases he with hold | hfresh
    · exact hmono _ _ (h.source e hold)
    · exact (himported e hfresh).1

lemma step_sound (hid : KeyUnique RunRow.id m.runs)
    (hkeys : KeyUnique NativeSessionRow.key m.nativeSessions) (hwf : Wellformed m.events)
    (hordered : Ordered m) (h : Sound m saw) (hrebased : Rebased E m c) :
    Sound (step E m c) ((deeds E m c).foldl record saw) := by
  have hmono : ∀ x n, saw x n → (deeds E m c).foldl record saw x n := fun _ _ => foldl_of_saw _
  cases step_change (E := E) m c with
  | quiet runs natives events =>
    exact h.kept hmono (runs.trans (map_id _).symm) AtRest.refl natives events
  | opened input ownerUser forceUnlock newStream runId now stream unlocked select unlock ids one
      runs natives events =>
    obtain ⟨f, hf, hrest⟩ := unlockBusy_rests unlock
    -- first the leases are put to rest, then the run is opened
    have hrested : Sound { m with runs := unlocked }
        ((deeds E m (.prepare input ownerUser forceUnlock newStream runId now)).foldl record saw) :=
      h.kept hmono hf hrest rfl rfl
    exact hrested.append runs rfl one ((opened_known h hkeys input ownerUser stream runId now).mono
      (hmono _)) rfl le_rfl natives events
  | renewed runId now eq =>
    refine h.kept hmono (congrArg Tables.runs eq) (atRest_heartbeat runId now) ?_ ?_
    · rw [eq]
      rfl
    · rw [eq]
      rfl
  | released runId now eq =>
    refine h.kept hmono (congrArg Tables.runs eq) (atRest_release runId now) ?_ ?_
    · rw [eq]
      rfl
    · rw [eq]
      rfl
  | linked run session boundary now mem active admits runs natives events =>
    exact linked_sound hid hwf h hrebased mem active runs natives events
  | accepted run requireUndelivered now mem active runs natives events answer =>
    exact accepted_sound hid h mem active runs natives events answer
  | imported authority input recoverExpired now run reopened done found unfinished reopen loop eq =>
    exact imported_sound hid hwf hordered h hrebased found unfinished reopen loop eq

lemma saw_append (log log' : List Deed) : Saw (log ++ log') = log'.foldl record (Saw log) :=
  foldl_append

lemma exec_sound {log : List Deed} {calls : List Call} (hid : KeyUnique RunRow.id m.runs)
    (hkeys : KeyUnique NativeSessionRow.key m.nativeSessions) (hwf : Wellformed m.events)
    (hordered : Ordered m) (h : Sound m (Saw log)) (htimely : Guarded (step E) Timely m calls)
    (hrebased : Guarded (step E) (Rebased E) m calls) :
    Sound (exec (step E) m calls) (Saw (log ++ history E m calls)) := by
  induction calls generalizing m log with
  | nil =>
    rw [history, outputs, flatten_nil, append_nil]
    exact h
  | cons c calls ih =>
    have hhistory : log ++ history E m (c :: calls) =
        (log ++ deeds E m c) ++ history E (step E m c) calls := by
      rw [history, outputs, flatten_cons, append_assoc]
      rfl
    rw [hhistory, exec_cons]
    refine ih (step_ids hid c) (step_nativeKeys hkeys c) (step_wellformed hwf c)
      (step_ordered hid hordered htimely.1) ?_ htimely.2 hrebased.2
    rw [saw_append]
    exact step_sound hid hkeys hwf hordered h hrebased.1

end Calls

lemma mem_take_sorted {l : List EventRow} (hnodup : (l.map (·.sequence)).Nodup) {e : EventRow}
    (he : e ∈ l) (n : ℕ) :
    e ∈ (l.insertionSort fun a b => b.sequence ≤ a.sequence).take n ∨
      n ≤ l.countP fun e' => e.sequence < e'.sequence := by
  let later : EventRow → EventRow → Prop := fun a b => b.sequence ≤ a.sequence
  have htotal : Std.Total later := ⟨fun a b => Nat.le_total b.sequence a.sequence⟩
  have htrans : IsTrans EventRow later := ⟨fun a b c hab hbc => Nat.le_trans hbc hab⟩
  have hperm := perm_insertionSort later l
  have hsorted := pairwise_insertionSort later l
  obtain ⟨before, after, hsplit⟩ := append_of_mem (hperm.mem_iff.mpr he)
  change e ∈ (l.insertionSort later).take n ∨ _
  rw [hsplit] at hsorted hperm ⊢
  rcases lt_or_ge before.length n with hroom | hfull
  · left
    rw [take_append, mem_append, take_cons (by omega)]
    exact .inr mem_cons_self
  · right
    have hlater : ∀ x ∈ before, decide (e.sequence < x.sequence) = true := by
      intro x hx
      have hle : e.sequence ≤ x.sequence :=
        (pairwise_append.mp hsorted).2.2 x hx e mem_cons_self
      have hne : x.sequence ≠ e.sequence := by
        rw [← (hperm.map _).nodup_iff, map_append, nodup_append] at hnodup
        exact hnodup.2.2 _ (mem_map_of_mem hx) _ (by simp)
      exact decide_eq_true (by omega)
    rw [← hperm.countP_eq, countP_append, countP_eq_length.mpr hlater]
    omega

lemma runContext_shows (hwf : Wellformed m.events) {runId : RunId} {maxEvents : ℕ}
    {ctx : ManagedRunContext} (hfound : m.findRun runId = some run)
    (hctx : runContext m runId maxEvents = some ctx) {e : EventRow} (he : e ∈ assigned m run) :
    e.shown ∈ ctx.events ∨
      maxEvents ≤ (assigned m run).countP fun e' => e.sequence < e'.sequence := by
  have hnodup : ((assigned m run).map (·.sequence)).Nodup := by
    have hledger : (assigned m run).Sublist (ledger m.events run.workstreamId) := by
      refine monotone_filter_right _ fun e he => ?_
      rw [Bool.and_eq_true, Bool.and_eq_true] at he
      exact he.1.1
    refine (hledger.map _).nodup ?_
    rw [hwf.numbered]
    exact nodup_range'
  refine (mem_take_sorted hnodup he maxEvents).imp_left fun htake => ?_
  rw [runContext, readBoundary, hfound, Option.bind_some] at hctx
  obtain ⟨⟨r, w⟩, hr, rfl⟩ := map_eq_some_iff.mp hctx
  obtain ⟨v, -, hv⟩ := map_eq_some_iff.mp (Option.filter_eq_some_iff.mp hr).1
  obtain ⟨rfl, rfl⟩ : run = r ∧ v = w := by simpa using hv
  exact mem_map_of_mem (mem_reverse.mpr htake)

def note (agent : AgentKind) (session id : String) : NewWorkstreamEvent :=
  ⟨id, agent, session, none, .message, some "assistant", id, none, .null⟩

def closing (runId : RunId) (agent : AgentKind) (session : String) (ids : List String) :
    FinishWorkstreamRun :=
  ⟨id, runId, some session, none, ids.map (note agent session), true, none, some 0⟩

/-- Codex wrote two events in `s1`; a second run is linked to the new session `s2`. -/
def freshSession : List Call :=
  [.elsewhere oneProject [] [],
    .prepare (launch .codex) none false 1 1 10, .link 1 .codex "s1" 20,
    .finish root (closing 1 .codex "s1" ["e1", "e2"]) false 30,
    .prepare (launch .codex) none false 2 2 40, .link 2 .codex "s2" 50]

/-- Claude wrote an event in `s1`; a second run resumes `s1`, accepts an empty packet, and
is cleared into `s2`. -/
def clearedSession : List Call :=
  let byId : PrepareWorkstreamRun := { launch .claudeCode with scopeById := true }
  [.elsewhere oneProject [] [],
    .prepare byId none false 1 1 10, .link 1 .claudeCode "s1" 20,
    .finish root (closing 1 .claudeCode "s1" ["e1"]) false 30,
    .prepare byId none false 2 2 40, .link 2 .claudeCode "s1" 50, .accept 2 true 60,
    .linkOrAdopt ⟨2, 1, 1, "/repo", .claudeCode, "s2", none⟩ .clear 70]

/-- The clock goes back between two runs; the first is recovered when the second is done. -/
def recoveredSession : List Call :=
  [.elsewhere oneProject [] [],
    .prepare (launch .codex) none false 1 1 100, .link 1 .codex "s1" 110, .accept 1 true 120,
    .cancel 1 130,
    .prepare (launch .codex) none false 2 2 50, .link 2 .codex "s2" 60,
    .finish root (closing 2 .codex "s2" ["e1"]) false 70,
    .finish root (closing 1 .codex "s1" []) true 140]

/-- A session's cursor is past an event of another session that no accepted packet, of
whatever size, had in it. -/
def Skipped (E : Env) (calls : List Call) : Prop :=
  ∃ n ∈ (exec (step E) .empty calls).nativeSessions,
    ∃ e ∈ (exec (step E) .empty calls).events, e.workstreamId = n.workstreamId ∧
      e.sequence ≤ n.deliveryCursor ∧
      ¬ (e.agent = n.agent ∧ e.nativeSessionId = n.nativeSessionId) ∧
      ∀ earlier later runId requireUndelivered now,
        calls = earlier ++ .accept runId requireUndelivered now :: later →
        ∀ maxEvents ctx, runContext (exec (step E) .empty earlier) runId maxEvents = some ctx →
          e.shown ∉ ctx.events

lemma skipped_of_unassigned {calls : List Call}
    (hcursor : ∃ n ∈ (exec (step E) .empty calls).nativeSessions,
      ∃ e ∈ (exec (step E) .empty calls).events, e.workstreamId = n.workstreamId ∧
        e.sequence ≤ n.deliveryCursor ∧
        ¬ (e.agent = n.agent ∧ e.nativeSessionId = n.nativeSessionId))
    (hnone : ∀ k < calls.length, ∀ r ∈ (exec (step E) .empty (calls.take k)).runs,
      assigned (exec (step E) .empty (calls.take k)) r = []) : Skipped E calls := by
  obtain ⟨n, hn, e, he, hstream, hle, hforeign⟩ := hcursor
  refine ⟨n, hn, e, he, hstream, hle, hforeign, ?_⟩
  rintro earlier later runId requireUndelivered now hsplit maxEvents ctx hctx hshown
  have htake : calls.take earlier.length = earlier := by rw [hsplit, take_left]
  have hstate := hnone earlier.length (by simp [hsplit])
  rw [htake] at hstate
  rw [runContext, readBoundary] at hctx
  obtain ⟨⟨r, w⟩, hread, rfl⟩ := map_eq_some_iff.mp hctx
  obtain ⟨q, hq, hqr⟩ := Option.bind_eq_some_iff.mp (Option.filter_eq_some_iff.mp hread).1
  obtain ⟨v, -, hv⟩ := map_eq_some_iff.mp hqr
  obtain ⟨rfl, rfl⟩ : q = r ∧ v = w := by simpa using hv
  change e.shown ∈ (((assigned _ q).insertionSort _).take maxEvents).reverse.map EventRow.shown
    at hshown
  rw [hstate q (mem_of_findRun hq).1] at hshown
  simp at hshown

end Workstreams
