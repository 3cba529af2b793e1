/-
Token usage of a session (`upsert_session_usage` and `upsert_token_calls` of
`ai-memory-store/src/ops.rs`).

A report carries the totals of a session so far, a batch the counters of single model
calls.  Both are kept as maxima; after a batch the totals are raised to the sum over
the stored calls.

* `le_deliverAll`, `callSum_le_deliverAll` — what holds along every run.

The parse of a response's timestamp is a parameter.
-/
import Mathlib
import AiMemory.Lib.Joins
import AiMemory.Store.Schema

open Table Runs List

namespace TokenUsage

open Store

/-! ### Counters -/

inductive TokenColumn
  | input | output | cacheWrite | cacheRead
  deriving DecidableEq

abbrev TokenCounts := TokenColumn → ℕ

def i64Max : ℕ := 2 ^ 63 - 1

structure NewSessionUsage where
  sessionId : SessionId
  tokens : TokenCounts
  model : Option String

inductive TokenToolRelation
  | requested | input | turn
  deriving DecidableEq

structure TokenToolRef where
  id : String
  name : String
  relation : TokenToolRelation
  isError : Option Bool

structure TokenCallContext where
  turnId : Option String
  responseId : Option String
  recordedAt : Option String
  tools : List TokenToolRef

structure TokenCall where
  callId : String
  tokens : TokenCounts
  model : Option String
  context : Option TokenCallContext

/-- `i64::try_from(..).unwrap_or(i64::MAX)`, column by column. -/
def NewSessionUsage.counts (u : NewSessionUsage) : TokenCounts := fun k => min (u.tokens k) i64Max

/-- `min(1_000_000_000)`, column by column. -/
def TokenCall.counts (c : TokenCall) : TokenCounts := fun k => min (c.tokens k) 1000000000

/-! ### Tables -/

structure UsageRow where
  sessionId : SessionId
  counts : TokenCounts
  model : Option String
  updatedAt : ℤ

structure CallRow where
  sessionId : SessionId
  callId : String
  model : Option String
  counts : TokenCounts
  observedAt : ℤ
  turnId : Option String
  nativeResponseId : Option String
  responseAt : Option ℤ

structure ToolRow where
  sessionId : SessionId
  callId : String
  toolId : String
  toolName : String
  relation : TokenToolRelation
  isError : Option Bool

/-- Primary key of `token_calls`. -/
def CallRow.key (r : CallRow) : SessionId × String := (r.sessionId, r.callId)

/-- Primary key of `token_call_tools`. -/
def ToolRow.key (r : ToolRow) : SessionId × String × String × TokenToolRelation :=
  (r.sessionId, r.callId, r.toolId, r.relation)

/-- `ON CONFLICT(session_id) DO UPDATE`. -/
def UsageRow.merge (r new : UsageRow) : UsageRow :=
  { r with counts := r.counts ⊔ new.counts
           model := new.model.or r.model
           updatedAt := new.updatedAt }

/-- `ON CONFLICT(session_id, call_id) DO UPDATE`. -/
def CallRow.merge (r new : CallRow) : CallRow :=
  { r with model := new.model.or r.model
           counts := r.counts ⊔ new.counts
           turnId := r.turnId.or new.turnId
           nativeResponseId := r.nativeResponseId.or new.nativeResponseId
           responseAt := r.responseAt.or new.responseAt }

@[simp] lemma UsageRow.merge_sessionId (r new : UsageRow) :
    (r.merge new).sessionId = r.sessionId := rfl

@[simp] lemma CallRow.merge_key (r new : CallRow) : (r.merge new).key = r.key := rfl

/-- `ON CONFLICT(session_id, call_id, tool_id, relation) DO UPDATE`; an error stays one. -/
def ToolRow.merge (r new : ToolRow) : ToolRow :=
  { r with toolName := new.toolName
           isError := if r.isError = some true ∨ new.isError = some true then some true
             else new.isError.or r.isError }

structure TokenDb where
  sessions : List SessionId
  usage : List UsageRow
  calls : List CallRow
  tools : List ToolRow
  usageKeyed : KeyUnique UsageRow.sessionId usage
  callsKeyed : KeyUnique CallRow.key calls

inductive SqlError
  | foreignKey | integerOverflow
  deriving DecidableEq

/-! ### The two writes -/

def upsertSessionUsage (db : TokenDb) (u : NewSessionUsage) (now : ℤ) : Except SqlError TokenDb :=
  if u.sessionId ∈ db.sessions then
    .ok { db with
      usage := upsert UsageRow.sessionId UsageRow.merge db.usage
        ⟨u.sessionId, u.counts, u.model, now⟩
      usageKeyed := db.usageKeyed.upsert UsageRow.merge_sessionId _ }
  else .error .foreignKey

section

variable (parseTimestamp : String → Option ℤ)

def TokenCall.row (c : TokenCall) (sid : SessionId) (now : ℤ) : CallRow where
  sessionId := sid
  callId := c.callId
  model := c.model
  counts := c.counts
  observedAt := now
  turnId := c.context.bind (·.turnId)
  nativeResponseId := c.context.bind (·.responseId)
  responseAt := (c.context.bind (·.recordedAt)).bind parseTimestamp

def TokenCall.toolRows (c : TokenCall) (sid : SessionId) : List ToolRow :=
  ((c.context.map (·.tools)).getD []).take 16 |>.map fun t =>
    ⟨sid, c.callId, t.id, t.name, t.relation, t.isError⟩

def putCall (sid : SessionId) (now : ℤ) (db : TokenDb) (c : TokenCall) : TokenDb :=
  { db with
    calls := upsert CallRow.key CallRow.merge db.calls (c.row parseTimestamp sid now)
    tools := (c.toolRows sid).foldl (upsert ToolRow.key ToolRow.merge) db.tools
    callsKeyed := db.callsKeyed.upsert CallRow.merge_key _ }

def TokenDb.callSum (db : TokenDb) (sid : SessionId) : TokenCounts :=
  ((db.calls.filter (·.sessionId = sid)).map (·.counts)).sum

/-- Persist a batch and the session totals derived from it, in one transaction. -/
def upsertTokenCalls (db : TokenDb) (sid : SessionId) (calls : List TokenCall) (now : ℤ) :
    Except SqlError TokenDb :=
  let calls := calls.take 256
  if calls ≠ [] ∧ sid ∉ db.sessions then .error .foreignKey
  else
    let stored := calls.foldl (putCall parseTimestamp sid now) db
    let sums := stored.callSum sid
    -- `SUM` of integers raises an error on overflow
    if sums .input ≤ i64Max ∧ sums .output ≤ i64Max ∧ sums .cacheWrite ≤ i64Max
        ∧ sums .cacheRead ≤ i64Max then
      upsertSessionUsage stored ⟨sid, sums, calls.findSome? (·.model)⟩ now
    else .error .integerOverflow

inductive Delivery
  | report (tokens : TokenCounts) (model : Option String)
  | batch (calls : List TokenCall)

def write (sid : SessionId) (db : TokenDb) (d : Delivery) (now : ℤ) : Except SqlError TokenDb :=
  match d with
  | .report tokens model => upsertSessionUsage db ⟨sid, tokens, model⟩ now
  | .batch calls => upsertTokenCalls parseTimestamp db sid calls now

def deliver (sid : SessionId) (db : TokenDb) (d : Delivery × ℤ) : TokenDb :=
  (write parseTimestamp sid db d.1 d.2).toOption.getD db

def deliverAll (sid : SessionId) (db : TokenDb) (ds : List (Delivery × ℤ)) : TokenDb :=
  exec (deliver parseTimestamp sid) db ds

end

/-! ### What is stored for a session -/

/-- The counters of a call; `⊥` when it is not stored. -/
def TokenDb.callCounts (db : TokenDb) (sid : SessionId) (id : String) : WithBot TokenCounts :=
  (db.calls.find? fun r => r.key = (sid, id)).elim ⊥ fun r => (r.counts : WithBot TokenCounts)

/-- The totals of the session; `⊥` when there are none. -/
def TokenDb.totals (db : TokenDb) (sid : SessionId) : WithBot TokenCounts :=
  (db.usage.find? fun r => r.sessionId = sid).elim ⊥ fun r => (r.counts : WithBot TokenCounts)

def TokenCall.single (c : TokenCall) (id : String) : WithBot TokenCounts :=
  if id = c.callId then (c.counts : WithBot TokenCounts) else ⊥

section

variable {parseTimestamp : String → Option ℤ} {sid : SessionId} {now : ℤ} {db : TokenDb}

lemma callCounts_putCall (db : TokenDb) (c : TokenCall) :
    (putCall parseTimestamp sid now db c).callCounts sid = db.callCounts sid ⊔ c.single := by
  funext id
  have hfind := find?_upsert (t := db.calls) (fun r => CallRow.merge_key r
    (c.row parseTimestamp sid now)) (sid, id)
  rw [Pi.sup_apply, TokenDb.callCounts, TokenDb.callCounts, TokenCall.single]
  show (List.find? _ (upsert CallRow.key CallRow.merge db.calls _)).elim ⊥ _ = _
  rw [hfind]
  by_cases hid : id = c.callId
  · subst hid
    have hkey : (c.row parseTimestamp sid now).key = (sid, c.callId) := rfl
    rw [if_pos hkey.symm, if_pos rfl, Option.elim_some]
    cases db.calls.find? fun r => r.key = (sid, c.callId) with
    | none => exact (bot_sup_eq _).symm
    | some r => exact WithBot.coe_sup _ _
  · rw [if_neg hid, sup_bot_eq, if_neg]
    exact fun hkey => hid (congrArg Prod.snd hkey)

def batchCells (calls : List TokenCall) : String → WithBot TokenCounts :=
  calls.foldl (fun cells c => cells ⊔ c.single) ⊥

lemma foldl_single (calls : List TokenCall) (cells : String → WithBot TokenCounts) :
    calls.foldl (fun cells c => cells ⊔ c.single) cells = cells ⊔ batchCells calls := by
  induction calls generalizing cells with
  | nil => exact (sup_bot_eq _).symm
  | cons c calls ih =>
    rw [batchCells, foldl_cons, foldl_cons, ih, ih (⊥ ⊔ c.single), bot_sup_eq, sup_assoc]

lemma callCounts_putCalls (calls : List TokenCall) (db : TokenDb) :
    (calls.foldl (putCall parseTimestamp sid now) db).callCounts sid =
      db.callCounts sid ⊔ batchCells calls := by
  rw [← foldl_single]
  induction calls generalizing db with
  | nil => rfl
  | cons c calls ih => rw [foldl_cons, foldl_cons, ih, callCounts_putCall]

lemma putCalls_frame (calls : List TokenCall) (db : TokenDb) :
    (calls.foldl (putCall parseTimestamp sid now) db).sessions = db.sessions ∧
      (calls.foldl (putCall parseTimestamp sid now) db).usage = db.usage := by
  induction calls generalizing db with
  | nil => exact ⟨rfl, rfl⟩
  | cons c calls ih => exact ih (putCall parseTimestamp sid now db c)

variable {db' : TokenDb} {ids : Finset String} {d : Delivery} {top : String → WithBot TokenCounts}

lemma totals_upsertSessionUsage {u : NewSessionUsage} (hsid : u.sessionId = sid)
    (h : upsertSessionUsage db u now = .ok db') :
    db'.totals sid = db.totals sid ⊔ (u.counts : WithBot TokenCounts) ∧
      db'.callCounts sid = db.callCounts sid ∧ db'.calls = db.calls := by
  rw [upsertSessionUsage] at h
  split at h
  · cases h
    refine ⟨?_, rfl, rfl⟩
    have hfind := find?_upsert (t := db.usage) (fun r => UsageRow.merge_sessionId r
      ⟨u.sessionId, u.counts, u.model, now⟩) sid
    rw [TokenDb.totals, TokenDb.totals]
    show (List.find? _ (upsert UsageRow.sessionId UsageRow.merge db.usage _)).elim ⊥ _ = _
    rw [hfind, if_pos hsid.symm, Option.elim_some]
    cases db.usage.find? fun r => r.sessionId = sid with
    | none => exact (bot_sup_eq _).symm
    | some r => exact WithBot.coe_sup _ _
  · cases h

def cellSum (ids : Finset String) (cells : String → WithBot TokenCounts) : TokenCounts :=
  ∑ id ∈ ids, (cells id).unbotD 0

lemma unbotD_mono {a b : WithBot TokenCounts} (h : a ≤ b) : a.unbotD 0 ≤ b.unbotD 0 := by
  cases a with
  | bot => exact fun k => Nat.zero_le _
  | coe a =>
    cases b with
    | bot => exact absurd h (WithBot.not_coe_le_bot a)
    | coe b => exact WithBot.coe_le_coe.mp h

lemma cellSum_mono (ids : Finset String) : Monotone (cellSum ids) :=
  fun _ _ hle => Finset.sum_le_sum fun id _ => unbotD_mono (hle id)

lemma callSum_eq (db : TokenDb) (hids : ∀ id, db.callCounts sid id ≠ ⊥ → id ∈ ids) :
    db.callSum sid = cellSum ids (db.callCounts sid) := by
  have hnodup : ((db.calls.filter (·.sessionId = sid)).map (·.callId)).Nodup := by
    refine (nodup_map_iff_inj_on ?_).mpr ?_
    · exact (List.Nodup.of_map _ db.callsKeyed).filter _
    · intro r hr r' hr' hid
      rw [mem_filter, decide_eq_true_eq] at hr hr'
      exact db.callsKeyed.eq hr.1 hr'.1 (Prod.ext (hr.2.trans hr'.2.symm) hid)
  -- a row of the session is what its cell holds
  have hcell : ∀ r ∈ db.calls.filter (·.sessionId = sid),
      db.callCounts sid r.callId = (r.counts : WithBot TokenCounts) := by
    intro r hr
    rw [mem_filter, decide_eq_true_eq] at hr
    have hkey : r.key = (sid, r.callId) := Prod.ext hr.2 rfl
    rw [TokenDb.callCounts, db.callsKeyed.find?_eq_some.mpr ⟨hr.1, hkey⟩, Option.elim_some]
  have hsub : ((db.calls.filter (·.sessionId = sid)).map (·.callId)).toFinset ⊆ ids := by
    intro id hid
    obtain ⟨r, hr, rfl⟩ := mem_map.mp (mem_toFinset.mp hid)
    refine hids _ ?_
    rw [hcell r hr]
    exact WithBot.coe_ne_bot
  have hzero : ∀ id ∈ ids, id ∉ ((db.calls.filter (·.sessionId = sid)).map (·.callId)).toFinset →
      (db.callCounts sid id).unbotD 0 = 0 := by
    intro id _ hid
    rw [TokenDb.callCounts]
    cases hfind : db.calls.find? fun r => r.key = (sid, id) with
    | none => rfl
    | some r =>
      obtain ⟨hr, hkey⟩ := find?_key_some hfind
      refine absurd (mem_toFinset.mpr (mem_map.mpr ⟨r, ?_, ?_⟩)) hid
      · exact mem_filter.mpr ⟨hr, decide_eq_true (congrArg Prod.fst hkey)⟩
      · exact congrArg Prod.snd hkey
  rw [cellSum, ← Finset.sum_subset hsub hzero, sum_toFinset _ hnodup, map_map, TokenDb.callSum]
  refine congrArg List.sum (map_congr_left fun r hr => ?_)
  rw [Function.comp_apply, hcell r hr, WithBot.unbotD_coe]

/-! ### One delivery -/

theorem upsertTokenCalls_ok {calls : List TokenCall}
    (h : upsertTokenCalls parseTimestamp db sid calls now = .ok db') :
    (∀ k, db'.callSum sid k ≤ i64Max) ∧
      db'.callCounts sid = db.callCounts sid ⊔ batchCells (calls.take 256) ∧
      db'.totals sid = db.totals sid ⊔ (db'.callSum sid : WithBot TokenCounts) := by
  rw [upsertTokenCalls] at h
  split at h
  · cases h
  simp only at h
  split at h
  · rename_i hsums
    have hfits : ∀ k, ((calls.take 256).foldl (putCall parseTimestamp sid now) db).callSum sid k
        ≤ i64Max := by
      intro k
      cases k
      · exact hsums.1
      · exact hsums.2.1
      · exact hsums.2.2.1
      · exact hsums.2.2.2
    obtain ⟨htotals, hcounts, hcalls⟩ := totals_upsertSessionUsage rfl h
    have hsum : db'.callSum sid =
        ((calls.take 256).foldl (putCall parseTimestamp sid now) db).callSum sid := by
      rw [TokenDb.callSum, TokenDb.callSum, hcalls]
    rw [hsum, htotals, hcounts, callCounts_putCalls]
    refine ⟨hfits, rfl, ?_⟩
    -- the totals were not touched, and a sum that fits is not clamped
    have hclamp : NewSessionUsage.counts
        ⟨sid, ((calls.take 256).foldl (putCall parseTimestamp sid now) db).callSum sid,
          (calls.take 256).findSome? (·.model)⟩ =
        ((calls.take 256).foldl (putCall parseTimestamp sid now) db).callSum sid :=
      funext fun k => min_eq_left (hfits k)
    rw [hclamp, TokenDb.totals, (putCalls_frame _ db).2, ← TokenDb.totals]
  · cases h

lemma upsertTokenCalls_of_fits {calls : List TokenCall} (hsid : sid ∈ db.sessions)
    (hfits : ∀ k, ((calls.take 256).foldl (putCall parseTimestamp sid now) db).callSum sid k
      ≤ i64Max) : ∃ db', upsertTokenCalls parseTimestamp db sid calls now = .ok db' := by
  rw [upsertTokenCalls, if_neg (fun h => h.2 hsid)]
  simp only [if_pos (And.intro (hfits .input)
    (And.intro (hfits .output) (And.intro (hfits .cacheWrite) (hfits .cacheRead))))]
  rw [upsertSessionUsage, (putCalls_frame _ db).1, if_pos hsid]
  exact ⟨_, rfl⟩

def TokenDb.cells (db : TokenDb) (sid : SessionId) :
    Joins.Cells (String → WithBot TokenCounts) (WithBot TokenCounts) :=
  ⟨db.callCounts sid, db.totals sid⟩

def Delivery.calls : Delivery → List TokenCall
  | .report _ _ => []
  | .batch calls => calls.take 256

def Delivery.joined : Delivery → Joins.Delivery (String → WithBot TokenCounts) (WithBot TokenCounts)
  | .report tokens _ => .report ((fun k => min (tokens k) i64Max : TokenCounts) : WithBot TokenCounts)
  | .batch calls => .batch (batchCells (calls.take 256))

def derived (ids : Finset String) (cells : String → WithBot TokenCounts) : WithBot TokenCounts :=
  (cellSum ids cells : WithBot TokenCounts)

lemma derived_mono (ids : Finset String) : Monotone (derived ids) :=
  fun _ _ hle => WithBot.coe_le_coe.mpr (cellSum_mono ids hle)

/-- All calls that the cells know are among `ids`. -/
def Covers (ids : Finset String) (cells : String → WithBot TokenCounts) : Prop :=
  ∀ id, cells id ≠ ⊥ → id ∈ ids

lemma Covers.anti {cells cells' : String → WithBot TokenCounts}
    (h : Covers ids cells') (hle : cells ≤ cells') : Covers ids cells := by
  intro id hid
  refine h id fun hbot => hid ?_
  exact le_bot_iff.mp (hbot ▸ hle id)

lemma write_cells (h : write parseTimestamp sid db d now = .ok db')
    (hids : Covers ids (db.callCounts sid ⊔ batchCells d.calls)) :
    db'.cells sid = Joins.deliver (derived ids) (db.cells sid) d.joined := by
  cases d with
  | report tokens model =>
    obtain ⟨htotals, hcounts, -⟩ := totals_upsertSessionUsage rfl h
    exact Joins.Cells.ext hcounts htotals
  | batch calls =>
    obtain ⟨-, hcounts, htotals⟩ := upsertTokenCalls_ok h
    refine Joins.Cells.ext hcounts ?_
    have hsum : db'.callSum sid = cellSum ids (db'.callCounts sid) :=
      callSum_eq db' (hcounts ▸ hids)
    rw [hsum, hcounts] at htotals
    exact htotals

lemma write_sessions (h : write parseTimestamp sid db d now = .ok db') :
    sid ∈ db.sessions ∧ db'.sessions = db.sessions := by
  have hreport : ∀ (db : TokenDb) (u : NewSessionUsage), u.sessionId = sid →
      upsertSessionUsage db u now = .ok db' → sid ∈ db.sessions ∧ db'.sessions = db.sessions := by
    intro db u hu hok
    rw [← hu]
    rw [upsertSessionUsage] at hok
    split at hok
    · rename_i hmem
      cases hok
      exact ⟨hmem, rfl⟩
    · cases hok
  cases d with
  | report tokens model => exact hreport db _ rfl h
  | batch calls =>
    rw [write, upsertTokenCalls] at h
    split at h
    · cases h
    simp only at h
    split at h
    · have hok := hreport _ _ rfl h
      rwa [(putCalls_frame (calls.take 256) db).1] at hok
    · cases h

lemma deliver_missing (hsid : sid ∉ db.sessions) (d : Delivery × ℤ) :
    deliver parseTimestamp sid db d = db := by
  rw [deliver]
  cases hw : write parseTimestamp sid db d.1 d.2 with
  | error e => rfl
  | ok db' => exact absurd (write_sessions hw).1 hsid

lemma deliver_ok
    (hids : Covers ids top) (hfits : ∀ k, cellSum ids top k ≤ i64Max) (hsid : sid ∈ db.sessions)
    (hdb : db.callCounts sid ≤ top) {d : Delivery × ℤ} (hd : batchCells d.1.calls ≤ top) :
    (deliver parseTimestamp sid db d).cells sid =
        Joins.deliver (derived ids) (db.cells sid) d.1.joined ∧
      (deliver parseTimestamp sid db d).sessions = db.sessions := by
  have hcovers : Covers ids (db.callCounts sid ⊔ batchCells d.1.calls) :=
    hids.anti (sup_le hdb hd)
  have hok : ∃ db', write parseTimestamp sid db d.1 d.2 = .ok db' := by
    obtain ⟨d, now⟩ := d
    cases d with
    | report tokens model => exact ⟨_, if_pos hsid⟩
    | batch calls =>
      refine upsertTokenCalls_of_fits hsid fun k => ?_
      have hcounts : ((calls.take 256).foldl (putCall parseTimestamp sid now) db).callCounts sid =
          db.callCounts sid ⊔ batchCells (calls.take 256) := callCounts_putCalls _ db
      rw [callSum_eq _ (hcounts ▸ hcovers), hcounts]
      exact (cellSum_mono ids (sup_le hdb hd) k).trans (hfits k)
  obtain ⟨db', hdb'⟩ := hok
  rw [deliver, hdb']
  exact ⟨write_cells hdb' hcovers, (write_sessions hdb').2⟩

/-! ### Runs -/

theorem deliverAll_cells
    (hids : Covers ids top) (hfits : ∀ k, cellSum ids top k ≤ i64Max) {ds : List (Delivery × ℤ)}
    (hsid : sid ∈ db.sessions) (hdb : db.callCounts sid ≤ top)
    (hds : ∀ d ∈ ds, batchCells d.1.calls ≤ top) :
    (deliverAll parseTimestamp sid db ds).cells sid =
      exec (Joins.deliver (derived ids)) (db.cells sid) (ds.map (·.1.joined)) := by
  induction ds generalizing db with
  | nil => rfl
  | cons d ds ih =>
    obtain ⟨hd, hds⟩ := forall_mem_cons.mp hds
    obtain ⟨hcells, hsessions⟩ : (deliver parseTimestamp sid db d).cells sid =
        Joins.deliver (derived ids) (db.cells sid) d.1.joined ∧
          (deliver parseTimestamp sid db d).sessions = db.sessions :=
      deliver_ok hids hfits hsid hdb hd
    have hnext : (deliver parseTimestamp sid db d).callCounts sid ≤ top := by
      have hbase := congrArg Joins.Cells.base hcells
      obtain ⟨d, now⟩ := d
      cases d with
      | report tokens model => exact hbase.trans_le hdb
      | batch calls => exact hbase.trans_le (sup_le hdb hd)
    rw [deliverAll, exec_cons, map_cons, exec_cons, ← hcells]
    exact ih (hsessions ▸ hsid) hnext hds

lemma batchCells_le_iff {calls : List TokenCall} {x : String → WithBot TokenCounts} :
    batchCells calls ≤ x ↔ ∀ c ∈ calls, c.single ≤ x := by
  induction calls with
  | nil => exact iff_of_true bot_le fun _ h => absurd h not_mem_nil
  | cons c calls ih =>
    rw [batchCells, foldl_cons, foldl_single, sup_le_iff, bot_sup_eq, ih, forall_mem_cons]

def TokenDb.peak (db : TokenDb) (sid : SessionId) (ds : List Delivery) :
    String → WithBot TokenCounts :=
  db.callCounts sid ⊔ batchCells (ds.flatMap Delivery.calls)

def TokenDb.callIds (db : TokenDb) (ds : List Delivery) : Finset String :=
  (db.calls.map (·.callId)).toFinset ∪ ((ds.flatMap Delivery.calls).map (·.callId)).toFinset

/-- The calls of the deliveries add up, cell by cell, within an `i64`. -/
def TokenDb.Fits (db : TokenDb) (sid : SessionId) (ds : List Delivery) : Prop :=
  ∀ k, cellSum (db.callIds ds) (db.peak sid ds) k ≤ i64Max

lemma batchCells_le_peak {ds : List Delivery} (h : d ∈ ds) :
    batchCells d.calls ≤ db.peak sid ds := by
  refine (batchCells_le_iff.mpr fun c hc => ?_).trans le_sup_right
  exact batchCells_le_iff.mp le_rfl c (mem_flatMap.mpr ⟨d, h, hc⟩)

lemma batchCells_of_notMem {calls : List TokenCall} {id : String}
    (h : id ∉ calls.map (·.callId)) : batchCells calls id = ⊥ := by
  induction calls with
  | nil => rfl
  | cons c calls ih =>
    rw [map_cons, mem_cons, not_or] at h
    rw [batchCells, foldl_cons, foldl_single, bot_sup_eq, Pi.sup_apply, ih h.2,
      TokenCall.single, if_neg h.1, sup_bot_eq]

lemma covers_peak (ds : List Delivery) : Covers (db.callIds ds) (db.peak sid ds) := by
  intro id hid
  rw [TokenDb.callIds, Finset.mem_union, mem_toFinset, mem_toFinset]
  refine by_contra fun hno => hid ?_
  obtain ⟨hstored, hdelivered⟩ := not_or.mp hno
  have hnone : db.callCounts sid id = ⊥ := by
    rw [TokenDb.callCounts, find?_key_eq_none.mpr fun r hr hkey => hstored ?_, Option.elim_none]
    exact mem_map.mpr ⟨r, hr, congrArg Prod.snd hkey⟩
  rw [TokenDb.peak, Pi.sup_apply, hnone, batchCells_of_notMem hdelivered, sup_bot_eq]

lemma deliverAll_congr {ds ds' : List (Delivery × ℤ)} (hfits : db.Fits sid (ds.map (·.1)))
    (h : ∀ d, d ∈ ds.map (·.1) ↔ d ∈ ds'.map (·.1)) :
    (deliverAll parseTimestamp sid db ds).cells sid =
      (deliverAll parseTimestamp sid db ds').cells sid := by
  by_cases hsid : sid ∈ db.sessions
  · have hrun : ∀ ds' : List (Delivery × ℤ), (∀ d ∈ ds', d.1 ∈ ds.map (·.1)) →
        (deliverAll parseTimestamp sid db ds').cells sid =
          exec (Joins.deliver (derived (db.callIds (ds.map (·.1))))) (db.cells sid)
            (ds'.map (·.1.joined)) := fun ds' hds' =>
      deliverAll_cells (covers_peak _) hfits hsid le_sup_left fun d hd =>
        batchCells_le_peak (hds' d hd)
    rw [hrun ds fun d hd => mem_map_of_mem hd, hrun ds' fun d hd => (h d.1).mpr (mem_map_of_mem hd)]
    refine Joins.exec_congr (derived_mono _) fun j => ?_
    have hjoined : ∀ ds : List (Delivery × ℤ), j ∈ ds.map (·.1.joined) ↔
        ∃ d ∈ ds.map (·.1), d.joined = j := by
      intro ds
      simp only [mem_map, exists_exists_and_eq_and]
    rw [hjoined, hjoined]
    simp only [h]
  · have hkeep : ∀ ds : List (Delivery × ℤ), deliverAll parseTimestamp sid db ds = db := by
      intro ds
      induction ds with
      | nil => rfl
      | cons d ds ih => rw [deliverAll, exec_cons, deliver_missing hsid, ← deliverAll, ih]
    rw [hkeep, hkeep]

lemma le_deliver (db : TokenDb) (d : Delivery × ℤ) :
    db.totals sid ≤ (deliver parseTimestamp sid db d).totals sid ∧
      db.callCounts sid ≤ (deliver parseTimestamp sid db d).callCounts sid := by
  rw [deliver]
  cases hw : write parseTimestamp sid db d.1 d.2 with
  | error e => exact ⟨le_rfl, le_rfl⟩
  | ok db' =>
    obtain ⟨d, now⟩ := d
    cases d with
    | report tokens model =>
      obtain ⟨htotals, hcounts, -⟩ := totals_upsertSessionUsage rfl hw
      exact ⟨le_sup_left.trans_eq htotals.symm, hcounts.ge⟩
    | batch calls =>
      obtain ⟨-, hcounts, htotals⟩ := upsertTokenCalls_ok hw
      exact ⟨le_sup_left.trans_eq htotals.symm, le_sup_left.trans_eq hcounts.symm⟩

lemma le_deliverAll (db : TokenDb) (ds : List (Delivery × ℤ)) :
    db.totals sid ≤ (deliverAll parseTimestamp sid db ds).totals sid ∧
      db.callCounts sid ≤ (deliverAll parseTimestamp sid db ds).callCounts sid :=
  exec_invariant (I := fun db' => db.totals sid ≤ db'.totals sid ∧
    db.callCounts sid ≤ db'.callCounts sid)
    (fun db' d h => ⟨h.1.trans (le_deliver db' d).1, h.2.trans (le_deliver db' d).2⟩)
    ⟨le_rfl, le_rfl⟩ ds

lemma deliver_le_deliverAll (db : TokenDb) (d : Delivery × ℤ) (ds : List (Delivery × ℤ)) :
    (deliver parseTimestamp sid db d).callCounts sid ≤
      (deliverAll parseTimestamp sid db (d :: ds)).callCounts sid := by
  rw [deliverAll, exec_cons]
  exact (le_deliverAll _ ds).2

/-- The session's total is at least the sum of its calls. -/
def TokenDb.Covered (db : TokenDb) (sid : SessionId) : Prop :=
  db.callSum sid ≤ (db.totals sid).unbotD 0

lemma covered_deliver (db : TokenDb) (d : Delivery × ℤ) (h : db.Covered sid) :
    (deliver parseTimestamp sid db d).Covered sid := by
  rw [deliver]
  cases hw : write parseTimestamp sid db d.1 d.2 with
  | error e => exact h
  | ok db' =>
    obtain ⟨d, now⟩ := d
    cases d with
    | report tokens model =>
      obtain ⟨htotals, -, hcalls⟩ := totals_upsertSessionUsage rfl hw
      show db'.callSum sid ≤ (db'.totals sid).unbotD 0
      rw [TokenDb.callSum, hcalls, htotals]
      exact h.trans (unbotD_mono le_sup_left)
    | batch calls =>
      obtain ⟨-, -, htotals⟩ := upsertTokenCalls_ok hw
      show db'.callSum sid ≤ (db'.totals sid).unbotD 0
      rw [htotals]
      exact unbotD_mono (a := (db'.callSum sid : WithBot TokenCounts)) le_sup_right

lemma callSum_le_deliverAll (h : db.Covered sid) (ds : List (Delivery × ℤ)) :
    (deliverAll parseTimestamp sid db ds).Covered sid :=
  exec_invariant (fun db d h => covered_deliver db d h) h ds

lemma callSum_le_i64Max (h : ∀ k, db.callSum sid k ≤ i64Max) (ds : List (Delivery × ℤ)) (k) :
    (deliverAll parseTimestamp sid db ds).callSum sid k ≤ i64Max := by
  refine exec_invariant (I := fun db : TokenDb => ∀ k, db.callSum sid k ≤ i64Max) ?_ h ds k
  intro db d hdb
  rw [deliver]
  cases hw : write parseTimestamp sid db d.1 d.2 with
  | error e => exact hdb
  | ok db' =>
    obtain ⟨d, now⟩ := d
    cases d with
    | report tokens model =>
      obtain ⟨-, -, hcalls⟩ := totals_upsertSessionUsage rfl hw
      show ∀ k, db'.callSum sid k ≤ i64Max
      rwa [TokenDb.callSum, hcalls]
    | batch calls => exact (upsertTokenCalls_ok hw).1

end

/-- Token usage does not depend on the order or the repetition of deliveries, as long as the sums
over the calls fit a column; nothing ever goes down, and the totals stay above the sums. -/
theorem usage_order_independent (parseTimestamp : String → Option ℤ) (sid : SessionId)
    (db : TokenDb) :
    (∀ ds ds' : List (Delivery × ℤ), db.Fits sid (ds.map (·.1)) →
      (∀ d, d ∈ ds.map (·.1) ↔ d ∈ ds'.map (·.1)) →
        (deliverAll parseTimestamp sid db ds).totals sid =
            (deliverAll parseTimestamp sid db ds').totals sid ∧
          (deliverAll parseTimestamp sid db ds).callCounts sid =
            (deliverAll parseTimestamp sid db ds').callCounts sid) ∧
    (∀ ds ds' : List (Delivery × ℤ),
      (deliverAll parseTimestamp sid db ds).totals sid ≤
          (deliverAll parseTimestamp sid db (ds ++ ds')).totals sid ∧
        (deliverAll parseTimestamp sid db ds).callCounts sid ≤
          (deliverAll parseTimestamp sid db (ds ++ ds')).callCounts sid) ∧
    (db.Covered sid → ∀ ds, (deliverAll parseTimestamp sid db ds).Covered sid) := by
  refine ⟨fun ds ds' hfits h => ?_, fun ds ds' => ?_, fun h ds => callSum_le_deliverAll h ds⟩
  · have hcells : (deliverAll parseTimestamp sid db ds).cells sid =
        (deliverAll parseTimestamp sid db ds').cells sid := deliverAll_congr hfits h
    exact ⟨congrArg Joins.Cells.total hcells, congrArg Joins.Cells.base hcells⟩
  · rw [deliverAll, deliverAll, exec_append]
    exact le_deliverAll _ ds'

def freshSession (sid : SessionId) : TokenDb :=
  ⟨[sid], [], [], [], nodup_nil, nodup_nil⟩

/-- A batch that is delivered twice, and a report in between. -/
theorem usage_order_independent_retried :
    let batch := Delivery.batch [⟨"response-1", fun _ => 30, none, none⟩]
    let report := Delivery.report (fun _ => 20) (some "test-model")
    let first := deliverAll (fun _ => none) 1 (freshSession 1) [(report, 1), (batch, 2)]
    let second :=
      deliverAll (fun _ => none) 1 (freshSession 1) [(batch, 3), (report, 4), (batch, 5)]
    first.totals 1 = second.totals 1 ∧ first.callCounts 1 = second.callCounts 1 ∧
      first.Covered 1 := by
  intro batch report first second
  have hfits : (freshSession 1).Fits 1 [report, batch] := by
    intro k
    show min 30 1000000000 + 0 ≤ i64Max
    decide
  have hmem : ∀ d, d ∈ [report, batch] ↔ d ∈ [batch, report, batch] := by
    intro d
    simp only [mem_cons, not_mem_nil, or_false]
    exact ⟨fun h => h.elim (fun h => .inr (.inl h)) .inl,
      fun h => h.elim .inr fun h => h⟩
  have hspec := usage_order_independent (fun _ => none) 1 (freshSession 1)
  obtain ⟨htotals, hcounts⟩ := hspec.1 [(report, 1), (batch, 2)]
    [(batch, 3), (report, 4), (batch, 5)] hfits hmem
  exact ⟨htotals, hcounts, hspec.2.2 (fun k => Nat.zero_le _) _⟩

def billion (i : ℕ) : Delivery × ℤ :=
  (.batch [⟨i.repr, fun _ => 1000000000, none, none⟩], 0)

def tooManyCalls : List (Delivery × ℤ) := (List.range 9223372037).map billion

lemma billion_first (sid : SessionId) (i : ℕ) :
    (deliver (fun _ => none) sid (freshSession sid) (billion i)).callCounts sid i.repr =
      ((fun _ => 1000000000 : TokenCounts) : WithBot TokenCounts) := by
  have hsingle : batchCells (billion i).1.calls =
      TokenCall.single ⟨i.repr, fun _ => 1000000000, none, none⟩ := bot_sup_eq _
  have hids : Covers {i.repr} (batchCells (billion i).1.calls) := by
    intro id hid
    rw [hsingle, TokenCall.single] at hid
    rw [Finset.mem_singleton]
    exact by_contra fun hne => hid (if_neg hne)
  have hfits : ∀ k, cellSum {i.repr} (batchCells (billion i).1.calls) k ≤ i64Max := by
    intro k
    rw [hsingle, cellSum, Finset.sum_singleton, TokenCall.single, if_pos rfl, WithBot.unbotD_coe]
    show min 1000000000 1000000000 ≤ 2 ^ 63 - 1
    omega
  obtain ⟨hcells, -⟩ : (deliver (fun _ => none) sid (freshSession sid) (billion i)).cells sid =
      Joins.deliver (derived {i.repr}) ((freshSession sid).cells sid) (billion i).1.joined ∧ _ :=
    deliver_ok hids hfits (mem_singleton_self sid) bot_le le_rfl
  have hbase := congrFun (congrArg Joins.Cells.base hcells) i.repr
  refine hbase.trans ?_
  show (⊥ ⊔ batchCells (billion i).1.calls) i.repr = _
  rw [hsingle, bot_sup_eq, TokenCall.single, if_pos rfl]
  rfl

lemma billions_le_callSum {db : TokenDb} {sid : SessionId} {n : ℕ}
    (hstored : ∀ i < n, ((fun _ => 1000000000 : TokenCounts) : WithBot TokenCounts) ≤
      db.callCounts sid i.repr) : n * 1000000000 ≤ db.callSum sid .input := by
  have hcovers : Covers (db.callIds []) (db.callCounts sid) := (covers_peak []).anti le_sup_left
  have hsub : (Finset.range n).image Nat.repr ⊆ db.callIds [] := by
    intro id hid
    obtain ⟨i, hi, rfl⟩ := Finset.mem_image.mp hid
    refine hcovers _ fun hbot => ?_
    have hle := hstored i (Finset.mem_range.mp hi)
    rw [hbot] at hle
    exact WithBot.not_coe_le_bot _ hle
  have hle : ((Finset.range n).image Nat.repr).card • (fun _ => 1000000000 : TokenCounts) ≤
      db.callSum sid := by
    rw [callSum_eq db hcovers, cellSum]
    refine (Finset.card_nsmul_le_sum _ _ _ fun id hid => ?_).trans
      (Finset.sum_le_sum_of_subset_of_nonneg hsub fun id _ _ => fun k => Nat.zero_le _)
    obtain ⟨i, hi, rfl⟩ := Finset.mem_image.mp hid
    exact unbotD_mono (hstored i (Finset.mem_range.mp hi))
  rw [Finset.card_image_of_injective _ fun _ _ => Nat.repr_injective, Finset.card_range] at hle
  have hinput : (n • (fun _ => 1000000000 : TokenCounts)) .input ≤ db.callSum sid .input :=
    hle .input
  rwa [Pi.smul_apply, smul_eq_mul] at hinput

/-- One of them is left out, unless it is delivered first. -/
theorem too_many_calls_depend_on_order : ∃ d ∈ tooManyCalls,
    (deliverAll (fun _ => none) 1 (freshSession 1) (d :: tooManyCalls)).callCounts 1 ≠
      (deliverAll (fun _ => none) 1 (freshSession 1) tooManyCalls).callCounts 1 := by
  by_contra hno
  simp only [not_exists, not_and, not_not] at hno
  have hsmall : (deliverAll (fun _ => none) 1 (freshSession 1) tooManyCalls).callSum 1 .input ≤
      i64Max := callSum_le_i64Max (fun k => Nat.zero_le _) _ _
  -- all of them are stored then
  have hstored : ∀ i < 9223372037, ((fun _ => 1000000000 : TokenCounts) : WithBot TokenCounts) ≤
      (deliverAll (fun _ => none) 1 (freshSession 1) tooManyCalls).callCounts 1 i.repr := by
    intro i hi
    have hmem : billion i ∈ tooManyCalls := mem_map_of_mem (mem_range.mpr hi)
    rw [← hno _ hmem]
    exact (billion_first 1 i).symm.trans_le (deliver_le_deliverAll _ _ _ i.repr)
  have hcontra := (billions_le_callSum hstored).trans hsmall
  rw [i64Max] at hcontra
  omega

end TokenUsage
