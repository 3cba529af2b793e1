/-
The relay's durable queue (`ai-memory-relay/src/queue.rs`, with the identity
and bounds of `identity.rs`).

The database has three tables: pending events, receipts of acknowledged ones,
and session-to-agent pins.  Every operation here is one `IMMEDIATE`
transaction of the source; a failed one returns an error and no queue, which
is the rollback.

* `stampAttempt`, `confirm`, `recordFailure`, `prune` — the rest of the life
  of an event.

The tables `meta` and `binding`, and the open/migration path, are not read by
these operations and are left out.
-/
import Mathlib.Data.List.AList
import AiMemory.Lib.Json
import AiMemory.Lib.Strings
import AiMemory.Lib.Table
import AiMemory.Relay.Ack

open Runs
open Strings (isControl)

namespace Relay

/-! ### Bounds and identity -/

def maxPendingItems : ℕ := 50000

def maxPendingBytes : ℕ := 64 * 1024 * 1024

def maxReceipts : ℕ := 200000

def maxSessionPins : ℕ := 50000

/-- Items in one `POST /hook/batch`. -/
def maxBatchItems : ℕ := 256

def retryWindowMs : ℤ := 30 * 24 * 60 * 60 * 1000

/-- `i64::saturating_sub`. -/
def saturatingSub (a b : ℤ) : ℤ := max (-2 ^ 63) (min (2 ^ 63 - 1) (a - b))

/-- The retry identity: payload content does not contribute to the key.
`sha256` is SHA-256 in lowercase hex. -/
def ingestKey (sha256 : String → String)
    (producer actor agent sessionId sourceEvent eventId : String) : String :=
  sha256 (Json.stringArray
    ["external-capture-v1", producer, actor, agent, sessionId, sourceEvent, eventId])

structure ValidEvent where
  eventId : String
  agent : String
  event : String
  sessionId : String
  cwd : String
  bodyJson : String
  bodySha256 : String
  ingestKey : String
  deriving DecidableEq

/-- What `identity::validate` computes for every event it returns, for the
producer and actor the queue is bound to. -/
structure ValidEvent.Wf (sha256 : String → String) (producer actor : String) (e : ValidEvent) :
    Prop where
  bodySha256 : e.bodySha256 = sha256 e.bodyJson
  ingestKey :
    e.ingestKey = Relay.ingestKey sha256 producer actor e.agent e.sessionId e.event e.eventId

/-! ### Tables -/

/-- A row of `pending`. -/
structure PendingRow where
  seq : ℕ
  ingestKey : String
  eventId : String
  agent : String
  event : String
  sessionId : String
  cwd : String
  bodyJson : String
  bodySha256 : String
  bodyBytes : ℕ
  firstSeenMs : ℤ
  firstAttemptMs : Option ℤ
  attempts : ℕ
  lastError : Option String
  deriving DecidableEq

/-- Session coordinate: one head per `(agent, session_id)` per batch. -/
def PendingRow.session (r : PendingRow) : String × String := (r.agent, r.sessionId)

/-- A row of `receipt`; `outcome` is null only in rows from schema version 1. -/
structure ReceiptRow where
  ingestKey : String
  bodySha256 : String
  firstAttemptMs : ℤ
  deliveredAtMs : ℤ
  outcome : Option Outcome
  deriving DecidableEq

/-- A row of `session_agent`. -/
structure SessionPin where
  sessionId : String
  agent : String
  lastSeenMs : ℤ
  deriving DecidableEq

/-- The queue database.  `nextSeq` is the `AUTOINCREMENT` counter of `pending`,
whose rows are kept in insertion order. -/
structure Queue where
  pending : List PendingRow
  receipts : List ReceiptRow
  pins : List SessionPin
  nextSeq : ℕ
  deriving DecidableEq

def Queue.empty : Queue := ⟨[], [], [], 1⟩

variable (q : Queue)

def Queue.pendingBytes : ℕ := (q.pending.map (·.bodyBytes)).sum

/-- `SELECT agent FROM session_agent WHERE session_id = ?1`. -/
def agentOf (pins : List SessionPin) (sessionId : String) : Option String :=
  (pins.find? fun p => p.sessionId = sessionId).map (·.agent)

/-- `SELECT body_sha256 FROM pending … UNION ALL SELECT body_sha256 FROM receipt …`. -/
def knownDigest (pending : List PendingRow) (receipts : List ReceiptRow) (key : String) :
    Option String :=
  match pending.find? fun r => r.ingestKey = key with
  | some r => some r.bodySha256
  | none => (receipts.find? fun r => r.ingestKey = key).map (·.bodySha256)

/-! ### `enqueue` -/

inductive EnqueueError
  | pinTableFull
  | sessionConflict (sessionId bound eventId agent : String)
  | collisionInFile (key : String)
  | collisionInQueue (key : String)
  | queueFull (items bytes : ℕ)
  | replayFull (receipts items «protected» : ℕ)
  deriving DecidableEq

/-- Per-file result of `enqueue`. -/
structure EnqueueReport where
  accepted : ℕ
  recognized : ℕ
  deriving DecidableEq

/-- What the loop of `enqueue` carries: the rows of the open transaction, the
running totals, and the keys and sessions this file has named so far. -/
structure EnqueueTx where
  pending : List PendingRow
  nextSeq : ℕ
  items : ℕ
  bytes : ℕ
  pinCount : ℕ
  report : EnqueueReport
  seenKeys : AList fun _ : String => String
  seenSessions : AList fun _ : String => String

def ValidEvent.row (e : ValidEvent) (seq : ℕ) (nowMs : ℤ) : PendingRow where
  seq := seq
  ingestKey := e.ingestKey
  eventId := e.eventId
  agent := e.agent
  event := e.event
  sessionId := e.sessionId
  cwd := e.cwd
  bodyJson := e.bodyJson
  bodySha256 := e.bodySha256
  bodyBytes := e.bodyJson.utf8ByteSize
  firstSeenMs := nowMs
  firstAttemptMs := none
  attempts := 0
  lastError := none

/-- The session check of one event: its pin (in the table, or made earlier in
this file), and the cap on pins when it has none. -/
def bindSession (pins : List SessionPin) (tx : EnqueueTx) (e : ValidEvent) :
    Except EnqueueError EnqueueTx :=
  match (agentOf pins e.sessionId).or (tx.seenSessions.lookup e.sessionId) with
  | none =>
    if maxSessionPins < tx.pinCount + 1 then .error .pinTableFull
    else .ok { tx with
      pinCount := tx.pinCount + 1
      seenSessions := tx.seenSessions.insert e.sessionId e.agent }
  | some bound =>
    if bound ≠ e.agent then .error (.sessionConflict e.sessionId bound e.eventId e.agent)
    else .ok { tx with seenSessions := tx.seenSessions.insert e.sessionId e.agent }

def noteKey (tx : EnqueueTx) (e : ValidEvent) : Except EnqueueError EnqueueTx :=
  let tx' := { tx with seenKeys := tx.seenKeys.insert e.ingestKey e.bodySha256 }
  match tx.seenKeys.lookup e.ingestKey with
  | some previous =>
    if previous ≠ e.bodySha256 then .error (.collisionInFile e.ingestKey) else .ok tx'
  | none => .ok tx'

variable (receipts : List ReceiptRow)

def insertEvent (nowMs : ℤ) (tx : EnqueueTx) (e : ValidEvent) :
    Except EnqueueError EnqueueTx :=
  match knownDigest tx.pending receipts e.ingestKey with
  | some known =>
    if known ≠ e.bodySha256 then .error (.collisionInQueue e.ingestKey)
    else .ok { tx with report := { tx.report with recognized := tx.report.recognized + 1 } }
  | none =>
    let items := tx.items + 1
    let bytes := tx.bytes + e.bodyJson.utf8ByteSize
    if maxPendingItems < items ∨ maxPendingBytes < bytes then .error (.queueFull items bytes)
    else if maxReceipts < receipts.length + items then
      .error (.replayFull receipts.length items (receipts.length + items))
    else .ok { tx with
      pending := tx.pending ++ [e.row tx.nextSeq nowMs]
      nextSeq := tx.nextSeq + 1
      items := items
      bytes := bytes
      report := { tx.report with accepted := tx.report.accepted + 1 } }

variable (nowMs : ℤ)

/-- One turn of the loop of `enqueue`. -/
def enqueueOne (tx : EnqueueTx) (e : ValidEvent) :
    Except EnqueueError EnqueueTx := do
  let tx ← bindSession q.pins tx e
  let tx ← noteKey tx e
  insertEvent q.receipts nowMs tx e

/-- `INSERT INTO session_agent … ON CONFLICT(session_id) DO UPDATE SET last_seen_ms`. -/
def upsertPin (pins : List SessionPin) (p : Σ _ : String, String) :
    List SessionPin :=
  if pins.any (fun r => r.sessionId = p.1) then
    Table.update (fun r => r.sessionId = p.1) (fun r => { r with lastSeenMs := nowMs }) pins
  else pins ++ [⟨p.1, p.2, nowMs⟩]

def Queue.beginTx : EnqueueTx where
  pending := q.pending
  nextSeq := q.nextSeq
  items := q.pending.length
  bytes := q.pendingBytes
  pinCount := q.pins.length
  report := ⟨0, 0⟩
  seenKeys := ∅
  seenSessions := ∅

def enqueue (events : List ValidEvent) (nowMs : ℤ) :
    Except EnqueueError (EnqueueReport × Queue) := do
  let tx ← events.foldlM (enqueueOne q nowMs) q.beginTx
  return (tx.report, { q with
    pending := tx.pending
    nextSeq := tx.nextSeq
    pins := tx.seenSessions.entries.foldl (upsertPin nowMs) q.pins })

def isExpired (firstAttemptMs : Option ℤ) (nowMs : ℤ) : Bool :=
  match firstAttemptMs with
  | some started => decide (retryWindowMs ≤ saturatingSub nowMs started)
  | none => false

structure Batch where
  items : List PendingRow
  blockedSessions : ℕ
  budgetDeferred : ℕ
  deriving DecidableEq

/-- What the scan of `select_batch` carries over the rows. -/
structure Scan where
  seen : List (String × String)
  batch : Batch
  spent : ℕ
  deriving DecidableEq

/-- One row of the scan: its session is looked at once, and then deferred,
blocked, held by the byte budget, or selected. -/
def scanRow (byteBudget : ℕ) (nowMs : ℤ) (deferred : List (String × String))
    (costOf : PendingRow → ℕ) (sc : Scan) (item : PendingRow) : Scan :=
  if item.session ∈ sc.seen then sc
  else
    let sc := { sc with seen := item.session :: sc.seen }
    if item.session ∈ deferred then sc
    else if isExpired item.firstAttemptMs nowMs then
      { sc with batch := { sc.batch with blockedSessions := sc.batch.blockedSessions + 1 } }
    else if sc.batch.items ≠ [] ∧ byteBudget < sc.spent + costOf item then
      { sc with batch := { sc.batch with budgetDeferred := sc.batch.budgetDeferred + 1 } }
    else
      { sc with
        batch := { sc.batch with items := sc.batch.items ++ [item] }
        spent := sc.spent + costOf item }

def scanRows (limit byteBudget : ℕ) (nowMs : ℤ) (deferred : List (String × String))
    (costOf : PendingRow → ℕ) : Scan → List PendingRow → Scan
  | sc, [] => sc
  | sc, item :: rest =>
    if limit ≤ sc.batch.items.length then sc
    else scanRows limit byteBudget nowMs deferred costOf
      (scanRow byteBudget nowMs deferred costOf sc item) rest

/-- Pick at most one pending head per `(agent, session_id)`, oldest first,
within both an item count and a wire-byte budget. -/
def selectBatch (limit byteBudget : ℕ) (nowMs : ℤ)
    (deferred : List (String × String)) (costOf : PendingRow → ℕ) : Batch :=
  (scanRows (max 1 (min limit maxBatchItems)) byteBudget nowMs deferred costOf
    ⟨[], ⟨[], 0, 0⟩, 0⟩ q.pending).batch

/-! ### The life of a pending event -/

def stampKey (pending : List PendingRow) (key : String) : List PendingRow :=
  Table.update (fun r => r.ingestKey = key)
    (fun r => { r with
      firstAttemptMs := some (r.firstAttemptMs.getD nowMs)
      attempts := r.attempts + 1 }) pending

def stampAttempt (keys : List String) (nowMs : ℤ) : Queue :=
  { q with pending := keys.foldl (stampKey nowMs) q.pending }

/-- `INSERT INTO receipt … ON CONFLICT(ingest_key) DO UPDATE`: a receipt keeps
its first known outcome. -/
def upsertReceipt (r : ReceiptRow) : List ReceiptRow :=
  if receipts.any (fun old => old.ingestKey = r.ingestKey) then
    Table.update (fun old => old.ingestKey = r.ingestKey)
      (fun old => { old with
        deliveredAtMs := r.deliveredAtMs
        outcome := if old.outcome = none ∨ old.outcome = some .unknown then r.outcome
          else old.outcome }) receipts
  else receipts ++ [r]

def confirmKey (q : Queue) (k : String × String) : Queue :=
  match q.pending.find? fun r => r.ingestKey = k.1 with
  | none => q
  | some row =>
    { q with
      receipts := upsertReceipt q.receipts
        { ingestKey := k.1
          bodySha256 := row.bodySha256
          firstAttemptMs := row.firstAttemptMs.getD row.firstSeenMs
          deliveredAtMs := nowMs
          outcome := some (outcome k.2) }
      pending := Table.delete (fun r => r.ingestKey = k.1) q.pending }

def confirm (keys : List (String × String)) (nowMs : ℤ) : Queue :=
  keys.foldl (confirmKey nowMs) q

def recordFailure (key failureClass : String) : Queue :=
  let label := String.ofList ((failureClass.toList.filter (!isControl ·)).take 80)
  { q with
    pending := Table.update (fun r => r.ingestKey = key)
      (fun r => { r with lastError := some label }) q.pending }

/-- The oldest first attempt (or last sighting) that `prune` keeps. -/
def pruneCutoff : ℤ := saturatingSub nowMs retryWindowMs

def prune : Queue :=
  { q with
    receipts := Table.delete (fun r => r.firstAttemptMs < pruneCutoff nowMs) q.receipts
    pins := Table.delete
      (fun p => p.lastSeenMs < pruneCutoff nowMs
        && !(q.pending.any fun r => r.sessionId = p.sessionId)) q.pins }

end Relay
