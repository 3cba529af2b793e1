/-
`flush` as a machine over the durable queue (`ai-memory-relay/src/relay.rs`,
`flush_locked` and `send_with_retries`).

The flush lock admits one flush at a time, so the system is the queue plus the
program counter and locals of at most one flush.  Every transaction of the
source is one step; between any two of them another process may enqueue, and
the flush may die (`crash`), which loses its locals and keeps the queue.  Clock
readings, server answers and transport failures are carried by the actions.

The log records what the flush did to the outside and to the queue, each entry
with the queue as it was at that moment.

What only feeds the report (counters, texts, `stats`) is left out, and so is
the length of a request's timeout.  `prepare` stands for the JSON parsing, the
privacy checks and `item_url`, which build the wire item of an event or find
it unsafe; `costOf` for `item_cost`.
-/
import AiMemory.Relay.Queue

open Runs

namespace Relay

/-- The `(url, body)` pair the batch endpoint expects. -/
structure BatchItem where
  url : String
  body : String
  deriving DecidableEq

/-- One completed HTTP exchange; `ack` is the parsed body, if it parses. -/
structure Delivery where
  status : ℕ
  bodyOverLimit : Bool
  ack : Option BatchAck
  deriving DecidableEq

def maxBatchBytes : ℕ := 8 * 1024 * 1024

def transportRetries : ℕ := 2

/-- Milliseconds, as the nanoseconds of a `Duration`. -/
def millis (n : ℕ) : ℕ := n * 1000000

def ttlRemaining (firstAttemptMs nowMs : ℤ) : ℕ :=
  millis (saturatingSub retryWindowMs (saturatingSub nowMs firstAttemptMs)).toNat

def batchTtl (batch : List PendingRow) (nowMs sendNowMs : ℤ) : ℕ :=
  ((batch.map fun item => ttlRemaining (item.firstAttemptMs.getD nowMs) sendNowMs).min?).getD 0

/-- The clocks of `send_with_retries`: both budgets, from its start, in
nanoseconds, and the retries spent. -/
structure SendClock where
  remaining : ℕ
  ttlLeft : ℕ
  attempt : ℕ
  deriving DecidableEq

/-- The sleep before the next attempt, `elapsed` after the start. -/
def SendClock.backoff (c : SendClock) (elapsed : ℕ) : ℕ :=
  min (min (millis 250 * 2 ^ min c.attempt 8) (millis 2000)) (min c.remaining c.ttlLeft - elapsed)

/-- The loop of `flush_locked`: batches still allowed, and the sessions this
flush stopped on. -/
structure Loop where
  left : ℕ
  deferred : List (String × String)
  deriving DecidableEq

inductive Phase
  | idle
  | top (l : Loop)
  | picked (l : Loop) (now : ℤ) (batch : List PendingRow)
  | screened (l : Loop) (now : ℤ) (batch : List PendingRow) (items : List BatchItem)
  | stamped (l : Loop) (now : ℤ) (batch : List PendingRow) (items : List BatchItem)
  | sending (l : Loop) (batch : List PendingRow) (items : List BatchItem) (clock : SendClock)
  | inFlight (l : Loop) (batch : List PendingRow) (items : List BatchItem) (clock : SendClock)
  | failing (keys : List String) (label : String)
  | settling (l : Loop) (failedKey : Option String) (stop : Bool)
  deriving DecidableEq

inductive Event
  | selected (batch : List PendingRow)
  | transmitted (batch : List PendingRow) (items : List BatchItem)
  | answered (batch : List PendingRow) (items : List BatchItem) (ack : BatchAck)
      (accepted : List ℕ) (keys : List (String × String)) (failedKey : Option String)
  | dropped (keys : List (String × String))
  deriving DecidableEq

structure Entry where
  queue : Queue
  event : Event
  deriving DecidableEq

structure Sys where
  queue : Queue
  phase : Phase
  log : List Entry
  deriving DecidableEq

def Sys.init : Sys := ⟨Queue.empty, .idle, []⟩

def Sys.note (s : Sys) (e : Event) : List Entry := ⟨s.queue, e⟩ :: s.log

inductive Act
  /-- Another process enqueues a file. -/
  | enqueue (events : List ValidEvent) (nowMs : ℤ)
  /-- A flush takes the lock, opens the queue and prunes. -/
  | beginFlush (maxBatches : ℕ) (nowMs : ℤ)
  /-- The next batch, unless the wall-clock budget is spent. -/
  | select (budgetSpent : Bool) (limit byteBudget : ℕ) (nowMs : ℤ)
  /-- Unsafe items leave as local policy drops. -/
  | screen
  /-- The durable start of the retry window. -/
  | stamp
  /-- The send's two budgets; none of the flush budget may be left. -/
  | arm (sendNowMs : ℤ) (remaining : Option ℕ)
  /-- One request, after reading the clock twice. -/
  | post (ttlElapsed leftElapsed : ℕ)
  | transportError (elapsed : ℕ)
  /-- The response, with the clock its confirmations are stamped with. -/
  | deliver (d : Delivery) (nowMs : ℤ)
  /-- One pending `record_failure`. -/
  | recordNext
  /-- What follows the confirmation of an ack. -/
  | settle
  | crash

section Step

variable (prepare : PendingRow → Option BatchItem) (costOf : PendingRow → ℕ)

variable (batch : List PendingRow)

def unsafeKeys : List (String × String) :=
  (batch.filter fun item => (prepare item).isNone).map fun item =>
    (item.ingestKey, "dropped_policy")

def retained : List PendingRow :=
  batch.filter fun item => !((unsafeKeys prepare batch).any fun k => k.1 = item.ingestKey)

def confirmations (ack : BatchAck) (accepted : List ℕ) :
    List (String × String) :=
  accepted.filterMap fun idx =>
    batch[idx]?.map fun item => (item.ingestKey, acknowledgedOutcome ack idx)

/-- Sessions to skip for the rest of this flush: items not accepted, unless
they come after `failed_index` and so were not tried. -/
def newlyDeferred (ack : BatchAck) (accepted : List ℕ) :
    List (String × String) :=
  (batch.zipIdx.filter fun p =>
    !(p.2 ∈ accepted) && !(ack.failedIndex.any fun failed => failed < p.2)).map fun p => p.1.session

def failAll (label : String) : Phase :=
  .failing (batch.map (·.ingestKey)) label

def onDelivery (s : Sys) (l : Loop) (batch : List PendingRow) (items : List BatchItem)
    (d : Delivery) (nowMs : ℤ) : Sys :=
  if d.status ≠ 200 ∧ d.status ≠ 429 then
    { s with phase := failAll batch ("http " ++ toString d.status) }
  else if d.bodyOverLimit then { s with phase := failAll batch "oversized ack" }
  else match d.ack with
    | none => { s with phase := failAll batch "malformed ack" }
    | some ack =>
      match validate batch.length ack with
      | .error _ => { s with phase := failAll batch "inconsistent ack" }
      | .ok accepted =>
        let keys := confirmations batch ack accepted
        let failedKey := ack.failedIndex.bind fun i => batch[i]?.map (·.ingestKey)
        { queue := confirm s.queue keys nowMs
          phase := .settling
            { l with deferred := newlyDeferred batch ack accepted ++ l.deferred }
            failedKey (d.status = 429)
          log := s.note (.answered batch items ack accepted keys failedKey) }

def Sys.step (s : Sys) : Act → Sys
  | .enqueue events nowMs =>
    match enqueue s.queue events nowMs with
    | .ok (_, q') => { s with queue := q' }
    | .error _ => s
  | .crash => { s with phase := .idle }
  | .beginFlush maxBatches nowMs =>
    match s.phase with
    | .idle => { s with
        queue := prune s.queue nowMs
        phase := .top ⟨maxBatches, []⟩ }
    | _ => s
  | .select budgetSpent limit byteBudget nowMs =>
    match s.phase with
    | .top l =>
      if l.left = 0 ∨ budgetSpent then { s with phase := .idle }
      else
        let batch := (selectBatch s.queue limit byteBudget nowMs l.deferred costOf).items
        if batch = [] then { s with phase := .idle }
        else { s with
          phase := .picked { l with left := l.left - 1 } nowMs batch
          log := s.note (.selected batch) }
    | _ => s
  | .screen =>
    match s.phase with
    | .picked l now batch =>
      let items := batch.filterMap prepare
      let keys := unsafeKeys prepare batch
      { queue := if keys = [] then s.queue else confirm s.queue keys now
        phase := if items = [] then .top l
          else .screened l now (retained prepare batch) items
        log := if keys = [] then s.log else s.note (.dropped keys) }
    | _ => s
  | .stamp =>
    match s.phase with
    | .screened l now batch items => { s with
        queue := stampAttempt s.queue (batch.map (·.ingestKey)) now
        phase := .stamped l now batch items }
    | _ => s
  | .arm sendNowMs remaining =>
    match s.phase with
    | .stamped l now batch items =>
      match remaining with
      | none => { s with phase := .idle }
      | some left => { s with
          phase := .sending l batch items ⟨left, batchTtl batch now sendNowMs, 0⟩ }
    | _ => s
  | .post ttlElapsed leftElapsed =>
    match s.phase with
    | .sending l batch items clock =>
      if clock.ttlLeft ≤ ttlElapsed ∨ min clock.remaining clock.ttlLeft ≤ leftElapsed then
        { s with phase := failAll batch "transport" }
      else { s with
        phase := .inFlight l batch items clock
        log := s.note (.transmitted batch items) }
    | _ => s
  | .transportError elapsed =>
    match s.phase with
    | .inFlight l batch items clock =>
      if transportRetries ≤ clock.attempt ∨ clock.backoff elapsed = 0 then
        { s with phase := failAll batch "transport" }
      else { s with phase := .sending l batch items { clock with attempt := clock.attempt + 1 } }
    | _ => s
  | .deliver d nowMs =>
    match s.phase with
    | .inFlight l batch items _ => onDelivery s l batch items d nowMs
    | _ => s
  | .recordNext =>
    match s.phase with
    | .failing [] _ => { s with phase := .idle }
    | .failing (k :: ks) label => { s with
        queue := recordFailure s.queue k label
        phase := .failing ks label }
    | _ => s
  | .settle =>
    match s.phase with
    | .settling l failedKey stop => { s with
        queue := match failedKey with
          | some k => recordFailure s.queue k "server reported failed_index"
          | none => s.queue
        phase := if stop then .idle else .top l }
    | _ => s

end Step

end Relay
