/-
The flush machine over the ledger of accepted events.

Enqueues, prunes, answers, transport failures and crashes may interleave in any
way: to the queue a run of the machine is a run of the ledger's operations, so
what conservation says of these it says of every state of a flush.
-/
import AiMemory.Relay.Conservation
import AiMemory.Relay.RetryWindow

open Runs Table List

namespace Relay

/-- The machine, with the events of every accepted file whose receipt no prune
has released. -/
structure Traced where
  sys : Sys
  live : List ValidEvent

def Traced.init : Traced := ⟨Sys.init, []⟩

def Traced.ledger (t : Traced) : Ledger := ⟨t.sys.queue, t.live⟩

def Traced.step (prepare : PendingRow → Option BatchItem) (costOf : PendingRow → ℕ)
    (t : Traced) (a : Act) : Traced where
  sys := t.sys.step prepare costOf a
  live :=
    match a with
    | .enqueue events nowMs =>
      match enqueue t.sys.queue events nowMs with
      | .ok _ => t.live ++ events
      | .error _ => t.live
    | .beginFlush _ nowMs =>
      match t.sys.phase with
      | .idle => t.live.filter fun e => !releasable t.sys.queue.receipts nowMs e
      | _ => t.live
    | _ => t.live

/-- The events of an enqueue are as `identity::validate` returns them. -/
def Act.Validates (sha256 : String → String) (producer actor : String) (a : Act) : Prop :=
  ∀ events nowMs, a = .enqueue events nowMs → ∀ e ∈ events, e.Wf sha256 producer actor

variable {sha256 : String → String} {producer actor : String}
  {prepare : PendingRow → Option BatchItem} {costOf : PendingRow → ℕ} {t : Traced} {a : Act}

lemma step_refines (ha : a.Validates sha256 producer actor) :
    ∃ ops : List (Op sha256 producer actor),
      (t.step prepare costOf a).ledger = exec Ledger.step t.ledger ops := by
  have hrest (hlive : (t.step prepare costOf a).live = t.live)
      (henqueue : ∀ events nowMs, a ≠ .enqueue events nowMs)
      (hprune : ∀ maxBatches nowMs, a = .beginFlush maxBatches nowMs → t.sys.phase ≠ .idle) :
      ∃ ops : List (Op sha256 producer actor),
        (t.step prepare costOf a).ledger = exec Ledger.step t.ledger ops := by
    rw [Traced.ledger, hlive]
    exact step_queue (P := fun q => ∃ ops : List (Op sha256 producer actor),
      ⟨q, t.live⟩ = exec Ledger.step t.ledger ops) a ⟨[], rfl⟩
      (fun _ _ _ _ h => absurd h (henqueue _ _)) (fun _ _ h hidle => absurd hidle (hprune _ _ h))
      (fun keys nowMs _ _ _ => ⟨[.confirm keys nowMs], rfl⟩)
      (fun keys nowMs => ⟨[.stampAttempt keys nowMs], rfl⟩)
      (fun key label => ⟨[.recordFailure key label], rfl⟩)
  cases a with
  | enqueue events nowMs =>
    let valid : List (Validated sha256 producer actor) :=
      events.pmap (fun e he => (⟨e, he⟩ : Validated sha256 producer actor)) (ha events nowMs rfl)
    have hvalid : valid.map (·.1) = events :=
      (map_pmap _).trans (pmap_eq_self.mpr fun _ _ => rfl)
    refine ⟨[.enqueue valid nowMs], ?_⟩
    simp only [Traced.ledger, Traced.step, Sys.step, exec_cons, exec_nil, Ledger.step, hvalid]
    cases enqueue t.sys.queue events nowMs with
    | ok res => rfl
    | error e => rfl
  | beginFlush maxBatches nowMs =>
    by_cases hidle : t.sys.phase = .idle
    · refine ⟨[.prune nowMs], ?_⟩
      simp only [Traced.ledger, Traced.step, Sys.step, hidle]
      rfl
    · refine hrest ?_ (by simp) fun _ _ _ => hidle
      simp only [Traced.step]
  | _ => exact hrest rfl (by simp) (by simp)

/-- The flush settles the event under `key`: a validated answer accepts the very item that
was sent for it, and confirms it with the outcome of that item; or local policy drops it,
as it has no safe item. -/
def Entry.Settles (prepare : PendingRow → Option BatchItem) (e : Entry) (key : String) : Prop :=
  match e.event with
  | .answered batch items ack accepted keys _ => validate batch.length ack = .ok accepted ∧
    ∃ i ∈ accepted, Names prepare batch items i key ∧ (key, acknowledgedOutcome ack i) ∈ keys
  | .dropped keys =>
    (key, "dropped_policy") ∈ keys ∧ ∃ row, prepare row = none ∧ row.ingestKey = key
  | _ => False

lemma Entry.Confirms.settles {e : Entry} {k : String × String} (h : e.Confirms prepare k)
    (hfifo : e.Fifo prepare) : e.Settles prepare k.1 := by
  obtain ⟨queue, event⟩ := e
  obtain ⟨key, label⟩ := k
  cases event with
  | answered batch items ack accepted keys failedKey =>
    obtain ⟨hvalid, hk⟩ := h
    obtain ⟨-, hnames, -⟩ := hfifo
    have hpair : ∃ i ∈ accepted, Names prepare batch items i key ∧ label = acknowledgedOutcome ack i := by
      clear hvalid
      induction hnames with
      | nil => cases hk
      | cons hhead _ ih =>
        rcases mem_cons.mp hk with rfl | hk
        · exact ⟨_, mem_cons_self, hhead⟩
        · obtain ⟨i, hi, hpair⟩ := ih hk
          exact ⟨i, mem_cons_of_mem _ hi, hpair⟩
    obtain ⟨i, hi, hname, rfl⟩ := hpair
    exact ⟨hvalid, i, hi, hname, hk⟩
  | dropped keys =>
    obtain ⟨hk, rfl, hrow⟩ := h
    exact ⟨hk, hrow⟩
  | selected batch | transmitted batch items => exact h.elim

lemma LogFifo.of_mem {log : List Entry} (h : LogFifo prepare log) {e : Entry} (he : e ∈ log) :
    ∃ newer older, log = newer ++ e :: older ∧ e.Fifo prepare ∧ e.Follows older := by
  induction log with
  | nil => cases he
  | cons first log ih =>
    rcases mem_cons.mp he with rfl | he
    · exact ⟨[], log, rfl, h.1, h.2.1⟩
    · obtain ⟨newer, older, rfl, hentry⟩ := ih h.2.2 he
      exact ⟨first :: newer, older, rfl, hentry⟩

/-- Every receipt stands for an event that the flush confirmed. -/
def Sys.Settled (prepare : PendingRow → Option BatchItem) (s : Sys) : Prop :=
  ∀ c ∈ s.queue.receipts, ∃ e ∈ s.log, ∃ label, e.Confirms prepare (c.ingestKey, label)

lemma confirm_receipts {q : Queue} (h : q.Inv) (keys : List (String × String)) (nowMs : ℤ)
    {c : ReceiptRow} (hc : c ∈ (confirm q keys nowMs).receipts) :
    c ∈ q.receipts ∨ ∃ k ∈ keys, c.ingestKey = k.1 := by
  induction keys generalizing q with
  | nil => exact .inl hc
  | cons k keys ih =>
    rcases ih (confirmKey_inv h nowMs k) hc with hc | ⟨k', hk', hkey⟩
    · rcases confirmKey_cases h nowMs k with ⟨heq, -⟩ | ⟨row, -, hrow, heq⟩
      · exact .inl (heq ▸ hc)
      · rw [heq] at hc
        rcases mem_append.mp hc with hc | hc
        · exact .inl hc
        · rw [mem_singleton.mp hc]
          exact .inr ⟨k, mem_cons_self, hrow⟩
    · exact .inr ⟨k', mem_cons_of_mem k hk', hkey⟩

lemma log_subset_step (s : Sys) (a : Act) : s.log ⊆ (s.step prepare costOf a).log := by
  cases a <;> simp only [Sys.step, onDelivery]
  all_goals repeat' split
  all_goals first | exact List.Subset.refl _ | exact subset_cons_self _ _

lemma step_settled {s : Sys} (hq : s.queue.Inv) (h : s.Settled prepare) (a : Act) :
    (s.step prepare costOf a).Settled prepare := by
  have hold : ∀ c ∈ s.queue.receipts,
      ∃ e ∈ (s.step prepare costOf a).log, ∃ label, e.Confirms prepare (c.ingestKey, label) := by
    intro c hc
    obtain ⟨e, he, hconfirms⟩ := h c hc
    exact ⟨e, log_subset_step s a he, hconfirms⟩
  refine step_queue (P := fun q => ∀ c ∈ q.receipts, ∃ e ∈ (s.step prepare costOf a).log,
    ∃ label, e.Confirms prepare (c.ingestKey, label)) a hold ?_ ?_ ?_
    (fun _ _ => hold) (fun _ _ => hold)
  · intro events nowMs rep q' _ hok
    obtain ⟨tx, -, -, rfl⟩ := enqueue_ok hok
    exact hold
  · exact fun _ _ _ _ c hc => hold c (delete_subset hc)
  · intro keys nowMs e hlog hkeys c hc
    rcases confirm_receipts hq keys nowMs hc with hc | ⟨k, hk, hkey⟩
    · exact hold c hc
    · rw [hlog, hkey]
      exact ⟨e, mem_cons_self, k.2, hkeys k hk⟩

variable (prepare costOf) in
lemma exec_reaches {acts : List Act} (ha : ∀ a ∈ acts, a.Validates sha256 producer actor) :
    ∃ ops : List (Op sha256 producer actor),
      (exec (Traced.step prepare costOf) Traced.init acts).ledger = exec Ledger.step .init ops :=
  exec_refines (f := Traced.ledger) (fun _ a h => step_refines (ha a h)) Traced.init

variable (prepare costOf) in
lemma exec_ledgerInv {acts : List Act} (ha : ∀ a ∈ acts, a.Validates sha256 producer actor) :
    (exec (Traced.step prepare costOf) Traced.init acts).ledger.Inv sha256 producer actor := by
  obtain ⟨ops, hops⟩ := exec_reaches prepare costOf ha
  rw [hops]
  exact exec_invariant (I := Ledger.Inv sha256 producer actor) (fun _ op h => step_ledgerInv h op)
    init_ledgerInv ops

/-- Whatever interleaves with a flush, the queue is one that the ledger's
operations reach from the empty queue, and conservation holds of it. -/
theorem flush_conserves (hsha : Function.Injective sha256)
    (prepare : PendingRow → Option BatchItem) (costOf : PendingRow → ℕ) (acts : List Act)
    (ha : ∀ a ∈ acts, a.Validates sha256 producer actor) :
    (exec (Traced.step prepare costOf) .init acts).sys = exec (Sys.step prepare costOf) .init acts ∧
      (∃ ops : List (Op sha256 producer actor),
        (exec (Traced.step prepare costOf) .init acts).ledger = exec Ledger.step .init ops) ∧
      Conserved sha256 producer actor (exec (Traced.step prepare costOf) .init acts).ledger := by
  exact ⟨exec_comm (f := Traced.sys) (fun _ _ => rfl) .init acts, exec_reaches prepare costOf ha,
    (exec_ledgerInv prepare costOf ha).conserved hsha⟩

/-- The sample event is sent and confirmed; the next flush dies. -/
def sampleFlush : List Act :=
  [ .enqueue [sampleEvent] 0, .beginFlush 2 0, .select false maxBatchItems maxBatchBytes 0,
    .screen, .stamp, .arm 0 (some (millis 1000)), .post 0 0,
    .deliver ⟨200, false, some ⟨1, none, none, none⟩⟩ 1, .crash, .beginFlush 1 2, .crash ]

def plainItem (r : PendingRow) : Option BatchItem := some ⟨"/hook", r.bodyJson⟩

lemma sampleFlush_validates : ∀ a ∈ sampleFlush, a.Validates sampleSha256 "prod" "ops" := by
  intro a ha events nowMs heq e he
  subst heq
  obtain ⟨rfl, rfl⟩ : events = [sampleEvent] ∧ nowMs = 0 := by simpa [sampleFlush] using ha
  rw [mem_singleton.mp he]
  exact sampleEvent_wf

theorem flush_conserves_sample :
    Conserved sampleSha256 "prod" "ops"
      (exec (Traced.step plainItem (·.bodyBytes)) Traced.init sampleFlush).ledger :=
  (flush_conserves sampleSha256_injective plainItem (·.bodyBytes) sampleFlush
    sampleFlush_validates).2.2

end Relay
