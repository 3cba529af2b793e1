/-
Conservation of the relay queue.

A `Ledger` is the queue together with the events of every accepted file whose
receipt no `prune` has released yet.  Over every run from the empty queue:

A pin does not live as long as a receipt of its session: receipts are released
by their first attempt, pins by the session's last enqueue.
-/
import AiMemory.Relay.Invariant

open Runs Table List

namespace Relay

/-! ### Runs -/

/-- An event as `identity::validate` returns it for the queue's binding. -/
def Validated (sha256 : String → String) (producer actor : String) : Type :=
  { e : ValidEvent // e.Wf sha256 producer actor }

inductive Op (sha256 : String → String) (producer actor : String)
  | enqueue (events : List (Validated sha256 producer actor)) (nowMs : ℤ)
  | stampAttempt (keys : List String) (nowMs : ℤ)
  | confirm (keys : List (String × String)) (nowMs : ℤ)
  | recordFailure (key failureClass : String)
  | prune (nowMs : ℤ)

structure Ledger where
  queue : Queue
  live : List ValidEvent

def Ledger.init : Ledger := ⟨Queue.empty, []⟩

def releasable (receipts : List ReceiptRow) (nowMs : ℤ) (e : ValidEvent) : Bool :=
  receipts.any fun c => c.ingestKey = e.ingestKey && c.firstAttemptMs < pruneCutoff nowMs

variable {sha256 : String → String} {producer actor : String}

def Ledger.step (s : Ledger) : Op sha256 producer actor → Ledger
  | .enqueue events nowMs =>
    match enqueue s.queue (events.map (·.1)) nowMs with
    | .ok (_, q') => ⟨q', s.live ++ events.map (·.1)⟩
    | .error _ => s
  | .stampAttempt keys nowMs => { s with queue := stampAttempt s.queue keys nowMs }
  | .confirm keys nowMs => { s with queue := confirm s.queue keys nowMs }
  | .recordFailure key failureClass => { s with queue := recordFailure s.queue key failureClass }
  | .prune nowMs =>
    ⟨prune s.queue nowMs, s.live.filter fun e => !releasable s.queue.receipts nowMs e⟩

def Queue.occurrences (q : Queue) (key : String) : ℕ :=
  q.pending.countP (fun r => r.ingestKey = key) + q.receipts.countP (fun c => c.ingestKey = key)

variable {receipts : List ReceiptRow} {pending : List PendingRow} {k d : String}
  {f : PendingRow → PendingRow} {p : PendingRow → Bool} {q : Queue} {nowMs : ℤ} {e : ValidEvent}
  {events : List ValidEvent} {s : Ledger}

lemma Rows.knownDigest_iff {n : ℕ} (h : Rows pending receipts n) :
    knownDigest pending receipts k = some d ↔ (∃ r ∈ pending, r.ingestKey = k ∧ r.bodySha256 = d) ∨
        ∃ c ∈ receipts, c.ingestKey = k ∧ c.bodySha256 = d := by
  refine ⟨knownDigest_eq_some, ?_⟩
  rintro (⟨r, hr, rfl, rfl⟩ | ⟨c, hc, rfl, rfl⟩)
  · exact h.knownDigest_pending hr
  · exact h.knownDigest_receipt hc

lemma Rows.knownDigest_mono {pending pending' : List PendingRow}
    {n n' : ℕ} (h : Rows pending receipts n) (h' : Rows pending' receipts n')
    (hsub : pending ⊆ pending') (hk : knownDigest pending receipts k = some d) :
    knownDigest pending' receipts k = some d := by
  rw [h'.knownDigest_iff]
  rcases h.knownDigest_iff.mp hk with ⟨r, hr, hr'⟩ | hc
  · exact .inl ⟨r, hsub hr, hr'⟩
  · exact .inr hc

lemma Rows.knownDigest_update {n n' : ℕ} (h : Rows pending receipts n)
    (h' : Rows (Table.update p f pending) receipts n')
    (hkey : ∀ r, (f r).ingestKey = r.ingestKey) (hdig : ∀ r, (f r).bodySha256 = r.bodySha256)
    (hk : knownDigest pending receipts k = some d) :
    knownDigest (Table.update p f pending) receipts k = some d := by
  rw [h'.knownDigest_iff]
  rcases h.knownDigest_iff.mp hk with ⟨r, hr, hrk, hrd⟩ | hc
  · refine .inl ⟨_, mem_update.mpr ⟨r, hr, rfl⟩, ?_⟩
    by_cases hp : p r
    · rw [if_pos hp, hkey, hdig]
      exact ⟨hrk, hrd⟩
    · rw [if_neg hp]
      exact ⟨hrk, hrd⟩
  · exact .inr hc

lemma knownDigest_isSome_iff {k : String} : knownDigest pending receipts k ≠ none ↔
      (∃ r ∈ pending, r.ingestKey = k) ∨ ∃ c ∈ receipts, c.ingestKey = k := by
  rw [ne_eq, knownDigest_eq_none, not_and_or]
  push Not
  rfl

lemma Queue.Inv.occurrences_eq_one (h : q.Inv) {k : String}
    (hk : knownDigest q.pending q.receipts k ≠ none) : q.occurrences k = 1 := by
  have hp : q.pending.countP (fun r => decide (r.ingestKey = k)) ≤ 1 :=
    h.rows.pendingKeys.countP_le_one (k := k) fun r _ hr => by simpa using hr
  have hc : q.receipts.countP (fun c => decide (c.ingestKey = k)) ≤ 1 :=
    h.rows.receiptKeys.countP_le_one (k := k) fun r _ hr => by simpa using hr
  unfold Queue.occurrences
  rcases knownDigest_isSome_iff.mp hk with ⟨r, hr, hrk⟩ | ⟨c, hc', hck⟩
  · have hpos : 0 < q.pending.countP (fun r => decide (r.ingestKey = k)) :=
      countP_pos_iff.mpr ⟨r, hr, by simpa using hrk⟩
    have hzero : q.receipts.countP (fun c => decide (c.ingestKey = k)) = 0 := by
      rw [countP_eq_zero]
      intro c hc' hck
      exact h.rows.disjoint r hr c hc' (hrk.trans (by simpa using hck : c.ingestKey = k).symm)
    omega
  · have hpos : 0 < q.receipts.countP (fun c => decide (c.ingestKey = k)) :=
      countP_pos_iff.mpr ⟨c, hc', by simpa using hck⟩
    have hzero : q.pending.countP (fun r => decide (r.ingestKey = k)) = 0 := by
      rw [countP_eq_zero]
      intro r hr hrk
      exact h.rows.disjoint r hr c hc' ((by simpa using hrk : r.ingestKey = k).trans hck.symm)
    omega

lemma Queue.occurrences_eq_zero {k : String}
    (hk : knownDigest q.pending q.receipts k = none) : q.occurrences k = 0 := by
  obtain ⟨hp, hc⟩ := knownDigest_eq_none.mp hk
  rw [Queue.occurrences, Nat.add_eq_zero_iff, countP_eq_zero, countP_eq_zero]
  exact ⟨fun r hr => by simpa using hp r hr, fun c hcr => by simpa using hc c hcr⟩

lemma enqueueOne_grows {tx tx' : EnqueueTx}
    (h : TxInv q tx) (hok : enqueueOne q nowMs tx e = .ok tx') :
    tx.pending ⊆ tx'.pending ∧ ∀ r ∈ tx'.pending, r ∈ tx.pending ∨ ∃ n, r = e.row n nowMs := by
  obtain ⟨tx₁, tx₂, hbind, hnote, hins⟩ := enqueueOne_ok hok
  obtain ⟨-, -, hsame⟩ := bindSession_txInv h hbind
  obtain rfl := noteKey_ok hnote
  rw [← hsame]
  rcases insertEvent_ok hins with ⟨-, rfl⟩ | ⟨-, -, -, -, rfl⟩
  · exact ⟨fun _ hr => hr, fun r hr => .inl hr⟩
  · refine ⟨fun r hr => mem_append_left _ hr, fun r hr => ?_⟩
    rcases mem_append.mp hr with hr | hr
    · exact .inl hr
    · exact .inr ⟨_, mem_singleton.mp hr⟩

lemma enqueueOne_known {tx tx' : EnqueueTx}
    (h : TxInv q tx) (hok : enqueueOne q nowMs tx e = .ok tx') :
    knownDigest tx'.pending q.receipts e.ingestKey = some e.bodySha256 := by
  have h' := enqueueOne_txInv h hok
  obtain ⟨tx₁, tx₂, hbind, hnote, hins⟩ := enqueueOne_ok hok
  obtain rfl := noteKey_ok hnote
  rcases insertEvent_ok hins with ⟨hknown, rfl⟩ | ⟨-, -, -, -, rfl⟩
  · exact hknown
  · exact h'.rows.knownDigest_iff.mpr (.inl ⟨_, mem_append_right _ mem_cons_self, rfl, rfl⟩)

lemma enqueue_loop_spec :
    ∀ {tx tx' : EnqueueTx}, TxInv q tx → events.foldlM (enqueueOne q nowMs) tx = .ok tx' →
      TxInv q tx' ∧ tx.pending ⊆ tx'.pending ∧
        (∀ r ∈ tx'.pending, r ∈ tx.pending ∨ ∃ e ∈ events, ∃ n, r = e.row n nowMs) ∧
        ∀ e ∈ events, knownDigest tx'.pending q.receipts e.ingestKey = some e.bodySha256 := by
  induction events with
  | nil =>
    intro tx tx' h hok
    obtain rfl := foldlM_nil_ok.mp hok
    exact ⟨h, fun _ hr => hr, fun r hr => .inl hr, fun e he => absurd he (by simp)⟩
  | cons e events ih =>
    intro tx tx' h hok
    obtain ⟨t, hstep, hrest⟩ := foldlM_cons_ok.mp hok
    have ht := enqueueOne_txInv h hstep
    obtain ⟨hsub, hnew⟩ := enqueueOne_grows h hstep
    obtain ⟨h', hsub', hnew', hknown⟩ := ih ht hrest
    refine ⟨h', fun r hr => hsub' (hsub hr), fun r hr => ?_, fun e' he' => ?_⟩
    · rcases hnew' r hr with hr | ⟨e', he', n, hrow⟩
      · rcases hnew r hr with hr | ⟨n, hrow⟩
        · exact .inl hr
        · exact .inr ⟨e, mem_cons_self, n, hrow⟩
      · exact .inr ⟨e', mem_cons_of_mem e he', n, hrow⟩
    · rcases mem_cons.mp he' with rfl | he'
      · -- known when it was handled, and the table only grew since
        exact ht.rows.knownDigest_mono h'.rows hsub' (enqueueOne_known h hstep)
      · exact hknown e' he'

/-! ### The invariant of the ledger -/

def PendingRow.Identified (sha256 : String → String) (producer actor : String)
    (r : PendingRow) : Prop :=
  r.ingestKey = Relay.ingestKey sha256 producer actor r.agent r.sessionId r.event r.eventId

structure Ledger.Inv (sha256 : String → String) (producer actor : String) (s : Ledger) :
    Prop where
  queue : s.queue.Inv
  identified : ∀ r ∈ s.queue.pending, r.Identified sha256 producer actor
  wf : ∀ e ∈ s.live, e.Wf sha256 producer actor
  recorded : ∀ e ∈ s.live,
    knownDigest s.queue.pending s.queue.receipts e.ingestKey = some e.bodySha256
  onlyLive : ∀ k, knownDigest s.queue.pending s.queue.receipts k ≠ none →
    ∃ e ∈ s.live, e.ingestKey = k

lemma init_ledgerInv : Ledger.init.Inv sha256 producer actor where
  queue := empty_inv
  identified := by simp [Ledger.init, Queue.empty]
  wf := by simp [Ledger.init]
  recorded := by simp [Ledger.init]
  onlyLive := by
    intro k hk
    exact absurd rfl hk

lemma Ledger.Inv.update (h : s.Inv sha256 producer actor) {q' : Queue} (hq' : q'.Inv)
    (hpend : q'.pending = Table.update p f s.queue.pending)
    (hrec : q'.receipts = s.queue.receipts) (hkey : ∀ r, (f r).ingestKey = r.ingestKey)
    (hdig : ∀ r, (f r).bodySha256 = r.bodySha256)
    (hid : ∀ r, r.Identified sha256 producer actor → (f r).Identified sha256 producer actor) :
    (⟨q', s.live⟩ : Ledger).Inv sha256 producer actor := by
  have hrows := hq'.rows
  rw [hpend, hrec] at hrows
  refine ⟨hq', ?_, h.wf, ?_, ?_⟩
  · intro r' hr'
    rw [show Ledger.queue _ = q' from rfl, hpend] at hr'
    obtain ⟨r, hr, rfl⟩ := mem_update.mp hr'
    by_cases hp : p r
    · rw [if_pos hp]
      exact hid r (h.identified r hr)
    · rw [if_neg hp]
      exact h.identified r hr
  · intro e he
    show knownDigest q'.pending q'.receipts _ = _
    rw [hpend, hrec]
    exact h.queue.rows.knownDigest_update hrows hkey hdig (h.recorded e he)
  · intro k hk
    change knownDigest q'.pending q'.receipts k ≠ none at hk
    rw [hpend, hrec, knownDigest_isSome_iff] at hk
    refine h.onlyLive k (knownDigest_isSome_iff.mpr ?_)
    rcases hk with ⟨r', hr', hkr⟩ | hc
    · obtain ⟨r, hr, rfl⟩ := mem_update.mp hr'
      refine .inl ⟨r, hr, ?_⟩
      by_cases hp : p r
      · rw [if_pos hp, hkey] at hkr
        exact hkr
      · rw [if_neg hp] at hkr
        exact hkr
    · exact .inr hc

lemma stampAttempt_ledgerInv (h : s.Inv sha256 producer actor) (keys : List String) (nowMs : ℤ) :
    (⟨stampAttempt s.queue keys nowMs, s.live⟩ : Ledger).Inv sha256 producer actor := by
  induction keys generalizing s with
  | nil => exact h
  | cons k keys ih =>
    refine ih (s := ⟨stampAttempt s.queue [k] nowMs, s.live⟩) ?_
    exact h.update (stampAttempt_inv h.queue [k] nowMs) rfl rfl (fun _ => rfl) (fun _ => rfl)
      fun _ hid => hid

lemma recordFailure_ledgerInv (h : s.Inv sha256 producer actor) (key failureClass : String) :
    (⟨recordFailure s.queue key failureClass, s.live⟩ : Ledger).Inv sha256 producer actor :=
  h.update (recordFailure_inv h.queue key failureClass) rfl rfl (fun _ => rfl) (fun _ => rfl)
    fun _ hid => hid

lemma confirmKey_ledgerInv (h : s.Inv sha256 producer actor) (nowMs : ℤ) (k : String × String) :
    (⟨confirmKey nowMs s.queue k, s.live⟩ : Ledger).Inv sha256 producer actor := by
  have hq' := confirmKey_inv h.queue nowMs k
  rcases confirmKey_cases h.queue nowMs k with ⟨heq, -⟩ | ⟨row, hrow, -, heq⟩
  · rw [heq]
    exact h
  rw [heq] at hq' ⊢
  refine ⟨hq', fun r hr => h.identified r (delete_subset hr), h.wf, fun e he => ?_, fun j hj => ?_⟩
  · -- the row moves to the receipt table with its key and digest
    rw [hq'.rows.knownDigest_iff]
    rcases h.queue.rows.knownDigest_iff.mp (h.recorded e he) with ⟨r, hr, hk, hd⟩ | ⟨c, hc, hcd⟩
    · by_cases hrow' : r.ingestKey = row.ingestKey
      · obtain rfl := h.queue.rows.pendingKeys.eq hr hrow hrow'
        exact .inr ⟨_, mem_append_right _ mem_cons_self, hk, hd⟩
      · exact .inl ⟨r, mem_delete.mpr ⟨hr, by simpa using hrow'⟩, hk, hd⟩
    · exact .inr ⟨c, mem_append_left _ hc, hcd⟩
  · refine h.onlyLive j (knownDigest_isSome_iff.mpr ?_)
    rcases knownDigest_isSome_iff.mp hj with ⟨r, hr, hk⟩ | ⟨c, hc, hk⟩
    · exact .inl ⟨r, delete_subset hr, hk⟩
    · rcases mem_append.mp hc with hc | hc
      · exact .inr ⟨c, hc, hk⟩
      · rw [mem_singleton.mp hc] at hk
        exact .inl ⟨row, hrow, hk⟩

lemma confirm_ledgerInv (h : s.Inv sha256 producer actor)
    (keys : List (String × String)) (nowMs : ℤ) :
    (⟨confirm s.queue keys nowMs, s.live⟩ : Ledger).Inv sha256 producer actor := by
  induction keys generalizing s with
  | nil => exact h
  | cons k keys ih =>
    exact ih (s := ⟨confirmKey nowMs s.queue k, s.live⟩) (confirmKey_ledgerInv h nowMs k)

lemma releasable_iff :
    releasable receipts nowMs e ↔
      ∃ c ∈ receipts, c.ingestKey = e.ingestKey ∧ c.firstAttemptMs < pruneCutoff nowMs := by
  simp [releasable]

lemma prune_ledgerInv (h : s.Inv sha256 producer actor) (nowMs : ℤ) :
    (⟨prune s.queue nowMs,
      s.live.filter fun e => !releasable s.queue.receipts nowMs e⟩ : Ledger).Inv
        sha256 producer actor := by
  have hq' := prune_inv h.queue nowMs
  have hlive : ∀ e, e ∈ s.live.filter (fun e => !releasable s.queue.receipts nowMs e) ↔
      e ∈ s.live ∧ ¬ ∃ c ∈ s.queue.receipts,
        c.ingestKey = e.ingestKey ∧ c.firstAttemptMs < pruneCutoff nowMs := by
    intro e
    rw [mem_filter, ← releasable_iff]
    simp
  refine ⟨hq', h.identified, fun e he => h.wf e ((hlive e).mp he).1, fun e he => ?_, fun k hk => ?_⟩
  · obtain ⟨he, hkeep⟩ := (hlive e).mp he
    rw [hq'.rows.knownDigest_iff]
    rcases h.queue.rows.knownDigest_iff.mp (h.recorded e he) with hr | ⟨c, hc, hk, hd⟩
    · exact .inl hr
    · refine .inr ⟨c, mem_delete.mpr ⟨hc, ?_⟩, hk, hd⟩
      by_contra hgone
      exact hkeep ⟨c, hc, hk, by simpa using hgone⟩
  · -- a row that stays is not released, so its event stays live
    rcases knownDigest_isSome_iff.mp hk with ⟨r, hr, hk⟩ | ⟨c, hc, hk⟩
    · obtain ⟨e, he, hek⟩ := h.onlyLive k (knownDigest_isSome_iff.mpr (.inl ⟨r, hr, hk⟩))
      refine ⟨e, (hlive e).mpr ⟨he, ?_⟩, hek⟩
      rintro ⟨c, hc, hck, -⟩
      exact h.queue.rows.disjoint r hr c hc (hk.trans (hek.symm.trans hck.symm))
    · obtain ⟨hc, hfresh⟩ := mem_delete.mp hc
      obtain ⟨e, he, hek⟩ := h.onlyLive k (knownDigest_isSome_iff.mpr (.inr ⟨c, hc, hk⟩))
      refine ⟨e, (hlive e).mpr ⟨he, ?_⟩, hek⟩
      rintro ⟨c', hc', hck, hold⟩
      obtain rfl := h.queue.rows.receiptKeys.eq hc' hc (hck.trans (hek.trans hk.symm))
      simp [hold] at hfresh

lemma enqueue_ledgerInv (h : s.Inv sha256 producer actor)
    (hwf : ∀ e ∈ events, e.Wf sha256 producer actor)
    {rep : EnqueueReport} {q' : Queue} (hok : enqueue s.queue events nowMs = .ok (rep, q')) :
    (⟨q', s.live ++ events⟩ : Ledger).Inv sha256 producer actor := by
  have hq' := enqueue_inv h.queue hok
  obtain ⟨tx, hloop, -, rfl⟩ := enqueue_ok hok
  obtain ⟨-, hsub, hnew, hknown⟩ := enqueue_loop_spec (beginTx_inv h.queue) hloop
  refine ⟨hq', fun r hr => ?_, fun e he => ?_, fun e he => ?_, fun k hk => ?_⟩
  · rcases hnew r hr with hr | ⟨e, he, n, rfl⟩
    · exact h.identified r hr
    · exact (hwf e he).ingestKey
  · rcases mem_append.mp he with he | he
    · exact h.wf e he
    · exact hwf e he
  · rcases mem_append.mp he with he | he
    · exact h.queue.rows.knownDigest_mono hq'.rows hsub (h.recorded e he)
    · exact hknown e he
  · rcases knownDigest_isSome_iff.mp hk with ⟨r, hr, hk⟩ | hc
    · rcases hnew r hr with hr | ⟨e, he, n, rfl⟩
      · obtain ⟨e, he, hek⟩ := h.onlyLive k (knownDigest_isSome_iff.mpr (.inl ⟨r, hr, hk⟩))
        exact ⟨e, mem_append_left _ he, hek⟩
      · exact ⟨e, mem_append_right _ he, hk⟩
    · obtain ⟨e, he, hek⟩ := h.onlyLive k (knownDigest_isSome_iff.mpr (.inr hc))
      exact ⟨e, mem_append_left _ he, hek⟩

lemma map_val_wf (events : List (Validated sha256 producer actor)) :
    ∀ e ∈ events.map (·.1), e.Wf sha256 producer actor := by
  intro e he
  obtain ⟨v, -, rfl⟩ := mem_map.mp he
  exact v.2

lemma step_ledgerInv (h : s.Inv sha256 producer actor)
    (op : Op sha256 producer actor) : (s.step op).Inv sha256 producer actor := by
  cases op with
  | enqueue events nowMs =>
    rw [Ledger.step]
    cases hok : enqueue s.queue (events.map (·.1)) nowMs with
    | error err => exact h
    | ok res => exact enqueue_ledgerInv h (map_val_wf events) hok
  | stampAttempt keys nowMs => exact stampAttempt_ledgerInv h keys nowMs
  | confirm keys nowMs => exact confirm_ledgerInv h keys nowMs
  | recordFailure key failureClass => exact recordFailure_ledgerInv h key failureClass
  | prune nowMs => exact prune_ledgerInv h nowMs

lemma ingestKey_inj (hsha : Function.Injective sha256) {a s v i a' s' v' i' : String}
    (h : Relay.ingestKey sha256 producer actor a s v i =
      Relay.ingestKey sha256 producer actor a' s' v' i') : a = a' ∧ s = s' ∧ v = v' ∧ i = i' := by
  have hl := Json.stringArray_injective (hsha h)
  simpa using hl

lemma enqueue_refused (h : s.Inv sha256 producer actor)
    (hsha : Function.Injective sha256) {e e' : ValidEvent} (he : e ∈ s.live)
    (hwf : e'.Wf sha256 producer actor) (hkey : e'.ingestKey = e.ingestKey)
    (hbody : e'.bodyJson ≠ e.bodyJson) (hmem : e' ∈ events)
    (nowMs : ℤ) : ∃ err, enqueue s.queue events nowMs = .error err := by
  cases hok : enqueue s.queue events nowMs with
  | error err => exact ⟨err, rfl⟩
  | ok res =>
    obtain ⟨rep, q'⟩ := res
    have hq' := enqueue_inv h.queue hok
    obtain ⟨tx, hloop, -, rfl⟩ := enqueue_ok hok
    obtain ⟨-, hsub, -, hknown⟩ := enqueue_loop_spec (beginTx_inv h.queue) hloop
    have hold := h.queue.rows.knownDigest_mono hq'.rows hsub (h.recorded e he)
    have hnew := hknown e' hmem
    rw [hkey] at hnew
    have hdig : e.bodySha256 = e'.bodySha256 := Option.some.inj (hold.symm.trans hnew)
    rw [(h.wf e he).bodySha256, hwf.bodySha256] at hdig
    exact absurd (hsha hdig).symm hbody

lemma enqueue_recognized (h : s.Inv sha256 producer actor) {e e' : ValidEvent}
    (he : e ∈ s.live) (hwf : e'.Wf sha256 producer actor) (hkey : e'.ingestKey = e.ingestKey)
    (hbody : e'.bodyJson = e.bodyJson)
    (hpin : agentOf s.queue.pins e'.sessionId = some e'.agent) (nowMs : ℤ) :
    enqueue s.queue [e'] nowMs = .ok (⟨0, 1⟩, { s.queue with
      pins := update (fun p => p.sessionId = e'.sessionId)
        (fun p => { p with lastSeenMs := nowMs }) s.queue.pins }) := by
  have hdig : e'.bodySha256 = e.bodySha256 := by
    rw [hwf.bodySha256, (h.wf e he).bodySha256, hbody]
  have hknown := h.recorded e he
  rw [← hkey, ← hdig] at hknown
  have hany : (s.queue.pins.any fun p => p.sessionId = e'.sessionId) := by
    rw [any_session_iff, hpin]
    simp
  simp only [enqueue, foldlM_cons, foldlM_nil, enqueueOne, bindSession, Queue.beginTx,
    hpin, Option.some_or, ne_eq, not_true_eq_false, if_false, noteKey, AList.lookup_empty,
    insertEvent, hknown, bind, Except.bind, pure, Except.pure]
  simp [upsertPin, hany]

lemma pinned_of_pending (h : s.Inv sha256 producer actor)
    (hsha : Function.Injective sha256) (hwf : e.Wf sha256 producer actor)
    (hp : ∃ r ∈ s.queue.pending, r.ingestKey = e.ingestKey) :
    agentOf s.queue.pins e.sessionId = some e.agent := by
  obtain ⟨r, hr, hk⟩ := hp
  have hid : r.ingestKey = _ := h.identified r hr
  rw [hk, hwf.ingestKey] at hid
  obtain ⟨ha, hs, -, -⟩ := ingestKey_inj hsha hid
  rw [ha, hs]
  exact h.queue.pins.pinned r hr

lemma confirm_pins (q : Queue) (keys : List (String × String)) (nowMs : ℤ) :
    (confirm q keys nowMs).pins = q.pins := by
  induction keys generalizing q with
  | nil => rfl
  | cons k keys ih =>
    have hstep : (confirmKey nowMs q k).pins = q.pins := by
      unfold confirmKey
      split
      · rfl
      · rfl
    exact (ih (confirmKey nowMs q k)).trans hstep

lemma step_pin_kept (h : s.Inv sha256 producer actor)
    (op : Op sha256 producer actor) {sessionId agent : String}
    (hpin : agentOf s.queue.pins sessionId = some agent) :
    agentOf (s.step op).queue.pins sessionId = some agent ∨
      ∃ nowMs, op = .prune nowMs ∧ (∀ r ∈ s.queue.pending, r.sessionId ≠ sessionId) ∧
        ∃ p ∈ s.queue.pins, p.sessionId = sessionId ∧ p.lastSeenMs < pruneCutoff nowMs := by
  cases op with
  | enqueue events nowMs =>
    rw [Ledger.step]
    cases hok : enqueue s.queue (events.map (·.1)) nowMs with
    | error err => exact .inl hpin
    | ok res =>
      obtain ⟨rep, q'⟩ := res
      obtain ⟨tx, -, -, rfl⟩ := enqueue_ok hok
      refine .inl ?_
      show agentOf (tx.seenSessions.entries.foldl (upsertPin nowMs) s.queue.pins) sessionId = _
      rw [agentOf_commit, boundAgent, hpin, Option.some_or]
  | stampAttempt keys nowMs | recordFailure key failureClass => exact .inl hpin
  | confirm keys nowMs =>
    refine .inl ?_
    show agentOf (confirm s.queue keys nowMs).pins sessionId = _
    rw [confirm_pins, hpin]
  | prune nowMs =>
    obtain ⟨p, hp, hs, ha⟩ := (agentOf_eq_some h.queue.pins.keys).mp hpin
    by_cases hkeep : pruneCutoff nowMs ≤ p.lastSeenMs ∨ ∃ r ∈ s.queue.pending, r.sessionId = sessionId
    · exact .inl ((agentOf_prune h.queue nowMs).mpr ⟨p, hp, hs, ha, hkeep⟩)
    · rw [not_or, not_le] at hkeep
      exact .inr ⟨nowMs, rfl, fun r hr hrs => hkeep.2 ⟨r, hr, hrs⟩, p, hp, hs, hkeep.1⟩

/-- What conservation says of a ledger: the tables hold one row per live event
and no other, within the caps; re-enqueuing a known key is decided by its body;
pins follow the pending events. -/
structure Conserved (sha256 : String → String) (producer actor : String) (s : Ledger) :
    Prop where
  oneRow : ∀ k, s.queue.occurrences k = if k ∈ s.live.map (·.ingestKey) then 1 else 0
  items : s.queue.pending.length ≤ maxPendingItems
  bytes : s.queue.pendingBytes ≤ maxPendingBytes
  replay : s.queue.pending.length + s.queue.receipts.length ≤ maxReceipts
  pinCap : s.queue.pins.length ≤ maxSessionPins
  refused : ∀ e ∈ s.live, ∀ e' : Validated sha256 producer actor,
    e'.1.ingestKey = e.ingestKey → e'.1.bodyJson ≠ e.bodyJson →
    ∀ events, e' ∈ events → ∀ nowMs,
      (∃ err, enqueue s.queue (events.map (·.1)) nowMs = .error err) ∧
        s.step (.enqueue events nowMs) = s
  recognized : ∀ e ∈ s.live, ∀ e' : Validated sha256 producer actor,
    e'.1.ingestKey = e.ingestKey → e'.1.bodyJson = e.bodyJson →
    ((∃ r ∈ s.queue.pending, r.ingestKey = e.ingestKey) ∨
      agentOf s.queue.pins e'.1.sessionId = some e'.1.agent) →
    ∀ nowMs, ∃ pins, enqueue s.queue [e'.1] nowMs = .ok (⟨0, 1⟩, { s.queue with pins := pins }) ∧
      pins.length = s.queue.pins.length
  onePin : KeyUnique (·.sessionId) s.queue.pins
  pinned : ∀ e : Validated sha256 producer actor,
    (∃ r ∈ s.queue.pending, r.ingestKey = e.1.ingestKey) →
      agentOf s.queue.pins e.1.sessionId = some e.1.agent
  pinKept : ∀ sessionId agent, agentOf s.queue.pins sessionId = some agent →
    ∀ op : Op sha256 producer actor,
      agentOf (s.step op).queue.pins sessionId = some agent ∨
        ∃ nowMs, op = .prune nowMs ∧ (∀ r ∈ s.queue.pending, r.sessionId ≠ sessionId) ∧
          ∃ p ∈ s.queue.pins, p.sessionId = sessionId ∧ p.lastSeenMs < pruneCutoff nowMs

lemma Ledger.Inv.conserved (h : s.Inv sha256 producer actor)
    (hsha : Function.Injective sha256) : Conserved sha256 producer actor s where
  oneRow := by
    intro k
    by_cases hk : k ∈ s.live.map (·.ingestKey)
    · rw [if_pos hk]
      obtain ⟨e, he, rfl⟩ := mem_map.mp hk
      exact h.queue.occurrences_eq_one (by rw [h.recorded e he]; simp)
    · rw [if_neg hk]
      refine Queue.occurrences_eq_zero ?_
      by_contra hne
      obtain ⟨e, he, hek⟩ := h.onlyLive k hne
      exact hk (mem_map.mpr ⟨e, he, hek⟩)
  items := h.queue.rows.items
  bytes := h.queue.rows.bytes
  replay := h.queue.rows.replay
  pinCap := h.queue.pins.cap
  refused := by
    intro e he e' hkey hbody events hmem nowMs
    obtain ⟨err, herr⟩ := enqueue_refused h hsha he e'.2 hkey hbody
      (mem_map_of_mem (f := (·.1)) hmem) nowMs
    exact ⟨⟨err, herr⟩, by rw [Ledger.step, herr]⟩
  recognized := by
    intro e he e' hkey hbody hcase nowMs
    have hpin : agentOf s.queue.pins e'.1.sessionId = some e'.1.agent := by
      rcases hcase with hpend | hpin
      · exact pinned_of_pending h hsha e'.2 (hkey.symm ▸ hpend)
      · exact hpin
    exact ⟨_, enqueue_recognized h he e'.2 hkey hbody hpin nowMs, length_update⟩
  onePin := h.queue.pins.keys
  pinned := fun e hp => pinned_of_pending h hsha e.2 hp
  pinKept := fun _ _ hpin op => step_pin_kept h op hpin

/-- Conservation holds after every run from the empty queue. -/
theorem queue_conservation (hsha : Function.Injective sha256)
    (ops : List (Op sha256 producer actor)) :
    Conserved sha256 producer actor (exec Ledger.step Ledger.init ops) := by
  have hinv : (exec Ledger.step Ledger.init ops).Inv sha256 producer actor :=
    exec_invariant (I := Ledger.Inv sha256 producer actor) (fun _ op h => step_ledgerInv h op)
      init_ledgerInv ops
  exact hinv.conserved hsha

/-! ### A pin released before the receipt -/

def sampleBody : String := "\x7b\"cwd\":\"/w\",\"session_id\":\"s1\"\x7d"

def sampleIdentity : String :=
  "[\"external-capture-v1\",\"prod\",\"ops\",\"claude-code\",\"s1\",\"user-prompt\",\"e1\"]"

def sampleSha256 (s : String) : String :=
  if s = sampleBody then "3625a219fd9b321092aef04cbf016012f4e358663e2db5fd4dbb56f1e1456cc4"
  else if s = sampleIdentity then
    "6f560fcdd6665192670e529f79e04832cc2b333c2d3d8acd4672e2c89a64e6c8"
  else "raw:" ++ s

lemma sampleSha256_injective : Function.Injective sampleSha256 := by
  have hraw : ∀ s : String, ("raw:" ++ s).toList.head? = some 'r' := by
    intro s
    rw [String.toList_append]
    rfl
  intro s t h
  unfold sampleSha256 at h
  split_ifs at h with hs ht ht' hs' ht ht' ht ht'
  · rw [hs, ht]
  · exact absurd h (by decide)
  · exact absurd (hraw t) (by rw [← h]; decide)
  · exact absurd h (by decide)
  · rw [hs', ht']
  · exact absurd (hraw t) (by rw [← h]; decide)
  · exact absurd (hraw s) (by rw [h]; decide)
  · exact absurd (hraw s) (by rw [h]; decide)
  · exact (String.append_right_inj "raw:").mp h

def sampleEvent : ValidEvent where
  eventId := "e1"
  agent := "claude-code"
  event := "user-prompt"
  sessionId := "s1"
  cwd := "/w"
  bodyJson := sampleBody
  bodySha256 := sampleSha256 sampleBody
  ingestKey := sampleSha256 sampleIdentity

lemma sampleEvent_wf : sampleEvent.Wf sampleSha256 "prod" "ops" := ⟨rfl, by decide⟩

def sampleRun : List (Op sampleSha256 "prod" "ops") :=
  [ .enqueue [⟨sampleEvent, sampleEvent_wf⟩] 0,
    .stampAttempt [sampleEvent.ingestKey] (29 * 86400000),
    .confirm [(sampleEvent.ingestKey, "stored")] (29 * 86400000),
    .prune (31 * 86400000) ]

theorem queue_conservation_sample :
    Function.Injective sampleSha256 ∧
      (exec Ledger.step Ledger.init sampleRun).live = [sampleEvent] ∧
      Conserved sampleSha256 "prod" "ops" (exec Ledger.step Ledger.init sampleRun) :=
  ⟨sampleSha256_injective, by decide, queue_conservation sampleSha256_injective sampleRun⟩

/-- Pinning for as long as a receipt exists fails: the event is still live, its
receipt is there, and its session has no pin. -/
theorem receipt_outlives_pin :
    ¬ ∀ e ∈ (exec Ledger.step Ledger.init sampleRun).live,
      (∃ c ∈ (exec Ledger.step Ledger.init sampleRun).queue.receipts,
        c.ingestKey = e.ingestKey) →
      agentOf (exec Ledger.step Ledger.init sampleRun).queue.pins e.sessionId = some e.agent := by
  decide

end Relay
