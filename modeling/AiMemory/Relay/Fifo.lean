/-
Per-session FIFO of the relay.

Whatever enqueues, flushes, crashes, transport failures and acknowledgements a
run is made of, an event is put on the wire or confirmed only while it is the
oldest pending event of its `(agent, session)`, a batch holds one event per
session, and the indexes of an acknowledgement are those of the items sent.
-/
import AiMemory.Relay.Invariant
import AiMemory.Relay.Flush

open Runs Table List

namespace Relay

structure IsHead (pending : List PendingRow) (row : PendingRow) : Prop where
  present : ∃ r ∈ pending, r.ingestKey = row.ingestKey ∧ r.seq = row.seq ∧ r.session = row.session
  oldest : ∀ r ∈ pending, r.session = row.session → row.seq ≤ r.seq

structure BatchHeads (pending : List PendingRow) (batch : List PendingRow) : Prop where
  sessions : (batch.map (·.session)).Nodup
  heads : ∀ row ∈ batch, IsHead pending row

/-! ### Selection -/

/-- The scan after the rows `done`: every session of these was looked at, and
what was selected are heads among them. -/
structure ScanInv (done : List PendingRow) (sc : Scan) : Prop where
  seen : ∀ r ∈ done, r.session ∈ sc.seen
  looked : ∀ row ∈ sc.batch.items, row.session ∈ sc.seen
  picked : ∀ row ∈ sc.batch.items, row ∈ done
  batch : BatchHeads done sc.batch.items

variable {done batch : List PendingRow} {item : PendingRow} {nowMs : ℤ}
  {deferred : List (String × String)} {q : Queue} {events : List ValidEvent}
  {items : List BatchItem} {s : Sys}

lemma IsHead.snoc {row r : PendingRow} (h : IsHead done row)
    (hlater : ∀ r' ∈ done, r'.seq < r.seq) : IsHead (done ++ [r]) row where
  present := by
    obtain ⟨r', hr', hrow⟩ := h.present
    exact ⟨r', mem_append_left _ hr', hrow⟩
  oldest := by
    intro r' hr' hs
    rcases mem_append.mp hr' with hr' | hr'
    · exact h.oldest r' hr' hs
    · obtain ⟨r₀, hr₀, -, hseq, -⟩ := h.present
      have := hlater r₀ hr₀
      rw [mem_singleton.mp hr']
      omega

lemma ScanInv.skip {sc sc' : Scan} (h : ScanInv done sc) (hlater : ∀ r ∈ done, r.seq < item.seq)
    (hseen : item.session ∈ sc'.seen) (hmono : ∀ x ∈ sc.seen, x ∈ sc'.seen)
    (hitems : sc'.batch.items = sc.batch.items) : ScanInv (done ++ [item]) sc' where
  seen := by
    intro r hr
    rcases mem_append.mp hr with hr | hr
    · exact hmono _ (h.seen r hr)
    · rw [mem_singleton.mp hr]
      exact hseen
  looked := by
    intro row hrow
    rw [hitems] at hrow
    exact hmono _ (h.looked row hrow)
  picked := by
    intro row hrow
    rw [hitems] at hrow
    exact mem_append_left _ (h.picked row hrow)
  batch := by
    rw [hitems]
    exact ⟨h.batch.sessions, fun row hrow => (h.batch.heads row hrow).snoc hlater⟩

lemma ScanInv.pick {sc sc' : Scan} (h : ScanInv done sc) (hlater : ∀ r ∈ done, r.seq < item.seq)
    (hnew : item.session ∉ sc.seen) (hseen : sc'.seen = item.session :: sc.seen)
    (hitems : sc'.batch.items = sc.batch.items ++ [item]) : ScanInv (done ++ [item]) sc' where
  seen := by
    intro r hr
    rw [hseen]
    rcases mem_append.mp hr with hr | hr
    · exact mem_cons_of_mem _ (h.seen r hr)
    · rw [mem_singleton.mp hr]
      exact mem_cons_self
  looked := by
    intro row hrow
    rw [hitems] at hrow
    rw [hseen]
    rcases mem_append.mp hrow with hrow | hrow
    · exact mem_cons_of_mem _ (h.looked row hrow)
    · rw [mem_singleton.mp hrow]
      exact mem_cons_self
  picked := by
    intro row hrow
    rw [hitems] at hrow
    rcases mem_append.mp hrow with hrow | hrow
    · exact mem_append_left _ (h.picked row hrow)
    · exact mem_append_right _ hrow
  batch := by
    rw [hitems]
    refine ⟨?_, fun row hrow => ?_⟩
    · rw [map_append, nodup_append]
      refine ⟨h.batch.sessions, nodup_singleton _, fun x hx y hy => ?_⟩
      obtain ⟨row, hrow, rfl⟩ := mem_map.mp hx
      rw [map_singleton, mem_singleton] at hy
      rw [hy]
      exact fun heq => hnew (heq ▸ h.looked row hrow)
    · rcases mem_append.mp hrow with hrow | hrow
      · exact (h.batch.heads row hrow).snoc hlater
      · -- no row of its session came before it: that session was never looked at
        rw [mem_singleton.mp hrow]
        refine ⟨⟨item, mem_append_right _ mem_cons_self, rfl, rfl, rfl⟩, ?_⟩
        intro r hr hs
        rcases mem_append.mp hr with hr | hr
        · exact absurd (hs ▸ h.seen r hr) hnew
        · rw [mem_singleton.mp hr]

lemma scanRow_inv {byteBudget : ℕ} {costOf : PendingRow → ℕ} {sc : Scan}
    (h : ScanInv done sc) (hlater : ∀ r ∈ done, r.seq < item.seq) :
    ScanInv (done ++ [item]) (scanRow byteBudget nowMs deferred costOf sc item) := by
  unfold scanRow
  by_cases hseen : item.session ∈ sc.seen
  · rw [if_pos hseen]
    exact h.skip hlater hseen (fun _ hx => hx) rfl
  rw [if_neg hseen]
  have hcons : ∀ x ∈ sc.seen, x ∈ item.session :: sc.seen :=
    fun x hx => mem_cons_of_mem _ hx
  by_cases hdef : item.session ∈ deferred
  · rw [if_pos hdef]
    exact h.skip hlater mem_cons_self hcons rfl
  rw [if_neg hdef]
  by_cases hexp : isExpired item.firstAttemptMs nowMs
  · rw [if_pos hexp]
    exact h.skip hlater mem_cons_self hcons rfl
  rw [if_neg hexp]
  by_cases hbudget : sc.batch.items ≠ [] ∧ byteBudget < sc.spent + costOf item
  · rw [if_pos hbudget]
    exact h.skip hlater mem_cons_self hcons rfl
  · rw [if_neg hbudget]
    exact h.pick hlater hseen rfl rfl

lemma scanRows_inv {limit byteBudget : ℕ} {costOf : PendingRow → ℕ} :
    ∀ (rest done : List PendingRow) (sc : Scan), ScanInv done sc →
      (done ++ rest).Pairwise (·.seq < ·.seq) →
      BatchHeads (done ++ rest)
        (scanRows limit byteBudget nowMs deferred costOf sc rest).batch.items := by
  intro rest
  induction rest with
  | nil =>
    intro done sc h _
    rw [append_nil]
    exact h.batch
  | cons item rest ih =>
    intro done sc h hsorted
    rw [scanRows]
    by_cases hfull : limit ≤ sc.batch.items.length
    · rw [if_pos hfull]
      refine ⟨h.batch.sessions, fun row hrow => ⟨?_, fun r hr hs => ?_⟩⟩
      · exact ⟨row, mem_append_left _ (h.picked row hrow), rfl, rfl, rfl⟩
      · rcases mem_append.mp hr with hr | hr
        · exact (h.batch.heads row hrow).oldest r hr hs
        · exact ((pairwise_append.mp hsorted).2.2 row (h.picked row hrow) r hr).le
    · rw [if_neg hfull]
      have hlater : ∀ r ∈ done, r.seq < item.seq := fun r hr =>
        (pairwise_append.mp hsorted).2.2 r hr item mem_cons_self
      rw [append_cons] at hsorted ⊢
      exact ih (done ++ [item]) _ (scanRow_inv h hlater) hsorted

lemma selectBatch_heads (h : q.Inv) (limit byteBudget : ℕ) (nowMs : ℤ)
    (deferred : List (String × String)) (costOf : PendingRow → ℕ) :
    BatchHeads q.pending (selectBatch q limit byteBudget nowMs deferred costOf).items := by
  have hinit : ScanInv [] ⟨[], ⟨[], 0, 0⟩, 0⟩ :=
    ⟨by simp, by simp, by simp, by simp, by simp⟩
  exact scanRows_inv q.pending [] _ hinit h.rows.seqSorted

lemma BatchHeads.enqueue {q q' : Queue} (hq : q.Inv)
    (h : BatchHeads q.pending batch) {rep : EnqueueReport}
    (hok : enqueue q events nowMs = .ok (rep, q')) : BatchHeads q'.pending batch := by
  obtain ⟨tx, hloop, -, rfl⟩ := enqueue_ok hok
  have htx : TxInv q tx := foldlM_invariant (I := TxInv q)
    (fun _ _ _ _ h hstep => enqueueOne_txInv h hstep) (beginTx_inv hq) hloop
  obtain ⟨added, hadded⟩ := htx.grows
  have hyounger := htx.rows.seqSorted
  rw [← hadded] at hyounger
  refine ⟨h.sessions, fun row hrow => ⟨?_, fun r hr hs => ?_⟩⟩
  · obtain ⟨r, hr, hid⟩ := (h.heads row hrow).present
    exact ⟨r, htx.grows.subset hr, hid⟩
  · change r ∈ tx.pending at hr
    rw [← hadded] at hr
    rcases mem_append.mp hr with hr | hr
    · exact (h.heads row hrow).oldest r hr hs
    · obtain ⟨r₀, hr₀, -, hseq, -⟩ := (h.heads row hrow).present
      have := (pairwise_append.mp hyounger).2.2 r₀ hr₀ r hr
      omega

lemma BatchHeads.update {pending batch : List PendingRow} (h : BatchHeads pending batch)
    {p : PendingRow → Bool} {f : PendingRow → PendingRow}
    (hkey : ∀ r, (f r).ingestKey = r.ingestKey) (hseq : ∀ r, (f r).seq = r.seq)
    (hsess : ∀ r, (f r).session = r.session) : BatchHeads (Table.update p f pending) batch := by
  have hcols : ∀ r, (if p r then f r else r).ingestKey = r.ingestKey ∧
      (if p r then f r else r).seq = r.seq ∧ (if p r then f r else r).session = r.session := by
    intro r
    by_cases hp : p r
    · rw [if_pos hp]
      exact ⟨hkey r, hseq r, hsess r⟩
    · rw [if_neg hp]
      exact ⟨rfl, rfl, rfl⟩
  refine ⟨h.sessions, fun row hrow => ⟨?_, fun r' hr' hs => ?_⟩⟩
  · obtain ⟨r, hr, hk, hq, hss⟩ := (h.heads row hrow).present
    obtain ⟨hck, hcq, hcs⟩ := hcols r
    exact ⟨_, mem_update.mpr ⟨r, hr, rfl⟩, hck.trans hk, hcq.trans hq, hcs.trans hss⟩
  · obtain ⟨r, hr, rfl⟩ := mem_update.mp hr'
    obtain ⟨-, hcq, hcs⟩ := hcols r
    rw [hcq]
    exact (h.heads row hrow).oldest r hr (hcs.symm.trans hs)

lemma BatchHeads.stampAttempt (h : BatchHeads q.pending batch) (keys : List String) (nowMs : ℤ) :
    BatchHeads (stampAttempt q keys nowMs).pending batch := by
  show BatchHeads (keys.foldl (stampKey nowMs) q.pending) batch
  generalize q.pending = pending at h
  induction keys generalizing pending with
  | nil => exact h
  | cons k keys ih => exact ih _ (h.update (fun _ => rfl) (fun _ => rfl) fun _ => rfl)

lemma mem_confirm_pending (h : q.Inv) (keys : List (String × String)) (nowMs : ℤ)
    {r : PendingRow} : r ∈ (confirm q keys nowMs).pending ↔
      r ∈ q.pending ∧ ∀ k ∈ keys, r.ingestKey ≠ k.1 := by
  induction keys generalizing q with
  | nil => simp [confirm]
  | cons k keys ih =>
    have hone : ∀ r, r ∈ (confirmKey nowMs q k).pending ↔ r ∈ q.pending ∧ r.ingestKey ≠ k.1 := by
      intro r
      rcases confirmKey_cases h nowMs k with ⟨heq, hno⟩ | ⟨row, -, hrow, heq⟩
      · rw [heq]
        exact ⟨fun hr => ⟨hr, hno r hr⟩, fun hr => hr.1⟩
      · rw [heq, ← hrow]
        simp
    show r ∈ (confirm (confirmKey nowMs q k) keys nowMs).pending ↔ _
    rw [ih (confirmKey_inv h nowMs k), hone, forall_mem_cons, and_assoc]

lemma BatchHeads.confirm (hq : q.Inv) {batch kept : List PendingRow}
    (h : BatchHeads q.pending batch) (keys : List (String × String)) (nowMs : ℤ)
    (hsub : kept.Sublist batch) (hkept : ∀ row ∈ kept, ∀ k ∈ keys, row.ingestKey ≠ k.1) :
    BatchHeads (confirm q keys nowMs).pending kept := by
  refine ⟨h.sessions.sublist (hsub.map _), fun row hrow => ⟨?_, fun r hr hs => ?_⟩⟩
  · obtain ⟨r, hr, hk, hid⟩ := (h.heads row (hsub.subset hrow)).present
    refine ⟨r, (mem_confirm_pending hq keys nowMs).mpr ⟨hr, fun k hk' => ?_⟩, hk, hid⟩
    rw [hk]
    exact hkept row hrow k hk'
  · exact (h.heads row (hsub.subset hrow)).oldest r ((mem_confirm_pending hq keys nowMs).mp hr).1 hs

lemma BatchHeads.key_inj (hq : q.Inv)
    (h : BatchHeads q.pending batch) {row row' : PendingRow} (hrow : row ∈ batch)
    (hrow' : row' ∈ batch) (hkey : row.ingestKey = row'.ingestKey) : row = row' := by
  obtain ⟨r, hr, hk, -, hs⟩ := (h.heads row hrow).present
  obtain ⟨r', hr', hk', -, hs'⟩ := (h.heads row' hrow').present
  obtain rfl := hq.rows.pendingKeys.eq hr hr' (hk.trans (hkey.trans hk'.symm))
  exact inj_on_of_nodup_map h.sessions hrow hrow' (hs.symm.trans hs')

variable {prepare : PendingRow → Option BatchItem} {costOf : PendingRow → ℕ}

/-- The `i`-th wire item is that of the `i`-th batch row. -/
def Aligned (prepare : PendingRow → Option BatchItem) (batch : List PendingRow)
    (items : List BatchItem) : Prop :=
  List.Forall₂ (fun row item => prepare row = some item) batch items

lemma aligned_filterMap (batch : List PendingRow) :
    Aligned prepare (batch.filter fun row => (prepare row).isSome) (batch.filterMap prepare) := by
  induction batch with
  | nil => exact .nil
  | cons row batch ih =>
    cases hp : prepare row with
    | none =>
      rw [filter_cons_of_neg (by simp [hp]), filterMap_cons_none hp]
      exact ih
    | some item =>
      rw [filter_cons_of_pos (by simp [hp]), filterMap_cons_some hp]
      exact .cons hp ih

lemma mem_unsafeKeys {k : String × String} :
    k ∈ unsafeKeys prepare batch ↔
      ∃ row ∈ batch, prepare row = none ∧ (row.ingestKey, "dropped_policy") = k := by
  simp [unsafeKeys, and_assoc]

lemma retained_eq (hq : q.Inv) (h : BatchHeads q.pending batch) :
    retained prepare batch = batch.filter fun row => (prepare row).isSome := by
  refine filter_congr fun row hrow => ?_
  rw [Bool.eq_iff_iff, Bool.not_eq_true', any_eq_false]
  constructor
  · intro hkeep
    by_contra hunsafe
    rw [Option.not_isSome_iff_eq_none] at hunsafe
    exact hkeep (row.ingestKey, "dropped_policy")
      (mem_unsafeKeys.mpr ⟨row, hrow, hunsafe, rfl⟩) (by simp)
  · intro hsafe k hk hkey
    obtain ⟨row', hrow', hnone, rfl⟩ := mem_unsafeKeys.mp hk
    obtain rfl := h.key_inj hq hrow' hrow (by simpa using hkey)
    rw [hnone] at hsafe
    cases hsafe

lemma aligned_retained (prepare : PendingRow → Option BatchItem) (hq : q.Inv)
    (h : BatchHeads q.pending batch) :
    Aligned prepare (retained prepare batch) (batch.filterMap prepare) := by
  rw [retained_eq hq h]
  exact aligned_filterMap batch

lemma Aligned.get (h : Aligned prepare batch items) {i : ℕ} (hi : i < batch.length) :
    ∃ row item, batch[i]? = some row ∧ items[i]? = some item ∧ prepare row = some item := by
  induction h generalizing i with
  | nil => cases hi
  | @cons row item batch items hp _ ih =>
    cases i with
    | zero => exact ⟨row, item, rfl, rfl, hp⟩
    | succ i => exact ih (Nat.lt_of_succ_lt_succ hi)

/-- Index `i` of an answer names the event that was sent as item `i`. -/
def Names (prepare : PendingRow → Option BatchItem) (batch : List PendingRow)
    (items : List BatchItem) (i : ℕ) (key : String) : Prop :=
  ∃ row item, batch[i]? = some row ∧ items[i]? = some item ∧ prepare row = some item ∧
    key = row.ingestKey

lemma confirmations_names (h : Aligned prepare batch items) (ack : BatchAck) {accepted : List ℕ}
    (hlt : ∀ i ∈ accepted, i < batch.length) :
    List.Forall₂ (fun i k => Names prepare batch items i k.1 ∧ k.2 = acknowledgedOutcome ack i)
      accepted (confirmations batch ack accepted) := by
  induction accepted with
  | nil => exact .nil
  | cons i accepted ih =>
    obtain ⟨row, item, hrow, hitem, hp⟩ := h.get (hlt i mem_cons_self)
    rw [confirmations, filterMap_cons_some (b := (row.ingestKey, acknowledgedOutcome ack i))
      (by rw [hrow]; rfl)]
    exact .cons ⟨⟨row, item, hrow, hitem, hp, rfl⟩, rfl⟩
      (ih fun j hj => hlt j (mem_cons_of_mem _ hj))

/-! ### The invariant of the system -/

def KeysAtHead (pending : List PendingRow) (keys : List (String × String)) : Prop :=
  ∀ k ∈ keys, ∀ r ∈ pending, r.ingestKey = k.1 →
    ∀ r' ∈ pending, r'.session = r.session → r.seq ≤ r'.seq

lemma BatchHeads.keysAtHead (hq : q.Inv)
    (h : BatchHeads q.pending batch) {keys : List (String × String)}
    (hkeys : ∀ k ∈ keys, ∃ row ∈ batch, row.ingestKey = k.1) : KeysAtHead q.pending keys := by
  intro k hk r hr hrk r' hr' hs
  obtain ⟨row, hrow, hkey⟩ := hkeys k hk
  obtain ⟨r₀, hr₀, hk₀, hseq, hsess⟩ := (h.heads row hrow).present
  obtain rfl := hq.rows.pendingKeys.eq hr₀ hr (hk₀.trans (hkey.trans hrk.symm))
  rw [hseq]
  exact (h.heads row hrow).oldest r' hr' (hs.trans hsess)

def Entry.Fifo (prepare : PendingRow → Option BatchItem) (e : Entry) : Prop :=
  match e.event with
  | .selected batch => BatchHeads e.queue.pending batch
  | .transmitted batch items => BatchHeads e.queue.pending batch ∧ Aligned prepare batch items
  | .dropped keys => KeysAtHead e.queue.pending keys
  | .answered batch items ack accepted keys failedKey =>
    KeysAtHead e.queue.pending keys ∧
      List.Forall₂ (fun i k => Names prepare batch items i k.1 ∧ k.2 = acknowledgedOutcome ack i)
        accepted keys ∧
      ∀ i, ack.failedIndex = some i → ∃ k, failedKey = some k ∧ Names prepare batch items i k

def Entry.Follows (e : Entry) (older : List Entry) : Prop :=
  match e.event with
  | .answered batch items _ _ _ _ => ∃ q, older.head? = some ⟨q, .transmitted batch items⟩
  | _ => True

def LogFifo (prepare : PendingRow → Option BatchItem) : List Entry → Prop
  | [] => True
  | e :: older => e.Fifo prepare ∧ e.Follows older ∧ LogFifo prepare older

def PhaseInv (prepare : PendingRow → Option BatchItem) (s : Sys) : Prop :=
  match s.phase with
  | .picked _ _ batch => BatchHeads s.queue.pending batch
  | .screened _ _ batch items => BatchHeads s.queue.pending batch ∧ Aligned prepare batch items
  | .stamped _ _ batch items => BatchHeads s.queue.pending batch ∧ Aligned prepare batch items
  | .sending _ batch items _ => BatchHeads s.queue.pending batch ∧ Aligned prepare batch items
  | .inFlight _ batch items _ =>
    BatchHeads s.queue.pending batch ∧ Aligned prepare batch items ∧
      ∃ q, s.log.head? = some ⟨q, .transmitted batch items⟩
  | _ => True

structure Sys.Inv (prepare : PendingRow → Option BatchItem) (s : Sys) : Prop where
  queue : s.queue.Inv
  phase : PhaseInv prepare s
  log : LogFifo prepare s.log

lemma init_sysInv : Sys.init.Inv prepare := ⟨empty_inv, trivial, trivial⟩

lemma PhaseInv.enqueue (h : s.Inv prepare)
    {rep : EnqueueReport} {q' : Queue} (hok : enqueue s.queue events nowMs = .ok (rep, q')) :
    PhaseInv prepare { s with queue := q' } := by
  have hphase := h.phase
  unfold PhaseInv at hphase ⊢
  cases hp : s.phase with
  | picked l now batch =>
    simp only [hp] at hphase ⊢
    exact hphase.enqueue h.queue hok
  | screened l now batch items | stamped l now batch items | sending l batch items clock
  | inFlight l batch items clock =>
    simp only [hp] at hphase ⊢
    exact ⟨hphase.1.enqueue h.queue hok, hphase.2⟩
  | idle | top l | failing keys label | settling l failedKey stop => trivial

lemma enqueue_sysInv (h : s.Inv prepare) (events : List ValidEvent) (nowMs : ℤ) :
    (s.step prepare costOf (.enqueue events nowMs)).Inv prepare := by
  rw [Sys.step]
  cases hok : enqueue s.queue events nowMs with
  | error err => exact h
  | ok res => exact ⟨enqueue_inv h.queue hok, PhaseInv.enqueue h hok, h.log⟩

lemma select_sysInv (h : s.Inv prepare) (budgetSpent : Bool) (limit byteBudget : ℕ) (nowMs : ℤ) :
    (s.step prepare costOf (.select budgetSpent limit byteBudget nowMs)).Inv prepare := by
  cases hp : s.phase with
  | top l =>
    simp only [Sys.step, hp]
    by_cases hstop : l.left = 0 ∨ budgetSpent
    · rw [if_pos hstop]
      exact ⟨h.queue, trivial, h.log⟩
    rw [if_neg hstop]
    have hbatch := selectBatch_heads h.queue limit byteBudget nowMs l.deferred costOf
    by_cases hempty : (selectBatch s.queue limit byteBudget nowMs l.deferred costOf).items = []
    · rw [if_pos hempty]
      exact ⟨h.queue, trivial, h.log⟩
    · rw [if_neg hempty]
      exact ⟨h.queue, hbatch, hbatch, trivial, h.log⟩
  | _ => simpa only [Sys.step, hp] using h

lemma screen_sysInv (h : s.Inv prepare) :
    (s.step prepare costOf .screen).Inv prepare := by
  cases hp : s.phase with
  | picked l now batch =>
    have hbatch : BatchHeads s.queue.pending batch := by
      have := h.phase
      rwa [PhaseInv, hp] at this
    have haligned := aligned_retained prepare h.queue hbatch
    simp only [Sys.step, hp]
    by_cases hkeys : unsafeKeys prepare batch = []
    · simp only [hkeys, if_true]
      refine ⟨h.queue, ?_, h.log⟩
      by_cases hitems : batch.filterMap prepare = []
      · rw [PhaseInv, if_pos hitems]
        trivial
      · rw [PhaseInv, if_neg hitems]
        exact ⟨⟨hbatch.sessions.sublist (filter_sublist.map _),
          fun row hrow => hbatch.heads row (mem_filter.mp hrow).1⟩, haligned⟩
    · simp only [hkeys, if_false]
      refine ⟨confirm_inv h.queue _ now, ?_, ?_, trivial, h.log⟩
      · by_cases hitems : batch.filterMap prepare = []
        · rw [PhaseInv, if_pos hitems]
          trivial
        · rw [PhaseInv, if_neg hitems]
          refine ⟨hbatch.confirm h.queue _ now filter_sublist fun row hrow k hk => ?_, haligned⟩
          obtain ⟨-, hkeep⟩ := mem_filter.mp hrow
          rw [Bool.not_eq_true', any_eq_false] at hkeep
          exact fun heq => hkeep k hk (by simpa using heq.symm)
      · refine hbatch.keysAtHead h.queue fun k hk => ?_
        obtain ⟨row, hrow, -, rfl⟩ := mem_unsafeKeys.mp hk
        exact ⟨row, hrow, rfl⟩
  | _ => simpa only [Sys.step, hp] using h

lemma stamp_sysInv (h : s.Inv prepare) :
    (s.step prepare costOf .stamp).Inv prepare := by
  cases hp : s.phase with
  | screened l now batch items =>
    have hphase := h.phase
    rw [PhaseInv, hp] at hphase
    simp only [Sys.step, hp]
    exact ⟨stampAttempt_inv h.queue _ now, ⟨hphase.1.stampAttempt _ now, hphase.2⟩, h.log⟩
  | _ => simpa only [Sys.step, hp] using h

lemma arm_sysInv (h : s.Inv prepare) (sendNowMs : ℤ) (remaining : Option ℕ) :
    (s.step prepare costOf (.arm sendNowMs remaining)).Inv prepare := by
  cases hp : s.phase with
  | stamped l now batch items =>
    have hphase := h.phase
    rw [PhaseInv, hp] at hphase
    cases remaining with
    | none =>
      simp only [Sys.step, hp]
      exact ⟨h.queue, trivial, h.log⟩
    | some left =>
      simp only [Sys.step, hp]
      exact ⟨h.queue, hphase, h.log⟩
  | _ => simpa only [Sys.step, hp] using h

lemma post_sysInv (h : s.Inv prepare) (ttlElapsed leftElapsed : ℕ) :
    (s.step prepare costOf (.post ttlElapsed leftElapsed)).Inv prepare := by
  cases hp : s.phase with
  | sending l batch items clock =>
    have hphase := h.phase
    rw [PhaseInv, hp] at hphase
    simp only [Sys.step, hp]
    split
    · exact ⟨h.queue, trivial, h.log⟩
    · exact ⟨h.queue, ⟨hphase.1, hphase.2, s.queue, rfl⟩, hphase, trivial, h.log⟩
  | _ => simpa only [Sys.step, hp] using h

lemma transportError_sysInv (h : s.Inv prepare) (elapsed : ℕ) :
    (s.step prepare costOf (.transportError elapsed)).Inv prepare := by
  cases hp : s.phase with
  | inFlight l batch items clock =>
    have hphase := h.phase
    rw [PhaseInv, hp] at hphase
    simp only [Sys.step, hp]
    split
    · exact ⟨h.queue, trivial, h.log⟩
    · exact ⟨h.queue, ⟨hphase.1, hphase.2.1⟩, h.log⟩
  | _ => simpa only [Sys.step, hp] using h

lemma onDelivery_inv (h : s.Inv prepare) {l : Loop} (hbatch : BatchHeads s.queue.pending batch)
    (haligned : Aligned prepare batch items)
    (hsent : ∃ q, s.log.head? = some ⟨q, .transmitted batch items⟩) (d : Delivery) (nowMs : ℤ) :
    (onDelivery s l batch items d nowMs).Inv prepare := by
  unfold onDelivery
  by_cases hstatus : d.status ≠ 200 ∧ d.status ≠ 429
  · rw [if_pos hstatus]
    exact ⟨h.queue, trivial, h.log⟩
  rw [if_neg hstatus]
  by_cases hover : d.bodyOverLimit
  · rw [if_pos hover]
    exact ⟨h.queue, trivial, h.log⟩
  rw [if_neg hover]
  cases hack : d.ack with
  | none => exact ⟨h.queue, trivial, h.log⟩
  | some ack =>
    cases hval : validate batch.length ack with
    | error err =>
      simp only [hval]
      exact ⟨h.queue, trivial, h.log⟩
    | ok accepted =>
      simp only [hval]
      have hnames := confirmations_names haligned ack (validate_lt hval)
      refine ⟨confirm_inv h.queue _ nowMs, trivial, ⟨?_, hnames, fun i hi => ?_⟩, hsent, h.log⟩
      · refine hbatch.keysAtHead h.queue fun k hk => ?_
        obtain ⟨i, -, hget⟩ := mem_filterMap.mp hk
        obtain ⟨row, hrow, rfl⟩ := Option.map_eq_some_iff.mp hget
        exact ⟨row, mem_of_getElem? hrow, rfl⟩
      · obtain ⟨row, item, hrow, hitem, hp⟩ := haligned.get (validate_failed hval hi).1
        exact ⟨row.ingestKey, by simp [hi, hrow], row, item, hrow, hitem, hp, rfl⟩

lemma deliver_sysInv (h : s.Inv prepare) (d : Delivery) (nowMs : ℤ) :
    (s.step prepare costOf (.deliver d nowMs)).Inv prepare := by
  cases hp : s.phase with
  | inFlight l batch items clock =>
    have hphase := h.phase
    rw [PhaseInv, hp] at hphase
    simp only [Sys.step, hp]
    exact onDelivery_inv h hphase.1 hphase.2.1 hphase.2.2 d nowMs
  | _ => simpa only [Sys.step, hp] using h

lemma recordNext_sysInv (h : s.Inv prepare) :
    (s.step prepare costOf .recordNext).Inv prepare := by
  cases hp : s.phase with
  | failing keys label =>
    cases keys with
    | nil =>
      simp only [Sys.step, hp]
      exact ⟨h.queue, trivial, h.log⟩
    | cons k ks =>
      simp only [Sys.step, hp]
      exact ⟨recordFailure_inv h.queue k label, trivial, h.log⟩
  | _ => simpa only [Sys.step, hp] using h

lemma settle_sysInv (h : s.Inv prepare) :
    (s.step prepare costOf .settle).Inv prepare := by
  cases hp : s.phase with
  | settling l failedKey stop =>
    simp only [Sys.step, hp]
    refine ⟨?_, ?_, h.log⟩
    · cases failedKey with
      | none => exact h.queue
      | some k => exact recordFailure_inv h.queue k _
    · unfold PhaseInv
      cases stop with
      | true | false => trivial
  | _ => simpa only [Sys.step, hp] using h

lemma beginFlush_sysInv (h : s.Inv prepare) (maxBatches : ℕ) (nowMs : ℤ) :
    (s.step prepare costOf (.beginFlush maxBatches nowMs)).Inv prepare := by
  cases hp : s.phase with
  | idle =>
    simp only [Sys.step, hp]
    exact ⟨prune_inv h.queue nowMs, trivial, h.log⟩
  | _ => simpa only [Sys.step, hp] using h

lemma step_sysInv (h : s.Inv prepare) (a : Act) :
    (s.step prepare costOf a).Inv prepare := by
  cases a with
  | enqueue events nowMs => exact enqueue_sysInv h events nowMs
  | beginFlush maxBatches nowMs => exact beginFlush_sysInv h maxBatches nowMs
  | select budgetSpent limit byteBudget nowMs =>
    exact select_sysInv h budgetSpent limit byteBudget nowMs
  | screen => exact screen_sysInv h
  | stamp => exact stamp_sysInv h
  | arm sendNowMs remaining => exact arm_sysInv h sendNowMs remaining
  | post ttlElapsed leftElapsed => exact post_sysInv h ttlElapsed leftElapsed
  | transportError elapsed => exact transportError_sysInv h elapsed
  | deliver d nowMs => exact deliver_sysInv h d nowMs
  | recordNext => exact recordNext_sysInv h
  | settle => exact settle_sysInv h
  | crash => exact ⟨h.queue, trivial, h.log⟩

/-- Per-session FIFO, over every run. -/
theorem relay_fifo (prepare : PendingRow → Option BatchItem) (costOf : PendingRow → ℕ)
    (acts : List Act) :
    LogFifo prepare (exec (Sys.step prepare costOf) Sys.init acts).log := by
  have hinv : (exec (Sys.step prepare costOf) Sys.init acts).Inv prepare :=
    exec_invariant (I := Sys.Inv prepare) (fun _ a h => step_sysInv h a) init_sysInv acts
  exact hinv.log

/-- An event of session `sid` with no identity beyond its id. -/
def plainEvent (sid eid : String) : ValidEvent where
  eventId := eid
  agent := "codex"
  event := "user-prompt"
  sessionId := sid
  cwd := "/w"
  bodyJson := eid
  bodySha256 := eid
  ingestKey := eid

-- The unsafe head `a1` leaves before the send, so index 0 is `b1`; `a2` waits.
example :
    ((exec (Sys.step (fun r => if r.eventId = "a1" then none else some ⟨"u", r.bodyJson⟩)
        fun r => r.bodyBytes) Sys.init
      [ .enqueue [plainEvent "a" "a1", plainEvent "a" "a2", plainEvent "b" "b1"] 0,
        .beginFlush 4 0, .select false maxBatchItems maxBatchBytes 0, .screen, .stamp,
        .arm 0 (some (millis 1000)), .post 0 0,
        .deliver ⟨200, false, some ⟨1, none, none, none⟩⟩ 0 ]).log.map (·.event)).head? =
      some (.answered
        [(plainEvent "b" "b1").row 3 0] [⟨"u", "b1"⟩]
        ⟨1, none, none, none⟩ [0] [("b1", "unknown")] none) := by
  decide

end Relay
