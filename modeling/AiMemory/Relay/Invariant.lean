/-
The invariant of the relay queue, kept by every operation.

`Rows` is about the two event tables: one row per key across both, sequence
numbers ascending, caps respected.  `Pins` is about the session pins: one per
session, within the cap, and every pending event's session pinned to its
agent.

* `enqueue_inv`, `stampAttempt_inv`, `confirm_inv`, `recordFailure_inv`,
  `prune_inv` — the operations keep `Queue.Inv`.
-/
import Mathlib.Algebra.Order.BigOperators.Group.List
import AiMemory.Relay.Queue

open Runs Table List

namespace Relay

open Option (some.inj some_or or_none)
open Except (ok.injEq)

/-- The event tables: one row per idempotency key across both, ascending
sequence numbers, and the three caps. -/
structure Rows (pending : List PendingRow) (receipts : List ReceiptRow) (nextSeq : ℕ) : Prop where
  pendingKeys : KeyUnique (·.ingestKey) pending
  receiptKeys : KeyUnique (·.ingestKey) receipts
  disjoint : ∀ r ∈ pending, ∀ c ∈ receipts, r.ingestKey ≠ c.ingestKey
  seqSorted : pending.Pairwise (·.seq < ·.seq)
  seqBound : ∀ r ∈ pending, r.seq < nextSeq
  items : pending.length ≤ maxPendingItems
  bytes : (pending.map (·.bodyBytes)).sum ≤ maxPendingBytes
  replay : pending.length + receipts.length ≤ maxReceipts

structure Pins (pending : List PendingRow) (pins : List SessionPin) : Prop where
  keys : KeyUnique (·.sessionId) pins
  cap : pins.length ≤ maxSessionPins
  pinned : ∀ r ∈ pending, agentOf pins r.sessionId = some r.agent

structure Queue.Inv (q : Queue) : Prop where
  rows : Rows q.pending q.receipts q.nextSeq
  pins : Pins q.pending q.pins

lemma empty_inv : Queue.empty.Inv where
  rows := ⟨by simp [Queue.empty, KeyUnique], by simp [Queue.empty, KeyUnique],
    by simp [Queue.empty], by simp [Queue.empty], by simp [Queue.empty], by simp [Queue.empty],
    by simp [Queue.empty], by simp [Queue.empty]⟩
  pins := ⟨by simp [Queue.empty, KeyUnique], by simp [Queue.empty], by simp [Queue.empty]⟩

variable {pins : List SessionPin} {pending : List PendingRow} {receipts : List ReceiptRow} {n : ℕ}
  {c : ReceiptRow} {nowMs : ℤ} {f : PendingRow → PendingRow} {p : PendingRow → Bool}
  {row : PendingRow} {q : Queue} {tx tx' : EnqueueTx} {e : ValidEvent} {events : List ValidEvent}

lemma agentOf_eq_none {s : String} :
    agentOf pins s = none ↔ ∀ p ∈ pins, p.sessionId ≠ s := by
  rw [agentOf, Option.map_eq_none_iff, find?_key_eq_none]

lemma agentOf_eq_some {s a : String} (hkeys : KeyUnique (·.sessionId) pins) :
    agentOf pins s = some a ↔ ∃ p ∈ pins, p.sessionId = s ∧ p.agent = a := by
  rw [agentOf, Option.map_eq_some_iff]
  simp only [hkeys.find?_eq_some, and_assoc]

lemma knownDigest_eq_none {k : String} :
    knownDigest pending receipts k = none ↔
      (∀ r ∈ pending, r.ingestKey ≠ k) ∧ ∀ c ∈ receipts, c.ingestKey ≠ k := by
  unfold knownDigest
  cases hp : pending.find? fun r => r.ingestKey = k with
  | some r =>
    obtain ⟨hr, hk⟩ := find?_key_some hp
    simp only [reduceCtorEq, false_iff, not_and]
    exact fun h => absurd hk (h r hr)
  | none =>
    rw [Option.map_eq_none_iff, find?_key_eq_none]
    exact ⟨fun h => ⟨find?_key_eq_none.mp hp, h⟩, fun h => h.2⟩

lemma knownDigest_eq_some {k digest : String} (h : knownDigest pending receipts k = some digest) :
    (∃ r ∈ pending, r.ingestKey = k ∧ r.bodySha256 = digest) ∨
      ∃ c ∈ receipts, c.ingestKey = k ∧ c.bodySha256 = digest := by
  unfold knownDigest at h
  cases hp : pending.find? fun r => r.ingestKey = k with
  | some r =>
    rw [hp] at h
    obtain ⟨hr, hk⟩ := find?_key_some hp
    exact .inl ⟨r, hr, hk, some.inj h⟩
  | none =>
    rw [hp] at h
    obtain ⟨c, hc, hd⟩ := Option.map_eq_some_iff.mp h
    obtain ⟨hc, hk⟩ := find?_key_some hc
    exact .inr ⟨c, hc, hk, hd⟩

lemma Rows.knownDigest_pending (h : Rows pending receipts n) {r : PendingRow} (hr : r ∈ pending) :
    knownDigest pending receipts r.ingestKey = some r.bodySha256 := by
  cases hk : knownDigest pending receipts r.ingestKey with
  | none => exact absurd rfl ((knownDigest_eq_none.mp hk).1 r hr)
  | some d =>
    rcases knownDigest_eq_some hk with ⟨r', hr', hkey, hd⟩ | ⟨c, hc, hkey, -⟩
    · rw [← hd, h.pendingKeys.eq hr' hr hkey]
    · exact absurd hkey.symm (h.disjoint r hr c hc)

lemma Rows.knownDigest_receipt (h : Rows pending receipts n) (hc : c ∈ receipts) :
    knownDigest pending receipts c.ingestKey = some c.bodySha256 := by
  cases hk : knownDigest pending receipts c.ingestKey with
  | none => exact absurd rfl ((knownDigest_eq_none.mp hk).2 c hc)
  | some d =>
    rcases knownDigest_eq_some hk with ⟨r, hr, hkey, -⟩ | ⟨c', hc', hkey, hd⟩
    · exact absurd hkey (h.disjoint r hr c hc)
    · rw [← hd, h.receiptKeys.eq hc' hc hkey]

/-! ### Pins -/

theorem agentOf_touch (p : SessionPin → Bool) (nowMs : ℤ) (pins : List SessionPin) (s : String) :
    agentOf (update p (fun r => { r with lastSeenMs := nowMs }) pins) s = agentOf pins s := by
  have hsess : ∀ r : SessionPin,
      (if p r then { r with lastSeenMs := nowMs } else r).sessionId = r.sessionId := by
    intro r
    by_cases hp : p r
    · rw [if_pos hp]
    · rw [if_neg hp]
  have hagent : ∀ r : SessionPin,
      (if p r then { r with lastSeenMs := nowMs } else r).agent = r.agent := by
    intro r
    by_cases hp : p r
    · rw [if_pos hp]
    · rw [if_neg hp]
  rw [agentOf, agentOf, update, find?_map, Option.map_map]
  simp only [Function.comp_def, hsess, hagent]

lemma agentOf_append_singleton (pins : List SessionPin) (p : SessionPin) (s : String) :
    agentOf (pins ++ [p]) s =
      (agentOf pins s).or (if p.sessionId = s then some p.agent else none) := by
  rw [agentOf, agentOf, find?_append, Option.map_or]
  by_cases hs : p.sessionId = s
  · simp [hs]
  · simp [hs]

lemma any_session_iff {s : String} :
    (pins.any fun r => r.sessionId = s) ↔ agentOf pins s ≠ none := by
  rw [ne_eq, agentOf_eq_none, any_eq_true]
  simp

lemma agentOf_upsertPin (nowMs : ℤ) (pins : List SessionPin) (k v s : String) :
    agentOf (upsertPin nowMs pins ⟨k, v⟩) s =
      (agentOf pins s).or (if k = s then some v else none) := by
  unfold upsertPin
  by_cases hany : (pins.any fun r => r.sessionId = k)
  · rw [if_pos hany, agentOf_touch]
    by_cases hk : k = s
    · subst hk
      obtain ⟨a, ha⟩ := Option.ne_none_iff_exists'.mp (any_session_iff.mp hany)
      rw [ha, some_or]
    · rw [if_neg hk, or_none]
  · rw [if_neg hany, agentOf_append_singleton]

lemma upsertPin_keys (h : KeyUnique (·.sessionId) pins)
    (p : Σ _ : String, String) : KeyUnique (·.sessionId) (upsertPin nowMs pins p) := by
  unfold upsertPin
  by_cases hany : (pins.any fun r => r.sessionId = p.1)
  · rw [if_pos hany]
    exact h.update fun _ => rfl
  · rw [if_neg hany, keyUnique_append_singleton]
    have hnone : agentOf pins p.1 = none := by
      by_contra hne
      exact hany (any_session_iff.mpr hne)
    exact ⟨h, agentOf_eq_none.mp hnone⟩

lemma upsertPin_length (nowMs : ℤ) (pins : List SessionPin) (p : Σ _ : String, String) :
    (upsertPin nowMs pins p).length =
      pins.length + if agentOf pins p.1 = none then 1 else 0 := by
  unfold upsertPin
  by_cases hany : (pins.any fun r => r.sessionId = p.1)
  · rw [if_pos hany, if_neg (any_session_iff.mp hany), length_update, Nat.add_zero]
  · have hnone : agentOf pins p.1 = none := by
      by_contra hne
      exact hany (any_session_iff.mpr hne)
    rw [if_neg hany, if_pos hnone, length_append, length_singleton]

lemma agentOf_foldl_upsertPin (nowMs : ℤ) (l : List (Σ _ : String, String))
    (pins : List SessionPin) (s : String) :
    agentOf (l.foldl (upsertPin nowMs) pins) s = (agentOf pins s).or (l.dlookup s) := by
  induction l generalizing pins with
  | nil => rw [foldl_nil, dlookup_nil, or_none]
  | cons p l ih =>
    obtain ⟨k, v⟩ := p
    rw [foldl_cons, ih, agentOf_upsertPin, Option.or_assoc]
    by_cases hk : k = s
    · subst hk
      rw [dlookup_cons_eq, if_pos rfl, some_or]
    · rw [dlookup_cons_ne _ _ (Ne.symm hk), if_neg hk, Option.none_or]

lemma foldl_upsertPin_keys (nowMs : ℤ) (l : List (Σ _ : String, String)) :
    ∀ {pins : List SessionPin}, KeyUnique (·.sessionId) pins →
      KeyUnique (·.sessionId) (l.foldl (upsertPin nowMs) pins) := by
  induction l with
  | nil => exact fun h => h
  | cons p l ih => exact fun h => ih (upsertPin_keys h p)

lemma foldl_upsertPin_length (nowMs : ℤ) :
    ∀ (l : List (Σ _ : String, String)) (pins : List SessionPin), l.keys.Nodup →
      (l.foldl (upsertPin nowMs) pins).length =
        pins.length + l.keys.countP fun s => agentOf pins s = none := by
  intro l
  induction l with
  | nil => intro pins _; rfl
  | cons p l ih =>
    intro pins hnd
    obtain ⟨k, v⟩ := p
    rw [keys_cons, nodup_cons] at hnd
    -- the first session's pin does not change the lookup of the others
    have hrest : (l.keys.countP fun s => agentOf (upsertPin nowMs pins ⟨k, v⟩) s = none) =
        l.keys.countP fun s => agentOf pins s = none := by
      refine countP_congr fun s hs => ?_
      have hks : k ≠ s := fun h => hnd.1 (h ▸ hs)
      rw [agentOf_upsertPin, if_neg hks, or_none]
    rw [foldl_cons, ih _ hnd.2, hrest, upsertPin_length, keys_cons, countP_cons]
    simp only [decide_eq_true_eq]
    omega

lemma Rows.update (h : Rows pending receipts n)
    (hkey : ∀ r, (f r).ingestKey = r.ingestKey) (hseq : ∀ r, (f r).seq = r.seq)
    (hbytes : ∀ r, (f r).bodyBytes = r.bodyBytes) : Rows (update p f pending) receipts n := by
  have hmem : ∀ r' ∈ Table.update p f pending,
      ∃ r ∈ pending, r'.ingestKey = r.ingestKey ∧ r'.seq = r.seq := by
    intro r' hr'
    obtain ⟨r, hr, rfl⟩ := mem_update.mp hr'
    by_cases hp : p r
    · rw [if_pos hp]
      exact ⟨r, hr, hkey r, hseq r⟩
    · rw [if_neg hp]
      exact ⟨r, hr, rfl, rfl⟩
  refine ⟨h.pendingKeys.update hkey, h.receiptKeys, ?_, ?_, ?_, ?_, ?_, ?_⟩
  · intro r' hr' c hc
    obtain ⟨r, hr, hk, -⟩ := hmem r' hr'
    rw [hk]
    exact h.disjoint r hr c hc
  · have := pairwise_map.mpr h.seqSorted
    rw [← map_update hseq] at this
    exact pairwise_map.mp this
  · intro r' hr'
    obtain ⟨r, hr, -, hs⟩ := hmem r' hr'
    rw [hs]
    exact h.seqBound r hr
  · rw [length_update]
    exact h.items
  · rw [map_update hbytes]
    exact h.bytes
  · rw [length_update]
    exact h.replay

lemma Rows.append (h : Rows pending receipts n) (hseq : row.seq = n)
    (hnew : knownDigest pending receipts row.ingestKey = none)
    (hitems : pending.length + 1 ≤ maxPendingItems)
    (hbytes : (pending.map (·.bodyBytes)).sum + row.bodyBytes ≤ maxPendingBytes)
    (hreplay : receipts.length + (pending.length + 1) ≤ maxReceipts) :
    Rows (pending ++ [row]) receipts (n + 1) := by
  obtain ⟨hpend, hrec⟩ := knownDigest_eq_none.mp hnew
  refine ⟨keyUnique_append_singleton.mpr ⟨h.pendingKeys, hpend⟩, h.receiptKeys, ?_, ?_, ?_, ?_,
    ?_, ?_⟩
  · intro r hr c hc
    rcases mem_append.mp hr with hr | hr
    · exact h.disjoint r hr c hc
    · rw [mem_singleton.mp hr]
      exact (hrec c hc).symm
  · refine pairwise_append.mpr ⟨h.seqSorted, pairwise_singleton _ _, ?_⟩
    intro r hr r' hr'
    rw [mem_singleton.mp hr', hseq]
    exact h.seqBound r hr
  · intro r hr
    rcases mem_append.mp hr with hr | hr
    · exact Nat.lt_succ_of_lt (h.seqBound r hr)
    · rw [mem_singleton.mp hr, hseq]
      exact Nat.lt_succ_self n
  · rw [length_append, length_singleton]
    exact hitems
  · rw [map_append, sum_append, map_singleton, sum_singleton]
    exact hbytes
  · rw [length_append, length_singleton]
    omega

lemma length_delete_key (h : KeyUnique (·.ingestKey) pending) {r : PendingRow} (hr : r ∈ pending) :
    (delete (fun x => x.ingestKey = r.ingestKey) pending).length + 1 = pending.length := by
  have hone : pending.countP (fun x => decide (x.ingestKey = r.ingestKey)) = 1 := by
    have hle := h.countP_le_one (p := fun x => decide (x.ingestKey = r.ingestKey))
      (k := r.ingestKey) fun x _ hx => by simpa using hx
    have hpos : 0 < pending.countP (fun x => decide (x.ingestKey = r.ingestKey)) :=
      countP_pos_iff.mpr ⟨r, hr, by simp⟩
    omega
  have hsplit := length_eq_countP_add_countP
    (fun x : PendingRow => decide (x.ingestKey = r.ingestKey)) (l := pending)
  rw [delete, ← countP_eq_length_filter]
  simp only [Bool.not_eq_true, decide_eq_false_iff_not] at hsplit
  simp only [← decide_not]
  omega

lemma sum_bytes_sublist {l l' : List PendingRow} (h : l.Sublist l') :
    (l.map (·.bodyBytes)).sum ≤ (l'.map (·.bodyBytes)).sum :=
  (h.map _).sum_le_sum fun _ _ => Nat.zero_le _

lemma Rows.move (h : Rows pending receipts n) (hrow : row ∈ pending)
    (hc : c.ingestKey = row.ingestKey) :
    Rows (delete (fun r => r.ingestKey = row.ingestKey) pending) (receipts ++ [c]) n := by
  have hlen := length_delete_key h.pendingKeys hrow
  refine ⟨h.pendingKeys.delete, keyUnique_append_singleton.mpr ⟨h.receiptKeys, ?_⟩, ?_,
    h.seqSorted.sublist filter_sublist, fun r hr => h.seqBound r (delete_subset hr), ?_,
    (sum_bytes_sublist filter_sublist).trans h.bytes, ?_⟩
  · intro c' hc'
    rw [hc]
    exact (h.disjoint row hrow c' hc').symm
  · intro r hr c' hc'
    obtain ⟨hr, hne⟩ := mem_delete.mp hr
    rcases mem_append.mp hc' with hc' | hc'
    · exact h.disjoint r hr c' hc'
    · rw [mem_singleton.mp hc', hc]
      simpa using hne
  · have := h.items
    omega
  · have := h.replay
    rw [length_append, length_singleton]
    omega

lemma Rows.upsertReceipt (h : Rows pending receipts n) (hrow : row ∈ pending)
    (hc : c.ingestKey = row.ingestKey) : upsertReceipt receipts c = receipts ++ [c] := by
  rw [Relay.upsertReceipt, if_neg]
  rw [any_eq_true]
  rintro ⟨c', hc', hk⟩
  have hk : c'.ingestKey = c.ingestKey := by simpa using hk
  exact h.disjoint row hrow c' hc' (hc.symm.trans hk.symm)

/-! ### Operations on existing events -/

theorem Pins.mono {pending pending' : List PendingRow} (h : Pins pending pins)
    (hsub : ∀ r' ∈ pending', ∃ r ∈ pending, r.sessionId = r'.sessionId ∧ r.agent = r'.agent) :
    Pins pending' pins where
  keys := h.keys
  cap := h.cap
  pinned := by
    intro r' hr'
    obtain ⟨r, hr, hs, ha⟩ := hsub r' hr'
    rw [← hs, ← ha]
    exact h.pinned r hr

lemma Pins.update (h : Pins pending pins)
    (hs : ∀ r, (f r).sessionId = r.sessionId) (ha : ∀ r, (f r).agent = r.agent) :
    Pins (update p f pending) pins := by
  refine h.mono fun r' hr' => ?_
  obtain ⟨r, hr, rfl⟩ := mem_update.mp hr'
  by_cases hp : p r
  · rw [if_pos hp]
    exact ⟨r, hr, (hs r).symm, (ha r).symm⟩
  · rw [if_neg hp]
    exact ⟨r, hr, rfl, rfl⟩

lemma stampAttempt_inv (h : q.Inv) (keys : List String) (nowMs : ℤ) :
    (stampAttempt q keys nowMs).Inv := by
  unfold stampAttempt
  induction keys generalizing q with
  | nil => exact h
  | cons k keys ih =>
    rw [foldl_cons]
    refine ih (q := { q with pending := stampKey nowMs q.pending k }) ?_
    exact ⟨h.rows.update (fun _ => rfl) (fun _ => rfl) fun _ => rfl,
      h.pins.update (fun _ => rfl) fun _ => rfl⟩

lemma recordFailure_inv (h : q.Inv) (key failureClass : String) :
    (recordFailure q key failureClass).Inv :=
  ⟨h.rows.update (fun _ => rfl) (fun _ => rfl) fun _ => rfl,
    h.pins.update (fun _ => rfl) fun _ => rfl⟩

def receiptOf (nowMs : ℤ) (row : PendingRow) (label : String) : ReceiptRow where
  ingestKey := row.ingestKey
  bodySha256 := row.bodySha256
  firstAttemptMs := row.firstAttemptMs.getD row.firstSeenMs
  deliveredAtMs := nowMs
  outcome := some (outcome label)

lemma confirmKey_cases (h : q.Inv) (nowMs : ℤ) (k : String × String) :
    (confirmKey nowMs q k = q ∧ ∀ r ∈ q.pending, r.ingestKey ≠ k.1) ∨
      ∃ row ∈ q.pending, row.ingestKey = k.1 ∧
        confirmKey nowMs q k = { q with
          receipts := q.receipts ++ [receiptOf nowMs row k.2]
          pending := delete (fun r => r.ingestKey = row.ingestKey) q.pending } := by
  unfold confirmKey
  cases hf : q.pending.find? fun r => r.ingestKey = k.1 with
  | none => exact .inl ⟨rfl, find?_key_eq_none.mp hf⟩
  | some row =>
    obtain ⟨hrow, hk⟩ := find?_key_some hf
    refine .inr ⟨row, hrow, hk, ?_⟩
    simp only [← hk]
    rw [h.rows.upsertReceipt hrow rfl]
    rfl

lemma confirmKey_inv (h : q.Inv) (nowMs : ℤ) (k : String × String) :
    (confirmKey nowMs q k).Inv := by
  rcases confirmKey_cases h nowMs k with ⟨heq, -⟩ | ⟨row, hrow, -, heq⟩
  · rw [heq]
    exact h
  · rw [heq]
    exact ⟨h.rows.move hrow rfl, h.pins.mono fun r hr => ⟨r, delete_subset hr, rfl, rfl⟩⟩

lemma confirm_inv (h : q.Inv) (keys : List (String × String)) (nowMs : ℤ) :
    (confirm q keys nowMs).Inv :=
  exec_invariant (I := Queue.Inv) (fun _ k h => confirmKey_inv h nowMs k) h keys

lemma agentOf_prune (h : q.Inv) (nowMs : ℤ) {s a : String} :
    agentOf (prune q nowMs).pins s = some a ↔
      ∃ p ∈ q.pins, p.sessionId = s ∧ p.agent = a ∧
        (pruneCutoff nowMs ≤ p.lastSeenMs ∨ ∃ r ∈ q.pending, r.sessionId = s) := by
  rw [agentOf_eq_some (show KeyUnique (·.sessionId) (prune q nowMs).pins from h.pins.keys.delete)]
  simp only [prune, mem_delete, Bool.and_eq_false_iff, decide_eq_false_iff_not, not_lt,
    Bool.not_eq_false', any_eq_true, decide_eq_true_eq]
  constructor
  · rintro ⟨p, ⟨hp, hkeep⟩, rfl, ha⟩
    exact ⟨p, hp, rfl, ha, hkeep⟩
  · rintro ⟨p, hp, rfl, ha, hkeep⟩
    exact ⟨p, ⟨hp, hkeep⟩, rfl, ha⟩

lemma prune_inv (h : q.Inv) (nowMs : ℤ) : (prune q nowMs).Inv where
  rows :=
    { pendingKeys := h.rows.pendingKeys
      receiptKeys := h.rows.receiptKeys.delete
      disjoint := fun r hr c hc => h.rows.disjoint r hr c (delete_subset hc)
      seqSorted := h.rows.seqSorted
      seqBound := h.rows.seqBound
      items := h.rows.items
      bytes := h.rows.bytes
      replay := by
        have hle : (prune q nowMs).receipts.length ≤ q.receipts.length :=
          length_filter_le _ _
        have := h.rows.replay
        show q.pending.length + _ ≤ _
        omega }
  pins :=
    { keys := h.pins.keys.delete
      cap := (length_filter_le _ _).trans h.pins.cap
      pinned := by
        intro r hr
        obtain ⟨p, hp, hs, ha⟩ := (agentOf_eq_some h.pins.keys).mp (h.pins.pinned r hr)
        exact (agentOf_prune h nowMs).mpr ⟨p, hp, hs, ha, .inr ⟨r, hr, rfl⟩⟩ }

/-! ### `enqueue` -/

def boundAgent (pins : List SessionPin) (tx : EnqueueTx) (sessionId : String) : Option String :=
  (agentOf pins sessionId).or (tx.seenSessions.lookup sessionId)

lemma bindSession_ok (h : bindSession pins tx e = .ok tx') :
    ∃ pinCount, tx' = { tx with
        pinCount := pinCount
        seenSessions := tx.seenSessions.insert e.sessionId e.agent } ∧
      ((boundAgent pins tx e.sessionId = none ∧ pinCount = tx.pinCount + 1 ∧
          pinCount ≤ maxSessionPins) ∨
        (boundAgent pins tx e.sessionId = some e.agent ∧ pinCount = tx.pinCount)) := by
  unfold bindSession at h
  cases hb : boundAgent pins tx e.sessionId with
  | none =>
    rw [boundAgent] at hb
    rw [hb] at h
    by_cases hfull : maxSessionPins < tx.pinCount + 1
    · rw [if_pos hfull] at h
      cases h
    · rw [if_neg hfull, ok.injEq] at h
      exact ⟨tx.pinCount + 1, h.symm, .inl ⟨rfl, rfl, not_lt.mp hfull⟩⟩
  | some bound =>
    rw [boundAgent] at hb
    simp only [hb] at h
    by_cases hne : bound ≠ e.agent
    · rw [if_pos hne] at h
      cases h
    · rw [if_neg hne, ok.injEq] at h
      exact ⟨tx.pinCount, h.symm, .inr ⟨by rw [not_not.mp hne], rfl⟩⟩

lemma noteKey_ok (h : noteKey tx e = .ok tx') :
    tx' = { tx with seenKeys := tx.seenKeys.insert e.ingestKey e.bodySha256 } := by
  unfold noteKey at h
  cases hl : tx.seenKeys.lookup e.ingestKey with
  | none =>
    rw [hl, ok.injEq] at h
    exact h.symm
  | some previous =>
    simp only [hl] at h
    by_cases hne : previous ≠ e.bodySha256
    · rw [if_pos hne] at h
      cases h
    · rw [if_neg hne, ok.injEq] at h
      exact h.symm

lemma insertEvent_ok (h : insertEvent receipts nowMs tx e = .ok tx') :
    (knownDigest tx.pending receipts e.ingestKey = some e.bodySha256 ∧
      tx' = { tx with
        report := { tx.report with recognized := tx.report.recognized + 1 } }) ∨
    (knownDigest tx.pending receipts e.ingestKey = none ∧
      tx.items + 1 ≤ maxPendingItems ∧
      tx.bytes + e.bodyJson.utf8ByteSize ≤ maxPendingBytes ∧
      receipts.length + (tx.items + 1) ≤ maxReceipts ∧
      tx' = { tx with
        pending := tx.pending ++ [e.row tx.nextSeq nowMs]
        nextSeq := tx.nextSeq + 1
        items := tx.items + 1
        bytes := tx.bytes + e.bodyJson.utf8ByteSize
        report := { tx.report with accepted := tx.report.accepted + 1 } }) := by
  unfold insertEvent at h
  cases hk : knownDigest tx.pending receipts e.ingestKey with
  | some known =>
    simp only [hk] at h
    by_cases hne : known ≠ e.bodySha256
    · rw [if_pos hne] at h
      cases h
    · rw [if_neg hne, ok.injEq] at h
      exact .inl ⟨by rw [not_not.mp hne], h.symm⟩
  | none =>
    simp only [hk] at h
    by_cases hfull : maxPendingItems < tx.items + 1
        ∨ maxPendingBytes < tx.bytes + e.bodyJson.utf8ByteSize
    · rw [if_pos hfull] at h
      cases h
    rw [if_neg hfull] at h
    by_cases hreplay : maxReceipts < receipts.length + (tx.items + 1)
    · rw [if_pos hreplay] at h
      cases h
    rw [if_neg hreplay, ok.injEq] at h
    rw [not_or, not_lt, not_lt] at hfull
    exact .inr ⟨rfl, hfull.1, hfull.2, not_lt.mp hreplay, h.symm⟩

lemma enqueueOne_ok (h : enqueueOne q nowMs tx e = .ok tx') :
    ∃ tx₁ tx₂, bindSession q.pins tx e = .ok tx₁ ∧ noteKey tx₁ e = .ok tx₂ ∧
      insertEvent q.receipts nowMs tx₂ e = .ok tx' := by
  obtain ⟨tx₁, h₁, h⟩ := bind_ok.mp h
  obtain ⟨tx₂, h₂, h⟩ := bind_ok.mp h
  exact ⟨tx₁, tx₂, h₁, h₂, h⟩

/-- The invariant of the loop of `enqueue`: the open transaction's tables, its
running totals, and the pins it will write. -/
structure TxInv (q : Queue) (tx : EnqueueTx) : Prop where
  rows : Rows tx.pending q.receipts tx.nextSeq
  items : tx.items = tx.pending.length
  bytes : tx.bytes = (tx.pending.map (·.bodyBytes)).sum
  grows : q.pending <+: tx.pending
  pinCount : tx.pinCount =
    q.pins.length + tx.seenSessions.keys.countP fun s => agentOf q.pins s = none
  pinCap : tx.pinCount ≤ maxSessionPins
  pinned : ∀ r ∈ tx.pending, boundAgent q.pins tx r.sessionId = some r.agent

lemma beginTx_inv (h : q.Inv) : TxInv q q.beginTx where
  rows := h.rows
  items := rfl
  bytes := rfl
  grows := prefix_rfl
  pinCount := rfl
  pinCap := h.pins.cap
  pinned := by
    intro r hr
    rw [boundAgent, h.pins.pinned r hr, some_or]

lemma boundAgent_insert {tx : EnqueueTx} {sessionId agent : String}
    {n : ℕ} (hb : ∀ b, boundAgent pins tx sessionId = some b → b = agent) (s : String) :
    boundAgent pins { tx with
        pinCount := n
        seenSessions := tx.seenSessions.insert sessionId agent } s =
      if s = sessionId then some agent else boundAgent pins tx s := by
  by_cases hs : s = sessionId
  · subst hs
    rw [if_pos rfl, boundAgent, AList.lookup_insert]
    cases ha : agentOf pins s with
    | none => rfl
    | some b => rw [some_or, hb b (by rw [boundAgent, ha, some_or])]
  · rw [if_neg hs, boundAgent, AList.lookup_insert_ne hs, boundAgent]

lemma bindSession_txInv (h : TxInv q tx) (hok : bindSession q.pins tx e = .ok tx') :
    TxInv q tx' ∧ boundAgent q.pins tx' e.sessionId = some e.agent ∧
      tx'.pending = tx.pending := by
  obtain ⟨pinCount, rfl, hcase⟩ := bindSession_ok hok
  have hb : ∀ b, boundAgent q.pins tx e.sessionId = some b → b = e.agent := by
    intro b hb
    rcases hcase with ⟨hnone, -, -⟩ | ⟨hsome, -⟩
    · rw [hnone] at hb
      cases hb
    · exact some.inj (hb.symm.trans hsome)
  refine ⟨⟨h.rows, h.items, h.bytes, h.grows, ?_, ?_, ?_⟩, ?_, rfl⟩
  · show pinCount = _
    rw [AList.keys_insert, countP_cons]
    rcases hcase with ⟨hnone, hcount, -⟩ | ⟨hsome, hcount⟩
    · obtain ⟨hpin, hlook⟩ := Option.or_eq_none_iff.mp hnone
      have hnot : e.sessionId ∉ tx.seenSessions.keys := AList.lookup_eq_none.mp hlook
      rw [erase_of_not_mem hnot, hcount, h.pinCount]
      simp [hpin]
      omega
    · rw [hcount, h.pinCount]
      by_cases hmem : e.sessionId ∈ tx.seenSessions.keys
      · rw [(perm_cons_erase hmem).countP_eq, countP_cons]
      · -- not named earlier in the file, so the binding is a pin of the table
        have hlook : tx.seenSessions.lookup e.sessionId = none := AList.lookup_eq_none.mpr hmem
        rw [boundAgent, hlook, or_none] at hsome
        rw [erase_of_not_mem hmem]
        simp [hsome]
  · show pinCount ≤ maxSessionPins
    rcases hcase with ⟨-, -, hcap⟩ | ⟨-, hcount⟩
    · exact hcap
    · rw [hcount]
      exact h.pinCap
  · intro r hr
    rw [boundAgent_insert hb]
    by_cases hs : r.sessionId = e.sessionId
    · rw [if_pos hs, ← hb r.agent (hs ▸ h.pinned r hr)]
    · rw [if_neg hs]
      exact h.pinned r hr
  · rw [boundAgent_insert hb, if_pos rfl]

lemma enqueueOne_txInv
    (h : TxInv q tx) (hok : enqueueOne q nowMs tx e = .ok tx') : TxInv q tx' := by
  obtain ⟨tx₁, tx₂, hbind, hnote, hins⟩ := enqueueOne_ok hok
  obtain ⟨h₁, hbound, -⟩ := bindSession_txInv h hbind
  obtain rfl := noteKey_ok hnote
  rcases insertEvent_ok hins with ⟨-, rfl⟩ | ⟨hnew, hitems, hbytes, hreplay, rfl⟩
  · exact ⟨h₁.rows, h₁.items, h₁.bytes, h₁.grows, h₁.pinCount, h₁.pinCap, h₁.pinned⟩
  · simp only at hnew hitems hbytes hreplay
    rw [h₁.items] at hitems hreplay
    rw [h₁.bytes] at hbytes
    refine ⟨h₁.rows.append rfl hnew hitems hbytes hreplay, ?_, ?_,
      h₁.grows.trans (prefix_append _ _), h₁.pinCount, h₁.pinCap, ?_⟩
    · show tx₁.items + 1 = _
      rw [h₁.items, length_append, length_singleton]
    · show tx₁.bytes + _ = _
      rw [h₁.bytes, map_append, sum_append, map_singleton, sum_singleton]
      rfl
    · intro r hr
      rcases mem_append.mp hr with hr | hr
      · exact h₁.pinned r hr
      · rw [mem_singleton.mp hr]
        exact hbound

lemma enqueue_ok {q q' : Queue} {rep : EnqueueReport} (h : enqueue q events nowMs = .ok (rep, q')) :
    ∃ tx, events.foldlM (enqueueOne q nowMs) q.beginTx = .ok tx ∧ rep = tx.report ∧
      q' = { q with
        pending := tx.pending
        nextSeq := tx.nextSeq
        pins := tx.seenSessions.entries.foldl (upsertPin nowMs) q.pins } := by
  obtain ⟨tx, hloop, h⟩ := bind_ok.mp h
  rw [pure_ok, Prod.mk.injEq] at h
  exact ⟨tx, hloop, h.1.symm, h.2.symm⟩

lemma agentOf_commit (q : Queue) (tx : EnqueueTx) (nowMs : ℤ) (s : String) :
    agentOf (tx.seenSessions.entries.foldl (upsertPin nowMs) q.pins) s =
      boundAgent q.pins tx s :=
  agentOf_foldl_upsertPin nowMs _ _ s

lemma enqueue_inv {q q' : Queue} (h : q.Inv)
    {rep : EnqueueReport} (hok : enqueue q events nowMs = .ok (rep, q')) : q'.Inv := by
  obtain ⟨tx, hloop, -, rfl⟩ := enqueue_ok hok
  have htx : TxInv q tx := foldlM_invariant (I := TxInv q)
    (fun _ _ _ _ h hstep => enqueueOne_txInv h hstep) (beginTx_inv h) hloop
  refine ⟨htx.rows, foldl_upsertPin_keys nowMs _ h.pins.keys, ?_, ?_⟩
  · show (tx.seenSessions.entries.foldl (upsertPin nowMs) q.pins).length ≤ maxSessionPins
    rw [foldl_upsertPin_length nowMs _ _ tx.seenSessions.keys_nodup]
    exact htx.pinCount ▸ htx.pinCap
  · intro r hr
    rw [agentOf_commit]
    exact htx.pinned r hr

end Relay
