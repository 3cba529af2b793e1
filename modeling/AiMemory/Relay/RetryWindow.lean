/-
What an acknowledgement releases, and how long an event is resent.
-/
import AiMemory.Relay.Fifo

open Runs Table List
open Strings (isControl)

namespace Relay

/-- The indexes `S` are those that an acknowledgement of `n` items confirms. -/
structure Confirms (n : ℕ) (ack : BatchAck) (S : List ℕ) : Prop where
  ascending : S.Pairwise (· < ·)
  within : ∀ i ∈ S, i < n
  leading : List.range ack.accepted <+: S ∧ S[ack.accepted]? ≠ some ack.accepted
  named : S = ack.acceptedIndices.getD (List.range ack.accepted)
  described : ∀ results, ack.results = some results → results.map (·.index) = S
  failed : ∀ failed, ack.failedIndex = some failed → failed < n ∧ ∀ i ∈ S, i < failed

variable {n a : ℕ} {ack : BatchAck} {S : List ℕ}

lemma hasDescent_iff : hasDescent S = false ↔ S.Pairwise (· < ·) := by
  refine ⟨sorted_of_not_hasDescent, fun h => ?_⟩
  induction S with
  | nil => rfl
  | cons i S ih =>
    cases S with
    | nil => rfl
    | cons j S =>
      obtain ⟨hfirst, hrest⟩ := pairwise_cons.mp h
      rw [hasDescent, Bool.or_eq_false_iff, decide_eq_false_iff_not, not_le]
      exact ⟨hfirst j mem_cons_self, ih hrest⟩

lemma contiguousPrefix_eq_iff {pos : ℕ} :
    contiguousPrefix pos S = a ↔ List.range' pos a <+: S ∧ S[a]? ≠ some (pos + a) := by
  induction S generalizing pos a with
  | nil =>
    rw [contiguousPrefix, prefix_nil, range'_eq_nil_iff]
    exact ⟨fun h => ⟨h.symm, by simp⟩, fun h => h.1.symm⟩
  | cons i S ih =>
    rw [contiguousPrefix]
    cases a with
    | zero =>
      by_cases hi : pos = i
      · subst hi
        simp
      · simp [hi, Ne.symm hi]
    | succ a =>
      rw [range'_succ, cons_prefix_cons, getElem?_cons_succ]
      by_cases hi : pos = i
      · rw [if_pos hi, Nat.add_right_cancel_iff, ih, Nat.add_right_comm, Nat.add_assoc]
        exact ⟨fun h => ⟨⟨hi, h.1⟩, h.2⟩, fun h => ⟨h.1.2, h.2⟩⟩
      · rw [if_neg hi]
        exact iff_of_false (by omega) fun h => hi h.1.1

lemma acceptedSet_iff : acceptedSet n ack = .ok S ↔ S.Pairwise (· < ·) ∧ (∀ i ∈ S, i < n) ∧
    (List.range ack.accepted <+: S ∧ S[ack.accepted]? ≠ some ack.accepted) ∧
      S = ack.acceptedIndices.getD (List.range ack.accepted) := by
  rw [acceptedSet]
  cases ack.acceptedIndices with
  | some indices =>
    have hleading : contiguousPrefix 0 indices = ack.accepted ↔
        List.range ack.accepted <+: indices ∧ indices[ack.accepted]? ≠ some ack.accepted := by
      rw [contiguousPrefix_eq_iff, range_eq_range', Nat.zero_add]
    cases hbad : indices.find? fun idx => n ≤ idx with
    | some bad =>
      have hout := find?_some hbad
      simp only [hbad]
      refine iff_of_false (by simp) ?_
      rintro ⟨-, hwithin, -, rfl⟩
      exact absurd (hwithin bad (mem_of_find?_eq_some hbad)) (by simpa using hout)
    | none =>
      have hwithin : ∀ i ∈ indices, i < n := fun i hi => by
        simpa using find?_eq_none.mp hbad i hi
      simp only [hbad]
      by_cases hdescent : hasDescent indices
      · rw [if_pos hdescent]
        refine iff_of_false (by simp) ?_
        rintro ⟨hsorted, -, -, rfl⟩
        exact absurd (hasDescent_iff.mpr hsorted) (by simpa using hdescent)
      by_cases hprefix : contiguousPrefix 0 indices ≠ ack.accepted
      · rw [if_neg hdescent, if_pos hprefix]
        refine iff_of_false (by simp) ?_
        rintro ⟨-, -, hlead, rfl⟩
        exact hprefix (hleading.mpr hlead)
      rw [if_neg hdescent, if_neg hprefix, Except.ok.injEq]
      constructor
      · rintro rfl
        exact ⟨hasDescent_iff.mp (Bool.eq_false_iff.mpr hdescent), hwithin,
          hleading.mp (not_not.mp hprefix), rfl⟩
      · exact fun h => h.2.2.2.symm
  | none =>
    dsimp only
    by_cases hlt : n < ack.accepted
    · rw [if_pos hlt]
      refine iff_of_false (by simp) ?_
      rintro ⟨-, hwithin, -, rfl⟩
      exact absurd (hwithin n (mem_range.mpr hlt)) (lt_irrefl n)
    · rw [if_neg hlt, Except.ok.injEq]
      constructor
      · rintro rfl
        refine ⟨pairwise_lt_range, fun i hi => ?_, ⟨prefix_rfl, by simp⟩, rfl⟩
        exact lt_of_lt_of_le (mem_range.mp hi) (not_lt.mp hlt)
      · exact fun h => h.2.2.2.symm

lemma checkFailed_iff {failedIndex : Option ℕ} : checkFailed n S failedIndex = .ok () ↔
    ∀ failed, failedIndex = some failed → failed < n ∧ ∀ i ∈ S, i < failed := by
  cases failedIndex with
  | none => simp [checkFailed]
  | some failed =>
    have hsome : (∀ f, some failed = some f → f < n ∧ ∀ i ∈ S, i < f) ↔
        failed < n ∧ ∀ i ∈ S, i < failed :=
      ⟨fun h => h _ rfl, fun h f hf => Option.some.inj hf ▸ h⟩
    rw [hsome, checkFailed]
    by_cases hout : n ≤ failed
    · rw [if_pos hout]
      exact iff_of_false (by simp) fun h => absurd h.1 (not_lt.mpr hout)
    by_cases hmem : failed ∈ S
    · rw [if_neg hout, if_pos hmem]
      exact iff_of_false (by simp) fun h => lt_irrefl _ (h.2 _ hmem)
    rw [if_neg hout, if_neg hmem]
    cases hafter : S.find? fun idx => failed < idx with
    | some after =>
      have hlater := find?_some hafter
      refine iff_of_false (by simp) fun h => ?_
      have := h.2 after (mem_of_find?_eq_some hafter)
      simp at hlater
      omega
    | none =>
      refine iff_of_true rfl ⟨not_le.mp hout, fun i hi => ?_⟩
      have hle : ¬ failed < i := by simpa using find?_eq_none.mp hafter i hi
      have hne : i ≠ failed := fun heq => hmem (heq ▸ hi)
      omega

lemma checkResults_iff {results : Option (List EventResult)} : checkResults S results = .ok () ↔
    ∀ l, results = some l → l.map (·.index) = S := by
  cases results with
  | none => simp [checkResults]
  | some l =>
    have hzip : ∀ {l : List EventResult} {S : List ℕ}, (¬ (l.length ≠ S.length ∨
        (l.zip S).any fun p => p.1.index ≠ p.2)) ↔ l.map (·.index) = S := by
      intro l
      induction l with
      | nil => intro S; cases S <;> simp
      | cons r l ih =>
        intro S
        cases S with
        | nil => simp
        | cons i S =>
          have := @ih S
          simp only [length_cons, zip_cons_cons, any_cons, map_cons,
            List.cons.injEq, Bool.or_eq_true, decide_eq_true_eq, ← this]
          by_cases hi : r.index = i
          · simp [hi]
          · simp [hi]
    have hsome : (∀ l', some l = some l' → l'.map (·.index) = S) ↔ l.map (·.index) = S :=
      ⟨fun h => h _ rfl, fun h l' hl => Option.some.inj hl ▸ h⟩
    rw [hsome, checkResults, ← hzip]
    split
    · rename_i h
      exact iff_of_false (by simp) (not_not_intro h)
    · rename_i h
      exact iff_of_true rfl h

lemma validate_iff : validate n ack = .ok S ↔ Confirms n ack S := by
  constructor
  · intro h
    obtain ⟨S', hset, h⟩ := bind_ok.mp h
    obtain ⟨_, hfailed, h⟩ := bind_ok.mp h
    obtain ⟨_, hresults, h⟩ := bind_ok.mp h
    obtain rfl := pure_ok.mp h
    obtain ⟨hsorted, hwithin, hleading, hnamed⟩ := acceptedSet_iff.mp hset
    exact ⟨hsorted, hwithin, hleading, hnamed, checkResults_iff.mp hresults,
      checkFailed_iff.mp hfailed⟩
  · intro h
    refine bind_ok.mpr ⟨S, acceptedSet_iff.mpr ⟨h.ascending, h.within, h.leading, h.named⟩, ?_⟩
    refine bind_ok.mpr ⟨(), checkFailed_iff.mpr h.failed, ?_⟩
    exact bind_ok.mpr ⟨(), checkResults_iff.mpr h.described, rfl⟩

/-! ### First attempts -/

/-- The rows of `q'` are rows of `q` that keep their first attempts, or newer ones. -/
structure Queue.Ages (q q' : Queue) : Prop where
  counter : q.nextSeq ≤ q'.nextSeq
  rows : ∀ r' ∈ q'.pending, q.nextSeq ≤ r'.seq ∨ ∃ r ∈ q.pending, r.seq = r'.seq ∧
    ∀ first, r.firstAttemptMs = some first → r'.firstAttemptMs = some first

variable {q q' : Queue} {s : Sys} {prepare : PendingRow → Option BatchItem}
  {costOf : PendingRow → ℕ} {nowMs : ℤ} {keys : List String} {batch : List PendingRow}
  {items : List BatchItem}

lemma Queue.Ages.of_subset (hseq : q'.nextSeq = q.nextSeq) (h : q'.pending ⊆ q.pending) :
    q.Ages q' :=
  ⟨hseq.ge, fun r' hr' => .inr ⟨r', h hr', rfl, fun _ hfirst => hfirst⟩⟩

lemma Queue.Ages.trans {q'' : Queue} (h : q.Ages q') (h' : q'.Ages q'') : q.Ages q'' where
  counter := h.counter.trans h'.counter
  rows := by
    intro r'' hr''
    rcases h'.rows r'' hr'' with hnew | ⟨r', hr', hseq', hfirst'⟩
    · exact .inl (h.counter.trans hnew)
    rcases h.rows r' hr' with hnew | ⟨r, hr, hseq, hfirst⟩
    · exact .inl (hseq' ▸ hnew)
    · exact .inr ⟨r, hr, hseq.trans hseq', fun first h => hfirst' first (hfirst first h)⟩

lemma Queue.Ages.update {p : PendingRow → Bool} {f : PendingRow → PendingRow}
    (hseq : ∀ r, (f r).seq = r.seq)
    (hfirst : ∀ r first, r.firstAttemptMs = some first → (f r).firstAttemptMs = some first) :
    q.Ages { q with pending := Table.update p f q.pending } where
  counter := le_rfl
  rows := by
    intro r' hr'
    obtain ⟨r, hr, rfl⟩ := mem_update.mp hr'
    refine .inr ⟨r, hr, ?_⟩
    split
    · exact ⟨(hseq r).symm, hfirst r⟩
    · exact ⟨rfl, fun _ h => h⟩

lemma confirm_ages (q : Queue) (keys : List (String × String)) (nowMs : ℤ) :
    q.Ages (confirm q keys nowMs) := by
  refine exec_invariant (I := q.Ages) (fun q' k h => h.trans ?_) (.of_subset rfl (List.Subset.refl _)) keys
  rw [confirmKey]
  split
  · exact .of_subset rfl (List.Subset.refl _)
  · exact .of_subset rfl delete_subset

lemma stampAttempt_ages (q : Queue) (keys : List String) (nowMs : ℤ) :
    q.Ages (stampAttempt q keys nowMs) := by
  unfold stampAttempt
  induction keys generalizing q with
  | nil => exact .of_subset rfl (List.Subset.refl _)
  | cons k keys ih =>
    have hone : q.Ages { q with pending := stampKey nowMs q.pending k } :=
      .update (fun _ => rfl) fun r first h => by simp [h]
    exact hone.trans (ih _)

lemma enqueue_ages {events : List ValidEvent} {rep : EnqueueReport}
    (h : enqueue q events nowMs = .ok (rep, q')) :
    q.Ages q' ∧ q.pending ⊆ q'.pending := by
  obtain ⟨tx, hloop, -, rfl⟩ := enqueue_ok h
  have hgrown : q.nextSeq ≤ tx.nextSeq ∧ (∀ r ∈ tx.pending, r ∈ q.pending ∨ q.nextSeq ≤ r.seq) ∧
      q.pending ⊆ tx.pending := by
    refine foldlM_invariant (I := fun tx : EnqueueTx => q.nextSeq ≤ tx.nextSeq ∧
      (∀ r ∈ tx.pending, r ∈ q.pending ∨ q.nextSeq ≤ r.seq) ∧ q.pending ⊆ tx.pending)
      (fun tx e tx' _ hinv hstep => ?_) ⟨le_rfl, fun r hr => .inl hr, List.Subset.refl _⟩ hloop
    obtain ⟨tx₁, tx₂, hbind, hnote, hins⟩ := enqueueOne_ok hstep
    obtain ⟨pinCount, rfl, -⟩ := bindSession_ok hbind
    obtain rfl := noteKey_ok hnote
    rcases insertEvent_ok hins with ⟨-, rfl⟩ | ⟨-, -, -, -, rfl⟩
    · exact hinv
    · obtain ⟨hcounter, hrows, hkept⟩ := hinv
      refine ⟨Nat.le_succ_of_le hcounter, fun r hr => ?_, fun r hr => mem_append_left _ (hkept hr)⟩
      rcases mem_append.mp hr with hr | hr
      · exact hrows r hr
      · rw [mem_singleton.mp hr]
        exact .inr hcounter
  refine ⟨⟨hgrown.1, fun r' hr' => ?_⟩, hgrown.2.2⟩
  rcases hgrown.2.1 r' hr' with hold | hnew
  · exact .inr ⟨r', hold, rfl, fun _ h => h⟩
  · exact .inl hnew

/-- The flush confirms `k`, the key of an event with its outcome: as a validated answer
says, or as a drop by local policy of a row that has no safe item. -/
def Entry.Confirms (prepare : PendingRow → Option BatchItem) (e : Entry) (k : String × String) :
    Prop :=
  match e.event with
  | .answered batch _ ack accepted keys _ => validate batch.length ack = .ok accepted ∧ k ∈ keys
  | .dropped keys =>
    k ∈ keys ∧ k.2 = "dropped_policy" ∧ ∃ row, prepare row = none ∧ row.ingestKey = k.1
  | _ => False

lemma step_queue {P : Queue → Prop} (a : Act) (hsame : P s.queue)
    (henqueue : ∀ events nowMs rep q', a = .enqueue events nowMs →
      enqueue s.queue events nowMs = .ok (rep, q') → P q')
    (hprune : ∀ maxBatches nowMs, a = .beginFlush maxBatches nowMs → s.phase = .idle →
      P (prune s.queue nowMs))
    (hconfirm : ∀ keys nowMs e, (s.step prepare costOf a).log = e :: s.log →
      (∀ k ∈ keys, e.Confirms prepare k) → P (confirm s.queue keys nowMs))
    (hstamp : ∀ keys nowMs, P (stampAttempt s.queue keys nowMs))
    (hfail : ∀ key label, P (recordFailure s.queue key label)) :
    P (s.step prepare costOf a).queue := by
  cases a with
  | enqueue events nowMs =>
    rw [Sys.step]
    split
    · exact henqueue _ _ _ _ rfl ‹_›
    · exact hsame
  | beginFlush maxBatches nowMs =>
    rw [Sys.step]
    split
    · exact hprune _ _ rfl ‹_›
    · exact hsame
  | select budgetSpent limit byteBudget nowMs =>
    simp only [Sys.step]
    repeat' split
    all_goals exact hsame
  | screen =>
    cases hphase : s.phase with
    | picked l now batch =>
      simp only [Sys.step, hphase] at hconfirm ⊢
      split
      · exact hsame
      · rename_i hkeys
        refine hconfirm _ _ _ (if_neg hkeys) fun k hk => ?_
        obtain ⟨row, -, hrow, rfl⟩ := mem_unsafeKeys.mp hk
        exact ⟨hk, rfl, row, hrow, rfl⟩
    | _ => simpa only [Sys.step, hphase] using hsame
  | stamp =>
    rw [Sys.step]
    split
    · exact hstamp _ _
    · exact hsame
  | arm sendNowMs remaining | post ttlElapsed leftElapsed | transportError elapsed =>
    rw [Sys.step]
    repeat' split
    all_goals exact hsame
  | deliver d nowMs =>
    simp only [Sys.step, onDelivery] at hconfirm ⊢
    split
    · split
      · exact hsame
      split
      · exact hsame
      split
      · exact hsame
      split
      · exact hsame
      · rename_i hanswer accepted hvalid
        simp_all only [if_false]
        exact hconfirm _ _ _ rfl fun k hk => ⟨hvalid, hk⟩
    · exact hsame
  | recordNext =>
    rw [Sys.step]
    split
    · exact hsame
    · exact hfail _ _
    · exact hsame
  | settle =>
    rw [Sys.step]
    split
    · dsimp only
      split
      · exact hfail _ _
      · exact hsame
    · exact hsame
  | crash => exact hsame

lemma step_ages (s : Sys) (a : Act) : s.queue.Ages (s.step prepare costOf a).queue :=
  step_queue a (.of_subset rfl (List.Subset.refl _)) (fun _ _ _ _ _ h => (enqueue_ages h).1)
    (fun _ _ _ _ => .of_subset rfl (List.Subset.refl _)) (fun _ _ _ _ _ => confirm_ages _ _ _)
    (stampAttempt_ages _) (fun _ _ => .update (fun _ => rfl) fun _ _ h => h)

lemma exec_firstAttempt (h : s.queue.Inv) (acts : List Act) {r r' : PendingRow} {first : ℤ}
    (hr : r ∈ s.queue.pending) (hfirst : r.firstAttemptMs = some first)
    (hr' : r' ∈ (exec (Sys.step prepare costOf) s acts).queue.pending) (hseq : r'.seq = r.seq) :
    r'.firstAttemptMs = some first := by
  have hages : s.queue.Ages (exec (Sys.step prepare costOf) s acts).queue :=
    exec_invariant (I := fun s' => s.queue.Ages s'.queue) (fun s' a h => h.trans (step_ages s' a))
      (.of_subset rfl (List.Subset.refl _)) acts
  rcases hages.rows r' hr' with hnew | ⟨r₀, hr₀, hseq₀, hkept⟩
  · have := h.rows.seqBound r hr
    omega
  · have hone : (s.queue.pending.map (·.seq)).Nodup :=
      (pairwise_map.mpr h.rows.seqSorted).imp ne_of_lt
    obtain rfl := inj_on_of_nodup_map hone hr₀ hr (hseq₀.trans hseq)
    exact hkept first hfirst

lemma foldl_recordFailure (keys : List String) (q : Queue) :
    keys.foldl (fun q key => recordFailure q key "inconsistent ack") q = { q with
        pending := Table.update (fun r => r.ingestKey ∈ keys)
          (fun r => { r with lastError := some "inconsistent ack" }) q.pending } := by
  have hlabel : String.ofList (("inconsistent ack".toList.filter (!isControl ·)).take 80) =
      "inconsistent ack" := by decide
  induction keys generalizing q with
  | nil =>
    rw [Table.update_eq_self fun r _ => by simp]
    rfl
  | cons key keys ih =>
    rw [foldl_cons, ih]
    simp only [recordFailure, hlabel, Table.update, map_map, Queue.mk.injEq, and_true]
    refine map_congr_left fun r _ => ?_
    by_cases hkey : r.ingestKey = key
    · simp [hkey]
    · simp [hkey]

lemma exec_recordNext {keys : List String} {label : String} (k : ℕ)
    (hs : s.phase = .failing keys label) :
    (exec (Sys.step prepare costOf) s (List.replicate k .recordNext)).queue =
      (keys.take k).foldl (fun q key => recordFailure q key label) s.queue := by
  have hidle : ∀ (k : ℕ) (s : Sys), s.phase = .idle →
      exec (Sys.step prepare costOf) s (List.replicate k .recordNext) = s := by
    intro k
    induction k with
    | zero => exact fun _ _ => rfl
    | succ k ih =>
      intro s hs
      have hstep : s.step prepare costOf .recordNext = s := by simp only [Sys.step, hs]
      rw [replicate_succ, exec_cons, hstep, ih s hs]
  induction k generalizing s keys with
  | zero => rfl
  | succ k ih =>
    rw [replicate_succ, exec_cons]
    cases keys with
    | nil =>
      simp only [Sys.step, hs]
      rw [hidle k _ rfl]
      rfl
    | cons key keys =>
      simp only [Sys.step, hs]
      rw [ih rfl]
      rfl

/-! ### What is sent -/

structure Timed where
  sys : Sys
  armedMs : ℤ

def Timed.step (prepare : PendingRow → Option BatchItem) (costOf : PendingRow → ℕ)
    (t : Timed) (a : Act) : Timed where
  sys := t.sys.step prepare costOf a
  armedMs :=
    match a with
    | .arm sendNowMs _ =>
      match t.sys.phase with
      | .stamped .. => sendNowMs
      | _ => t.armedMs
    | _ => t.armedMs

def Timed.init : Timed := ⟨Sys.init, 0⟩

def Started (pending batch : List PendingRow) (P : PendingRow → ℤ → Prop) : Prop :=
  ∀ row ∈ batch, ∃ r ∈ pending, r.ingestKey = row.ingestKey ∧
    ∃ first, r.firstAttemptMs = some first ∧ P row first

lemma Started.mono {pending pending' : List PendingRow} {P P' : PendingRow → ℤ → Prop}
    (h : Started pending batch P) (hsub : pending ⊆ pending')
    (hP : ∀ row ∈ batch, ∀ first, P row first → P' row first) : Started pending' batch P' := by
  intro row hrow
  obtain ⟨r, hr, hkey, first, hfirst, hrest⟩ := h row hrow
  exact ⟨r, hsub hr, hkey, first, hfirst, hP row hrow first hrest⟩

/-- The batch on its way: its rows as they were selected, then stamped, then with
the time that a send may still take. -/
def Fresh (pending : List PendingRow) (armedMs : ℤ) : Phase → Prop
  | .picked _ _ batch => batch ⊆ pending
  | .screened _ _ batch _ => batch ⊆ pending
  | .stamped _ now batch _ =>
    Started pending batch fun row first => first = row.firstAttemptMs.getD now
  | .sending _ batch _ clock =>
    Started pending batch fun _ first => clock.ttlLeft ≤ ttlRemaining first armedMs
  | .inFlight _ batch _ clock =>
    Started pending batch fun _ first => clock.ttlLeft ≤ ttlRemaining first armedMs
  | _ => True

lemma Fresh.mono {pending pending' : List PendingRow} {armedMs : ℤ} {phase : Phase}
    (h : Fresh pending armedMs phase) (hsub : pending ⊆ pending') : Fresh pending' armedMs phase := by
  cases phase with
  | picked l now batch | screened l now batch items => exact List.Subset.trans h hsub
  | stamped l now batch items | sending l batch items clock | inFlight l batch items clock =>
    exact Started.mono h hsub fun _ _ _ hP => hP
  | _ => trivial

lemma selectBatch_subset (q : Queue) (limit byteBudget : ℕ) (nowMs : ℤ)
    (deferred : List (String × String)) (costOf : PendingRow → ℕ) :
    (selectBatch q limit byteBudget nowMs deferred costOf).items ⊆ q.pending := by
  have hrow : ∀ (sc : Scan) (item : PendingRow),
      (scanRow byteBudget nowMs deferred costOf sc item).batch.items ⊆ item :: sc.batch.items := by
    intro sc item
    rw [scanRow]
    dsimp only
    split
    · exact subset_cons_self _ _
    split
    · exact subset_cons_self _ _
    split
    · exact subset_cons_self _ _
    split
    · exact subset_cons_self _ _
    · exact append_subset.mpr ⟨subset_cons_self _ _, by simp⟩
  have hrows : ∀ (n : ℕ) (rest : List PendingRow) (sc : Scan), sc.batch.items ⊆ q.pending →
      rest ⊆ q.pending →
      (scanRows n byteBudget nowMs deferred costOf sc rest).batch.items ⊆ q.pending := by
    intro n rest
    induction rest with
    | nil => exact fun _ h _ => h
    | cons item rest ih =>
      intro sc hsc hrest
      obtain ⟨hitem, hrest⟩ := cons_subset.mp hrest
      rw [scanRows]
      split
      · exact hsc
      · exact ih _ (List.Subset.trans (hrow sc item) (cons_subset.mpr ⟨hitem, hsc⟩)) hrest
  exact hrows _ q.pending _ (nil_subset _) (List.Subset.refl _)

lemma mem_stampAttempt {keys : List String} {row : PendingRow} {first : ℤ}
    (hrow : row ∈ q.pending) (h : row.ingestKey ∈ keys ∧ first = row.firstAttemptMs.getD nowMs ∨
      row.firstAttemptMs = some first) :
    ∃ r ∈ (stampAttempt q keys nowMs).pending, r.ingestKey = row.ingestKey ∧
      r.firstAttemptMs = some first := by
  unfold stampAttempt
  induction keys generalizing q row with
  | nil =>
    rcases h with ⟨h, -⟩ | h
    · cases h
    · exact ⟨row, hrow, rfl, h⟩
  | cons k keys ih =>
    by_cases hk : row.ingestKey = k
    · have hmem := mem_update_of_match (f := fun r : PendingRow => { r with
        firstAttemptMs := some (r.firstAttemptMs.getD nowMs)
        attempts := r.attempts + 1 }) (p := fun r => r.ingestKey = k) hrow (by simpa using hk)
      have hstamped : row.firstAttemptMs.getD nowMs = first := by
        rcases h with ⟨-, rfl⟩ | h
        · rfl
        · rw [h, Option.getD_some]
      exact @ih { q with pending := stampKey nowMs q.pending k } { row with
        firstAttemptMs := some (row.firstAttemptMs.getD nowMs)
        attempts := row.attempts + 1 } hmem (.inr (congrArg some hstamped))
    · have hmem : row ∈ stampKey nowMs q.pending k := mem_update_of_not hrow (by simpa using hk)
      refine @ih { q with pending := stampKey nowMs q.pending k } _ hmem (h.imp_left fun h => ?_)
      exact ⟨(mem_cons.mp h.1).resolve_left hk, h.2⟩

lemma batchTtl_le {now sendNowMs : ℤ} {row : PendingRow} (h : row ∈ batch) :
    batchTtl batch now sendNowMs ≤ ttlRemaining (row.firstAttemptMs.getD now) sendNowMs := by
  rw [batchTtl]
  cases hmin : (batch.map fun item =>
      ttlRemaining (item.firstAttemptMs.getD now) sendNowMs).min? with
  | none => exact Nat.zero_le _
  | some least => exact (min?_eq_some_iff.mp hmin).2 _ (mem_map_of_mem h)

structure Timed.Inv (prepare : PendingRow → Option BatchItem) (t : Timed) : Prop where
  sys : t.sys.Inv prepare
  fresh : Fresh t.sys.queue.pending t.armedMs t.sys.phase

lemma step_timedInv {t : Timed} (h : t.Inv prepare) (a : Act) :
    (t.step prepare costOf a).Inv prepare := by
  refine ⟨step_sysInv h.sys a, ?_⟩
  have hfresh := h.fresh
  cases a with
  | enqueue events nowMs =>
    simp only [Timed.step, Sys.step]
    split
    · exact hfresh.mono (enqueue_ages ‹_›).2
    · exact hfresh
  | crash => trivial
  | beginFlush maxBatches nowMs =>
    simp only [Timed.step, Sys.step]
    split
    · trivial
    · exact hfresh
  | select budgetSpent limit byteBudget nowMs =>
    simp only [Timed.step, Sys.step]
    split
    · split
      · trivial
      split
      · trivial
      · exact selectBatch_subset _ _ _ _ _ _
    · exact hfresh
  | screen =>
    simp only [Timed.step, Sys.step]
    split
    · rename_i l now batch hphase
      rw [hphase] at hfresh
      by_cases hitems : batch.filterMap prepare = []
      · rw [if_pos hitems]
        trivial
      rw [if_neg hitems]
      intro row hrow
      obtain ⟨hrow, hkeep⟩ := mem_filter.mp hrow
      split
      · exact hfresh hrow
      · refine (mem_confirm_pending h.sys.queue _ now).mpr ⟨hfresh hrow, fun k hk heq => ?_⟩
        rw [Bool.not_eq_true', any_eq_false] at hkeep
        exact hkeep k hk (by simpa using heq.symm)
    · exact hfresh
  | stamp =>
    simp only [Timed.step, Sys.step]
    split
    · rename_i l now batch items hphase
      rw [hphase] at hfresh
      intro row hrow
      obtain ⟨r, hr, hkey, hfirst⟩ :=
        mem_stampAttempt (hfresh hrow) (.inl ⟨mem_map_of_mem hrow, rfl⟩)
      exact ⟨r, hr, hkey, _, hfirst, rfl⟩
    · exact hfresh
  | arm sendNowMs remaining =>
    cases hphase : t.sys.phase with
    | stamped l now batch items =>
      rw [hphase] at hfresh
      simp only [Timed.step, Sys.step, hphase]
      cases remaining with
      | none => trivial
      | some left =>
        refine Started.mono hfresh (List.Subset.refl _) fun row hrow first hfirst => ?_
        rw [hfirst]
        exact batchTtl_le hrow
    | _ =>
      rw [hphase] at hfresh
      simpa only [Timed.step, Sys.step, hphase] using hfresh
  | post ttlElapsed leftElapsed | transportError elapsed =>
    simp only [Timed.step, Sys.step]
    split
    · rename_i l batch items clock hphase
      rw [hphase] at hfresh
      split
      · trivial
      · exact hfresh
    · exact hfresh
  | deliver d nowMs =>
    simp only [Timed.step, Sys.step]
    split
    · rw [onDelivery]
      split
      · trivial
      split
      · trivial
      split
      · trivial
      split <;> trivial
    · exact hfresh
  | recordNext =>
    simp only [Timed.step, Sys.step]
    split
    · trivial
    · trivial
    · exact hfresh
  | settle =>
    simp only [Timed.step, Sys.step]
    split
    · rename_i l failedKey stop hphase
      cases stop <;> trivial
    · exact hfresh

lemma step_transmitted {a : Act} {e : Entry}
    (h : (s.step prepare costOf a).log = e :: s.log) (he : e.event = .transmitted batch items) :
    ∃ elapsed left l clock, a = .post elapsed left ∧ s.phase = .sending l batch items clock ∧
      elapsed < clock.ttlLeft := by
  have hsame : s.log ≠ e :: s.log := (cons_ne_self _ _).symm
  cases a with
  | enqueue events nowMs | beginFlush maxBatches nowMs | stamp | recordNext | settle =>
    rw [Sys.step] at h
    split at h
    all_goals exact absurd h hsame
  | select budgetSpent limit byteBudget nowMs =>
    simp only [Sys.step] at h
    split at h
    · split at h
      · exact absurd h hsame
      split at h
      · exact absurd h hsame
      · rw [← (List.cons.inj h).1] at he
        cases he
    · exact absurd h hsame
  | screen =>
    simp only [Sys.step] at h
    split at h
    · dsimp only at h
      split at h
      · exact absurd h hsame
      · rw [← (List.cons.inj h).1] at he
        cases he
    · exact absurd h hsame
  | arm sendNowMs remaining | transportError elapsed =>
    rw [Sys.step] at h
    split at h
    · split at h
      all_goals exact absurd h hsame
    · exact absurd h hsame
  | post elapsed left =>
    rw [Sys.step] at h
    split at h
    · rename_i l batch' items' clock hphase
      split at h
      · exact absurd h hsame
      · rename_i hspent
        rw [not_or, not_le] at hspent
        rw [← (List.cons.inj h).1] at he
        cases he
        exact ⟨elapsed, left, l, clock, rfl, hphase, hspent.1⟩
    · exact absurd h hsame
  | deliver d nowMs =>
    rw [Sys.step] at h
    split at h
    · rw [onDelivery] at h
      split at h
      · exact absurd h hsame
      split at h
      · exact absurd h hsame
      split at h
      · exact absurd h hsame
      split at h
      · exact absurd h hsame
      · rw [← (List.cons.inj h).1] at he
        cases he
    · exact absurd h hsame
  | crash => exact absurd h hsame

lemma age_lt {first nowMs : ℤ} {elapsed : ℕ} (h : elapsed < ttlRemaining first nowMs) :
    (nowMs - first) * 1000000 + elapsed < retryWindowMs * 1000000 := by
  simp only [ttlRemaining, millis, saturatingSub, retryWindowMs] at *
  omega

/-- Acknowledgements are accepted as `Confirms` says; a refused one leaves every
row as it is but for the failure it is labelled with; and over every run a first
attempt stays, and what is sent is younger than the retry window. -/
theorem relay_acknowledgements (prepare : PendingRow → Option BatchItem)
    (costOf : PendingRow → ℕ) (acts : List Act) :
    let t := exec (Timed.step prepare costOf) Timed.init acts
    (∀ n ack S, validate n ack = .ok S ↔ Confirms n ack S) ∧
    (∀ l batch items clock d nowMs ack, t.sys.phase = .inFlight l batch items clock →
      d.ack = some ack → (∀ S, ¬ Confirms batch.length ack S) → d.bodyOverLimit = false →
      d.status = 200 ∨ d.status = 429 → ∀ k,
        (exec (Sys.step prepare costOf) (t.sys.step prepare costOf (.deliver d nowMs))
          (List.replicate k .recordNext)).queue = { t.sys.queue with
            pending := Table.update (fun r => r.ingestKey ∈ (batch.map (·.ingestKey)).take k)
              (fun r => { r with lastError := some "inconsistent ack" }) t.sys.queue.pending }) ∧
    (∀ later r r' first, r ∈ t.sys.queue.pending → r.firstAttemptMs = some first →
      r' ∈ (exec (Timed.step prepare costOf) t later).sys.queue.pending → r'.seq = r.seq →
      r'.firstAttemptMs = some first) ∧
    ∀ a e batch items, (t.step prepare costOf a).sys.log = e :: t.sys.log →
      e.event = .transmitted batch items →
      ∃ elapsed left, a = .post elapsed left ∧
        Started t.sys.queue.pending batch fun _ first =>
          (t.armedMs - first) * 1000000 + elapsed < retryWindowMs * 1000000 := by
  have hsys : ∀ (acts : List Act) (t : Timed), (exec (Timed.step prepare costOf) t acts).sys =
      exec (Sys.step prepare costOf) t.sys acts := by
    intro acts
    induction acts with
    | nil => exact fun _ => rfl
    | cons a acts ih => exact fun t => ih (t.step prepare costOf a)
  have hinit : Timed.init.Inv prepare := ⟨init_sysInv, trivial⟩
  have hinv : (exec (Timed.step prepare costOf) Timed.init acts).Inv prepare :=
    exec_invariant (I := Timed.Inv prepare) (fun _ a h => step_timedInv h a) hinit acts
  intro t
  refine ⟨fun n ack S => validate_iff, ?_, ?_, ?_⟩
  · intro l batch items clock d nowMs ack hphase hack hrefused hsize hstatus k
    have hdeliver : t.sys.step prepare costOf (.deliver d nowMs) =
        { t.sys with phase := failAll batch "inconsistent ack" } := by
      have hok : ¬ (d.status ≠ 200 ∧ d.status ≠ 429) := by omega
      simp only [Sys.step, hphase, onDelivery, if_neg hok, hsize, hack]
      cases hval : validate batch.length ack with
      | error err => rfl
      | ok S => exact absurd (validate_iff.mp hval) (hrefused S)
    rw [hdeliver, exec_recordNext k rfl, foldl_recordFailure]
  · intro later r r' first hr hfirst hr' hseq
    rw [hsys] at hr'
    exact exec_firstAttempt hinv.sys.queue later hr hfirst hr' hseq
  · intro a e batch items hlog he
    obtain ⟨elapsed, left, l, clock, rfl, hphase, hlt⟩ := step_transmitted hlog he
    have hfresh := hinv.fresh
    rw [hphase] at hfresh
    exact ⟨elapsed, left, rfl, Started.mono hfresh (List.Subset.refl _)
      fun row _ first hfirst => age_lt (lt_of_lt_of_le hlt hfirst)⟩

theorem refused_ack_labels_rows :
    let s := exec (Sys.step (fun r => some ⟨"u", r.bodyJson⟩) fun r => r.bodyBytes) Sys.init
      [ .enqueue [plainEvent "a" "a1"] 0, .beginFlush 4 0,
        .select false maxBatchItems maxBatchBytes 0, .screen, .stamp,
        .arm 0 (some (millis 1000)), .post 0 0 ]
    let outside : BatchAck := ⟨1, none, some 5, none⟩
    let S := List.range outside.accepted
    (S.Pairwise (· < ·) ∧ (∀ i ∈ S, i < 1) ∧ 5 ∉ S ∧ ∀ i ∈ S, i < 5) ∧
    validate 1 outside = .error (.failedOutside 5 1) ∧
    (exec (Sys.step (fun r => some ⟨"u", r.bodyJson⟩) fun r => r.bodyBytes) s
      [.deliver ⟨200, false, some outside⟩ 0, .recordNext]).queue.pending ≠ s.queue.pending := by
  decide

end Relay
