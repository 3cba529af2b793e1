/-
The ingest keys of the database.

A project claims a key once: `(project_id, key)` is the primary key.  What an
operation does to the table is said here once, for the deliveries, completions,
merges and session moves.

* `claimIngestKey_pk`, `mergeIngestKeys_pk`, `moveIngestKeys_pk` — the primary
  key holds after each of them.
-/
import AiMemory.Store.MergeTables

open Table Runs List

namespace Store

/-- Primary key of `ingest_keys`. -/
def IngestKeyRow.pk (k : IngestKeyRow) : ProjectId × String := (k.projectId, k.key)

lemma IngestKeyRow.pk_eq_iff {k k' : IngestKeyRow} :
    k.pk = k'.pk ↔ k.projectId = k'.projectId ∧ k.key = k'.key := by
  rw [pk, pk, Prod.mk.injEq]

/-! ### Deliveries -/

def NewObservation.row (obs : NewObservation) (id : ObservationId) (now : ℤ) : ObservationRow where
  id := id
  sessionId := obs.sessionId
  workspaceId := obs.workspaceId
  projectId := obs.projectId
  kind := obs.kind
  «extension» := if obs.sourceEvent.isSome then obs.extension else none
  sourceEvent := if obs.extension.isSome then obs.sourceEvent else none
  title := obs.title
  body := obs.body
  importance := max 1 (min obs.importance 10)
  createdAt := obs.occurredAt.getD now
  filePath := obs.filePath

def claimedKey (f : NewObservation → Option String → String) (obs : NewObservation)
    (agent : Option String) (key : String) (now : ℤ) : IngestKeyRow where
  projectId := obs.projectId
  key := key
  seenAt := now
  completedAt := none
  sessionId := if recoveryIngestKey key then some obs.sessionId else none
  agentKind := if recoveryIngestKey key then agent else none
  observationKind := if recoveryIngestKey key then some obs.kind else none
  eventIdentity := recoveryIdentity f obs agent key
  recoveryRetained := recoveryIngestKey key

variable {f : NewObservation → Option String → String} {s s' : Store} {obs : NewObservation}
  {agent : Option String} {key : String} {id : ObservationId} {now : ℤ} {out : IngestOutcome}

lemma insertObservation_of_fresh (hpaired : s.paired obs.workspaceId obs.projectId)
    (hsession : (s.findSession obs.sessionId).isSome) (hfresh : ∀ o ∈ s.observations, o.id ≠ id) :
    s.insertObservation obs id now = .ok { s with
      observations := s.observations ++ [obs.row id now] } := by
  have hunused : (s.observations.any fun o => o.id = id) = false := by
    rw [any_eq_false]
    exact fun o ho => by simpa using hfresh o ho
  rw [insertObservation, hpaired, hunused, ← Option.not_isSome, hsession]
  rfl

lemma insertObservation_row (h : s.insertObservation obs id now = .ok s') :
    s' = { s with observations := s.observations ++ [obs.row id now] } ∧
      ∀ o ∈ s.observations, o.id ≠ id := by
  unfold insertObservation at h
  split at h
  · cases h
  · split at h
    · cases h
    · rename_i hkeys
      cases h
      rw [Bool.or_eq_true, not_or, Bool.not_eq_true, any_eq_false] at hkeys
      exact ⟨rfl, fun o ho => by simpa using hkeys.1 o ho⟩

def IngestKeyRow.answer (k : IngestKeyRow) : IngestOutcome :=
  if k.completedAt.isSome then .alreadyComplete else .resumePending

lemma claimIngestKey_spec (h : claimIngestKey f s obs agent key id now = .ok (out, s')) :
    (∃ old ∈ (s.sweepIngestKeys now).ingestKeys, old.projectId = obs.projectId ∧ old.key = key ∧
        (recoveryIngestKey key →
          sameEvent old obs agent (recoveryIdentity f obs agent key)) ∧
        out = old.answer ∧ s' = s.sweepIngestKeys now) ∨
      ((∀ k ∈ (s.sweepIngestKeys now).ingestKeys, ¬ (k.projectId = obs.projectId ∧ k.key = key)) ∧
        (∀ o ∈ s.observations, o.id ≠ id) ∧ out = .inserted id ∧
        s' = { s.sweepIngestKeys now with
          ingestKeys := (s.sweepIngestKeys now).ingestKeys ++ [claimedKey f obs agent key now]
          observations := s.observations ++ [obs.row id now] }) := by
  simp only [claimIngestKey] at h
  split at h
  · rename_i old hold
    have hmatch := find?_some hold
    rw [Bool.and_eq_true, decide_eq_true_eq, decide_eq_true_eq] at hmatch
    split at h
    · cases h
    · rename_i hsame
      refine .inl ⟨old, mem_of_find?_eq_some hold, hmatch.1, hmatch.2, fun hrec => ?_, ?_⟩
      · rw [hrec, Bool.true_and, Bool.not_eq_true', Bool.not_eq_false] at hsame
        exact hsame
      · unfold IngestKeyRow.answer
        split at h
        · rename_i hdone
          cases h
          rw [if_pos hdone]
          exact ⟨rfl, rfl⟩
        · rename_i hdone
          cases h
          rw [if_neg hdone]
          exact ⟨rfl, rfl⟩
  · rename_i hnone
    obtain ⟨s₁, hinsert, hret⟩ := bind_ok.mp h
    cases hret
    obtain ⟨rfl, hfresh⟩ := insertObservation_row hinsert
    refine .inr ⟨fun k hk hboth => ?_, hfresh, rfl, rfl⟩
    exact find?_eq_none.mp hnone k hk (by simp [hboth.1, hboth.2])

lemma claimIngestKey_pk (hkeys : KeyUnique IngestKeyRow.pk s.ingestKeys)
    (h : claimIngestKey f s obs agent key id now = .ok (out, s')) :
    KeyUnique IngestKeyRow.pk s'.ingestKeys := by
  have hswept : KeyUnique IngestKeyRow.pk (s.sweepIngestKeys now).ingestKeys := hkeys.delete
  rcases claimIngestKey_spec h with ⟨old, -, -, -, -, -, rfl⟩ | ⟨hfree, -, -, rfl⟩
  · exact hswept
  · refine keyUnique_append_singleton.mpr ⟨hswept, fun k hk hpk => ?_⟩
    exact hfree k hk (IngestKeyRow.pk_eq_iff.mp hpk)

lemma ingestEvent_pk {session : NewSession} {key : Option String}
    (hkeys : KeyUnique IngestKeyRow.pk s.ingestKeys)
    (h : ingestEvent f s session obs key id now = .ok (out, s')) :
    KeyUnique IngestKeyRow.pk s'.ingestKeys := by
  unfold ingestEvent at h
  split at h
  · exact claimIngestKey_pk hkeys h
  · obtain ⟨s₁, hinsert, hret⟩ := bind_ok.mp h
    cases hret
    rw [(insertObservation_row hinsert).1]
    exact hkeys

lemma admitHookSessionEvent_pk {v : String → Bool} {session : NewSession} {filter : OwnerFilter}
    {key movedFrom : Option String} {adm : Admission}
    (hkeys : KeyUnique IngestKeyRow.pk s.ingestKeys)
    (h : admitHookSessionEvent v f s session obs filter key movedFrom id now = .ok (adm, s')) :
    KeyUnique IngestKeyRow.pk s'.ingestKeys := by
  obtain ⟨-, ⟨r, -, hadmit⟩ | ⟨-, ⟨-, rfl⟩ | ⟨-, -, ingest, -, hingest⟩⟩⟩ := admitHookSessionEvent_ok h
  · obtain ⟨-, -, ⟨-, rfl⟩ | ⟨-, ingest, s₁, -, hingest, rfl | ⟨-, hrebind⟩⟩⟩ := admitToSession_ok hadmit
    · exact hkeys
    · exact ingestEvent_pk hkeys hingest
    · have hingested := ingestEvent_pk hkeys hingest
      rw [rebind_ok hrebind]
      exact hingested
  · exact hkeys
  · exact ingestEvent_pk (s := { s with sessions := s.sessions ++ [session.row now] }) hkeys hingest

end Store

namespace Database

open Store Projects

variable {keys : List IngestKeyRow} {source target : ProjectId}

lemma carriedKeys_pk (hkeys : KeyUnique IngestKeyRow.pk keys) :
    KeyUnique IngestKeyRow.pk
      ((keys.filter fun k => k.projectId = source).map (carriedKey target)) := by
  refine hkeys.map_filter fun a b ha hb hpk => ?_
  rw [decide_eq_true_eq] at ha hb
  -- rows of one project differ in the key
  exact IngestKeyRow.pk_eq_iff.mpr ⟨ha.trans hb.symm, (IngestKeyRow.pk_eq_iff.mp hpk).2⟩

lemma coalesceKey_pk (t k : IngestKeyRow) : (coalesceKey t k).pk = t.pk := rfl

lemma foldl_upsertKey (new keys : List IngestKeyRow) :
    new.foldl upsertKey keys = new.foldl (Table.upsert IngestKeyRow.pk coalesceKey) keys := rfl

/-- The keys after a merge: those of other projects; those of the target the
source had none of; those of the source, carried over; and those of both,
coalesced. -/
theorem mem_mergeIngestKeys (hkeys : KeyUnique IngestKeyRow.pk keys) (hne : source ≠ target)
    {k' : IngestKeyRow} : k' ∈ mergeIngestKeys keys source target ↔
      (k' ∈ keys ∧ k'.projectId ≠ source ∧
        (k'.projectId = target → ∀ k ∈ keys, k.projectId = source → k.key ≠ k'.key)) ∨
      (∃ k ∈ keys, k.projectId = source ∧ k' = carriedKey target k ∧
        ∀ t ∈ keys, t.projectId = target → t.key ≠ k.key) ∨
      ∃ t ∈ keys, t.projectId = target ∧ ∃ k ∈ keys, k.projectId = source ∧ k.key = t.key ∧
        k' = coalesceKey t k := by
  rw [mergeIngestKeys, mem_delete, foldl_upsertKey,
    mem_foldl_upsert coalesceKey_pk (carriedKeys_pk hkeys), decide_eq_false_iff_not]
  have hmoved : ∀ n : IngestKeyRow,
      n ∈ (keys.filter fun k => k.projectId = source).map (carriedKey target) ↔
        ∃ k ∈ keys, k.projectId = source ∧ n = carriedKey target k := by
    intro n
    rw [mem_map]
    constructor
    · rintro ⟨k, hk, rfl⟩
      rw [mem_filter, decide_eq_true_eq] at hk
      exact ⟨k, hk.1, hk.2, rfl⟩
    · rintro ⟨k, hk, hsource, rfl⟩
      exact ⟨k, mem_filter.mpr ⟨hk, decide_eq_true hsource⟩, rfl⟩
  constructor
  · rintro ⟨⟨hk', hnone⟩ | ⟨hn, hfree⟩ | ⟨t, ht, n, hn, hpk, rfl⟩, hnotsource⟩
    · refine .inl ⟨hk', hnotsource, fun htarget k hk hsource hkey => ?_⟩
      exact hnone _ ((hmoved _).mpr ⟨k, hk, hsource, rfl⟩)
        (IngestKeyRow.pk_eq_iff.mpr ⟨htarget, hkey.symm⟩)
    · obtain ⟨k, hk, hsource, rfl⟩ := (hmoved _).mp hn
      refine .inr (.inl ⟨k, hk, hsource, rfl, fun t ht htarget hkey => ?_⟩)
      exact hfree t ht (IngestKeyRow.pk_eq_iff.mpr ⟨htarget, hkey⟩)
    · obtain ⟨k, hk, hsource, rfl⟩ := (hmoved _).mp hn
      obtain ⟨htarget, hkey⟩ := IngestKeyRow.pk_eq_iff.mp hpk
      exact .inr (.inr ⟨t, ht, htarget, k, hk, hsource, hkey.symm, rfl⟩)
  · rintro (⟨hk', hnotsource, hnone⟩ | ⟨k, hk, hsource, rfl, hfree⟩ |
      ⟨t, ht, htarget, k, hk, hsource, hkey, rfl⟩)
    · refine ⟨.inl ⟨hk', fun n hn hpk => ?_⟩, hnotsource⟩
      obtain ⟨k, hk, hsource, rfl⟩ := (hmoved _).mp hn
      obtain ⟨htarget, hkey⟩ := IngestKeyRow.pk_eq_iff.mp hpk
      exact hnone htarget k hk hsource hkey.symm
    · refine ⟨.inr (.inl ⟨(hmoved _).mpr ⟨k, hk, hsource, rfl⟩, fun t ht hpk => ?_⟩), hne.symm⟩
      obtain ⟨htarget, hkey⟩ := IngestKeyRow.pk_eq_iff.mp hpk
      exact hfree t ht htarget hkey
    · refine ⟨.inr (.inr ⟨t, ht, carriedKey target k, (hmoved _).mpr ⟨k, hk, hsource, rfl⟩,
        IngestKeyRow.pk_eq_iff.mpr ⟨htarget, hkey.symm⟩, rfl⟩), ?_⟩
      rw [show (coalesceKey t k).projectId = t.projectId from rfl, htarget]
      exact hne.symm

lemma mergeIngestKeys_pk (hkeys : KeyUnique IngestKeyRow.pk keys) :
    KeyUnique IngestKeyRow.pk (mergeIngestKeys keys source target) := by
  rw [mergeIngestKeys, foldl_upsertKey]
  exact (hkeys.foldl_upsert coalesceKey_pk _).delete

variable {sid : SessionId} {proj : ProjectId}

lemma keyUnique_replace {before after : List IngestKeyRow} {k k' : IngestKeyRow}
    (h : KeyUnique IngestKeyRow.pk (before ++ k :: after))
    (hfree : ∀ x ∈ before ++ after, x.pk ≠ k'.pk) :
    KeyUnique IngestKeyRow.pk (before ++ k' :: after) := by
  have hperm : ∀ x : IngestKeyRow, KeyUnique IngestKeyRow.pk (before ++ x :: after) ↔
      KeyUnique IngestKeyRow.pk (x :: (before ++ after)) := fun x =>
    (perm_middle.map IngestKeyRow.pk).nodup_iff
  rw [hperm, KeyUnique, map_cons, nodup_cons] at h ⊢
  refine ⟨fun hmem => ?_, h.2⟩
  obtain ⟨x, hx, hpk⟩ := mem_map.mp hmem
  exact hfree x hx hpk

lemma rekey_pk {done rest : List IngestKeyRow} (h : KeyUnique IngestKeyRow.pk (done ++ rest)) :
    KeyUnique IngestKeyRow.pk (rekey sid proj done rest) := by
  induction rest generalizing done with
  | nil =>
    rw [append_nil] at h
    exact h
  | cons k rest ih =>
    unfold rekey
    split
    · rename_i hmoves
      refine ih ?_
      rw [append_assoc, singleton_append]
      refine keyUnique_replace h fun x hx hpk => ?_
      rw [Bool.and_eq_true, Bool.not_eq_true', any_eq_false] at hmoves
      obtain ⟨hproj, hkey⟩ := IngestKeyRow.pk_eq_iff.mp hpk
      exact hmoves.2 x hx (by simpa using ⟨hproj, hkey⟩)
    · refine ih ?_
      rw [append_assoc, singleton_append]
      exact h

lemma moveIngestKeys_pk (hkeys : KeyUnique IngestKeyRow.pk keys) :
    KeyUnique IngestKeyRow.pk (moveIngestKeys keys sid proj) := by
  have hstart : KeyUnique IngestKeyRow.pk ([] ++ keys) := hkeys
  exact (rekey_pk hstart).delete

def strays (sid : SessionId) (proj : ProjectId) (k : IngestKeyRow) : Bool :=
  k.sessionId = some sid && k.projectId ≠ proj

lemma rekey_rows (done rest : List IngestKeyRow) :
    (∀ k' ∈ rekey sid proj done rest, k' ∈ done ∨ k' ∈ rest ∨
      ∃ k ∈ rest, strays sid proj k = true ∧ k' = { k with projectId := proj } ∧
        ∀ t ∈ done ++ rest, t.projectId = proj → t.key ≠ k.key) ∧
    (∀ k ∈ done, k ∈ rekey sid proj done rest) ∧
    (∀ k ∈ rest, strays sid proj k = false → k ∈ rekey sid proj done rest) ∧
    ∀ k ∈ rest, strays sid proj k = true →
      ∃ k' ∈ rekey sid proj done rest, k'.projectId = proj ∧ k'.key = k.key := by
  induction rest generalizing done with
  | nil =>
    refine ⟨fun k' hk' => .inl hk', fun k hk => hk, ?_, ?_⟩
    all_goals exact fun k hk => absurd hk not_mem_nil
  | cons k rest ih =>
    unfold rekey
    split
    · rename_i hmoves
      rw [Bool.and_eq_true, Bool.not_eq_true', any_eq_false] at hmoves
      obtain ⟨hstray, hfree⟩ := hmoves
      have hnone : ∀ t ∈ done ++ rest, t.projectId = proj → t.key ≠ k.key :=
        fun t ht htarget hkey => hfree t ht (by simp [htarget, hkey])
      have haway : k.projectId ≠ proj := by
        rw [Bool.and_eq_true, decide_eq_true_eq, decide_eq_true_eq] at hstray
        exact hstray.2
      obtain ⟨hrows, hkept, hstay, hheld⟩ := ih (done ++ [{ k with projectId := proj }])
      refine ⟨fun k' hk' => ?_, fun m hm => hkept m (mem_append_left _ hm), fun m hm hm' => ?_,
        fun m hm hm' => ?_⟩
      · rcases hrows k' hk' with hdone | hrest | ⟨m, hm, hm', rfl, hno⟩
        · rcases mem_append.mp hdone with hdone | hmoved
          · exact .inl hdone
          · refine .inr (.inr ⟨k, mem_cons_self, hstray, mem_singleton.mp hmoved, ?_⟩)
            intro t ht htarget
            rcases mem_append.mp ht with ht | ht
            · exact hnone t (mem_append_left _ ht) htarget
            · rcases mem_cons.mp ht with rfl | ht
              · exact absurd htarget haway
              · exact hnone t (mem_append_right _ ht) htarget
        · exact .inr (.inl (mem_cons_of_mem k hrest))
        · refine .inr (.inr ⟨m, mem_cons_of_mem k hm, hm', rfl, fun t ht htarget => ?_⟩)
          rcases mem_append.mp ht with ht | ht
          · exact hno t (mem_append_left _ (mem_append_left _ ht)) htarget
          · rcases mem_cons.mp ht with rfl | ht
            · exact absurd htarget haway
            · exact hno t (mem_append_right _ ht) htarget
      · rcases mem_cons.mp hm with rfl | hm
        · rw [strays, hstray] at hm'
          cases hm'
        · exact hstay m hm hm'
      · rcases mem_cons.mp hm with rfl | hm
        · exact ⟨_, hkept _ (mem_append_right _ mem_cons_self), rfl, rfl⟩
        · exact hheld m hm hm'
    · rename_i hstays
      obtain ⟨hrows, hkept, hstay, hheld⟩ := ih (done ++ [k])
      have hk : k ∈ rekey sid proj (done ++ [k]) rest :=
        hkept k (mem_append_right _ mem_cons_self)
      refine ⟨fun k' hk' => ?_, fun m hm => hkept m (mem_append_left _ hm), fun m hm hm' => ?_,
        fun m hm hm' => ?_⟩
      · rcases hrows k' hk' with hdone | hrest | ⟨m, hm, hm', rfl, hno⟩
        · rcases mem_append.mp hdone with hdone | hhead
          · exact .inl hdone
          · exact .inr (.inl (mem_singleton.mp hhead ▸ mem_cons_self))
        · exact .inr (.inl (mem_cons_of_mem k hrest))
        · refine .inr (.inr ⟨m, mem_cons_of_mem k hm, hm', rfl, fun t ht => hno t ?_⟩)
          rw [append_assoc]
          exact ht
      · rcases mem_cons.mp hm with rfl | hm
        · exact hk
        · exact hstay m hm hm'
      · rcases mem_cons.mp hm with rfl | hm
        · -- it is blocked: the project holds the key already
          have hblocked : ((done ++ rest).any fun x => x.projectId = proj && x.key = m.key) := by
            by_contra hno
            rw [Bool.not_eq_true] at hno
            exact hstays (by rw [hno, show (decide _ && decide _) = true from hm']; rfl)
          obtain ⟨x, hx, hboth⟩ := any_eq_true.mp hblocked
          rw [Bool.and_eq_true, decide_eq_true_eq, decide_eq_true_eq] at hboth
          refine ⟨x, ?_, hboth.1, hboth.2⟩
          rcases mem_append.mp hx with hx | hx
          · exact hkept x (mem_append_left _ hx)
          · exact hstay x hx (by simp [strays, hboth.1])
        · exact hheld m hm hm'

lemma mem_moveIngestKeys {k' : IngestKeyRow} (h : k' ∈ moveIngestKeys keys sid proj) :
    k' ∈ keys ∧ strays sid proj k' = false ∨
      ∃ k ∈ keys, strays sid proj k = true ∧ k' = { k with projectId := proj } ∧
        ∀ t ∈ keys, t.projectId = proj → t.key ≠ k.key := by
  rw [moveIngestKeys, mem_delete] at h
  rcases (rekey_rows [] keys).1 k' h.1 with hdone | hrest | hmoved
  · cases hdone
  · exact .inl ⟨hrest, h.2⟩
  · exact .inr hmoved

lemma mem_moveIngestKeys_of_stays {k : IngestKeyRow} (hk : k ∈ keys)
    (hstays : strays sid proj k = false) : k ∈ moveIngestKeys keys sid proj :=
  mem_delete.mpr ⟨(rekey_rows [] keys).2.2.1 k hk hstays, hstays⟩

lemma moveIngestKeys_held {k : IngestKeyRow} (hk : k ∈ keys) (hstray : strays sid proj k) :
    ∃ k' ∈ moveIngestKeys keys sid proj, k'.projectId = proj ∧ k'.key = k.key := by
  obtain ⟨k', hk', hproj, hkey⟩ := (rekey_rows [] keys).2.2.2 k hk hstray
  exact ⟨k', mem_delete.mpr ⟨hk', by simp [hproj]⟩, hproj, hkey⟩

end Database
