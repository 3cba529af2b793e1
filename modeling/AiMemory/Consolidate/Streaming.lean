/-
A streamed projection is the projection of the rows in memory.

The scan keeps the anchors and the best of the rows between them, which is what the selection of
the whole list takes; the rows it reads again are the rows at these positions; and its residue
candidates are those of the rows in memory.
-/
import AiMemory.Consolidate.Projection

open BestOf Table List

namespace Consolidate

open Store (StoreError)

variable {X : Crates} {snap : SessionObservationSnapshot} {cfg : ObservationProjectionConfig}

/-! ### The scan -/

def scores (rows : List (ℤ × Observation)) : List ℤ :=
  (rows.map Prod.snd).zipIdx.map fun row => observationScore row.1 row.2 rows.length

/-- What the heap keeps beside a key: the score and the `rowid` of the row at its position. -/
def keptValue (rows : List (ℤ × Observation)) (key : ℤ ×ₗ ℕ) : ℤ × ℤ :=
  ((scores rows).getD (ofLex key).2 0, (rows.map Prod.fst).getD (ofLex key).2 0)

structure Scanned (X : Crates) (cfg : ObservationProjectionConfig) (rows : List (ℤ × Observation))
    (done : List (ℤ × Observation)) (scan : Scan) : Prop where
  idx : scan.idx = done.length
  capacity : scan.topK.capacity = cfg.maxSelectedObservations - 2
  kept : Keeps (keptValue rows) (cfg.maxSelectedObservations - 2)
    (middleKeys rows.length (fun idx => (scores rows).getD idx 0) done.length) scan.topK.entries
  anchor0Rowid : scan.anchor0Rowid = done.head?.map Prod.fst
  lastRowid : scan.lastRowid = (done.drop 1).getLast?.map Prod.fst
  passOne : scan.passOne = if cfg.verbatimResidue then scanned X rows.length done .one else []
  passTwo : scan.passTwo = if cfg.verbatimResidue then scanned X rows.length done .two else []

lemma scanned_start (rows : List (ℤ × Observation)) :
    Scanned X cfg rows [] (.start cfg.maxSelectedObservations) where
  idx := rfl
  capacity := rfl
  kept := keeps_nil
  anchor0Rowid := rfl
  lastRowid := rfl
  passOne := by split <;> rfl
  passTwo := by split <;> rfl

variable {row : ℤ × Observation} {rows : List (ℤ × Observation)} {idx : ℕ}

lemma scores_getD (h : rows[idx]? = some row) :
    (scores rows).getD idx 0 = observationScore row.2 idx rows.length := by
  rw [scores, getD_eq_getElem?_getD, getElem?_map, getElem?_zipIdx, getElem?_map, h]
  simp

lemma keptValue_eq (h : rows[idx]? = some row) (key : ℤ) : keptValue rows (toLex (key, idx))
      = (observationScore row.2 idx rows.length, row.1) := by
  have hrowid : (rows.map Prod.fst).getD idx 0 = row.1 := by
    rw [getD_eq_getElem?_getD, getElem?_map, h]
    rfl
  exact Prod.ext (scores_getD h) hrowid

lemma BoundedTopK.insert_keeps {topK : BoundedTopK} {P : Finset (ℤ ×ₗ ℕ)} {key : ℤ}
    (hrow : rows[idx]? = some row) (h : Keeps (keptValue rows) topK.capacity P topK.entries)
    (hnew : toLex (key, idx) ∉ P) :
    Keeps (keptValue rows) topK.capacity (Insert.insert (toLex (key, idx)) P)
      (topK.insert key idx (observationScore row.2 idx rows.length) row.1).entries := by
  unfold BoundedTopK.insert
  rw [← keptValue_eq hrow key]
  split
  · rename_i hzero
    rw [hzero] at h ⊢
    exact h.none
  split
  · rename_i hroom
    exact h.insert hnew hroom
  rename_i hzero hfull
  cases hentries : topK.entries with
  | nil =>
    rw [hentries] at hfull
    exact absurd (Nat.pos_of_ne_zero hzero) hfull
  | cons weakest entries =>
    rw [hentries] at h hfull
    have hfull' : topK.capacity ≤ (weakest :: entries).length := Nat.le_of_not_lt hfull
    rw [head?_cons]
    dsimp only
    split
    · rename_i hlt
      exact h.evict hnew hfull' hlt
    · rename_i hle
      rw [hentries]
      exact h.keep hnew hfull' hle

lemma BoundedTopK.insert_capacity (topK : BoundedTopK) (key : ℤ) (idx : ℕ) (score rowid : ℤ) :
    (topK.insert key idx score rowid).capacity = topK.capacity := by
  unfold BoundedTopK.insert
  split
  · rfl
  split
  · rfl
  split
  · rfl
  · split <;> rfl

lemma scanned_append (X : Crates) (total : ℕ) (done : List (ℤ × Observation))
    (row : ℤ × Observation) (pass : ResiduePass) : scanned X total (done ++ [row]) pass
      = scanned X total done pass
        ++ (residueCandidate X total done.length row.1 row.2 pass).toList := by
  rw [scanned, zipIdx_append, filterMap_append, ← scanned]
  cases h : residueCandidate X total done.length row.1 row.2 pass <;> simp [h]

lemma Scanned.visit {rows done : List (ℤ × Observation)} {scan : Scan}
    (h : Scanned X cfg rows done scan) (hrow : rows[done.length]? = some row) :
    Scanned X cfg rows (done ++ [row]) (scan.visit X cfg rows.length row) := by
  have hlength : (done ++ [row]).length = done.length + 1 := by simp
  refine ⟨?_, ?_, ?_, ?_, ?_, ?_, ?_⟩
  · show scan.idx + 1 = _
    rw [h.idx, hlength]
  · show (if _ then _ else _ : BoundedTopK).capacity = _
    split
    · exact h.capacity
    · rw [BoundedTopK.insert_capacity, h.capacity]
  · show Keeps _ _ _ (if isHardAnchor rows.length scan.idx then _ else _ : BoundedTopK).entries
    rw [hlength, middleKeys_succ, h.idx]
    by_cases hanchor : isHardAnchor rows.length done.length
    · rw [if_pos hanchor, if_pos hanchor]
      exact h.kept
    · rw [if_neg hanchor, if_neg hanchor, rankedKey, scores_getD hrow]
      have hkept := h.kept
      rw [← h.capacity] at hkept ⊢
      have hnew : rankedKey rows.length (fun idx => (scores rows).getD idx 0) done.length
          ∉ middleKeys rows.length (fun idx => (scores rows).getD idx 0) done.length :=
        rankedKey_notMem
      rw [rankedKey, scores_getD hrow] at hnew
      exact BoundedTopK.insert_keeps hrow hkept hnew
  · show (if scan.idx = 0 then some row.1 else scan.anchor0Rowid) = _
    rw [h.idx, h.anchor0Rowid]
    cases done with
    | nil => rfl
    | cons first done => rfl
  · show (if scan.idx = 0 then scan.lastRowid else some row.1) = _
    rw [h.idx, h.lastRowid]
    cases done with
    | nil => rfl
    | cons first done => simp
  · show scan.passOne ++ (if cfg.verbatimResidue then _ else []) = _
    rw [h.passOne, h.idx, scanned_append]
    split <;> rfl
  · show scan.passTwo ++ (if cfg.verbatimResidue then _ else []) = _
    rw [h.passTwo, h.idx, scanned_append]
    split <;> rfl

lemma scanned_foldl {rows done rest : List (ℤ × Observation)} {scan : Scan}
    (h : Scanned X cfg rows done scan) (hrows : done ++ rest = rows) :
    Scanned X cfg rows rows (rest.foldl (Scan.visit X cfg rows.length) scan) := by
  induction rest generalizing done scan with
  | nil =>
    rw [append_nil] at hrows
    rwa [hrows] at h
  | cons row rest ih =>
    have hrow : rows[done.length]? = some row := by rw [← hrows]; simp
    exact ih (h.visit hrow) (by rw [← hrows]; simp)

section Long

-- a session longer than its selection, and the scan of all its rows
variable {scan : Scan} (hscan : Scanned X cfg snap.rows snap.rows scan)
  (hlimit : cfg.maxSelectedObservations ≠ 0)
  (hlong : cfg.maxSelectedObservations < snap.rows.length)

include hscan

lemma mem_finish {kept : ℕ × ℤ × ℤ} (hmem : kept ∈ scan.topK.finish) :
    isHardAnchor snap.rows.length kept.1 = false ∧ ∃ row, snap.rows[kept.1]? = some row ∧
      kept.2 = (observationScore row.2 kept.1 snap.rows.length, row.1) := by
  obtain ⟨entry, hentry, rfl⟩ := mem_map.mp hmem
  obtain ⟨idx, hidx, hkey⟩ := Finset.mem_image.mp
    (hscan.kept.best.subset (mem_keys.mpr ⟨entry, hentry, rfl⟩))
  obtain ⟨hlt, hanchor⟩ := Finset.mem_filter.mp hidx
  have hpos : (ofLex entry.1).2 = idx := by rw [← hkey]; rfl
  obtain ⟨row, hrow⟩ : ∃ row, snap.rows[idx]? = some row :=
    ⟨_, getElem?_eq_getElem (Finset.mem_range.mp hlt)⟩
  dsimp only
  rw [hpos]
  refine ⟨by simpa using hanchor, row, hrow, ?_⟩
  rw [hscan.kept.values entry hentry, ← hkey]
  exact keptValue_eq hrow _

lemma keyUnique_finish : KeyUnique Prod.fst scan.topK.finish := by
  have hkeys := hscan.kept.ascending.nodup
  rw [KeyUnique, BoundedTopK.finish, map_map]
  refine List.Nodup.map_on ?_ (List.Nodup.of_map _ hkeys)
  -- A position has one key.
  intro entry hentry entry' hentry' hpos
  obtain ⟨idx, -, hkey⟩ := Finset.mem_image.mp
    (hscan.kept.best.subset (mem_keys.mpr ⟨entry, hentry, rfl⟩))
  obtain ⟨idx', -, hkey'⟩ := Finset.mem_image.mp
    (hscan.kept.best.subset (mem_keys.mpr ⟨entry', hentry', rfl⟩))
  have hidx : idx = idx' := by
    have h : (ofLex entry.1).2 = (ofLex entry'.1).2 := hpos
    rw [← hkey, ← hkey'] at h
    exact h
  exact inj_on_of_nodup_map hkeys hentry hentry' (by rw [← hkey, ← hkey', hidx])

include hlimit hlong

lemma selectedIdx_eq : (scan.topK.finish.map Prod.fst
      ++ (if 2 ≤ cfg.maxSelectedObservations then [0] else [])
      ++ [snap.rows.length - 1]).insertionSort (· ≤ ·)
    = selectObservationIndices snap.rows.length cfg.maxSelectedObservations (scores snap.rows) := by
  by_cases htwo : 2 ≤ cfg.maxSelectedObservations
  · rw [if_pos htwo, selectObservationIndices_eq htwo hlong hscan.kept.best]
    set l := scan.topK.finish.map Prod.fst ++ [0] ++ [snap.rows.length - 1] with hl
    have hmiddle : ∀ idx ∈ scan.topK.finish.map Prod.fst, idx ≠ 0 ∧ idx ≠ snap.rows.length - 1 := by
      intro idx hidx
      obtain ⟨kept, hkept, rfl⟩ := mem_map.mp hidx
      have hanchor := (mem_finish hscan hkept).1
      rw [isHardAnchor, Bool.or_eq_false_iff, decide_eq_false_iff_not,
        decide_eq_false_iff_not] at hanchor
      omega
    have hnodup : l.Nodup := by
      rw [hl, append_assoc, nodup_append]
      refine ⟨keyUnique_finish hscan, by simp; omega, fun a ha b hb => ?_⟩
      obtain ⟨h0, hlast⟩ := hmiddle a ha
      rcases mem_pair.mp hb with rfl | rfl
      · exact h0
      · exact hlast
    have hset : (l.toFinset) = ({0, snap.rows.length - 1} : Finset ℕ)
        ∪ (keys scan.topK.entries).image fun key => (ofLex key).2 := by
      ext idx
      simp only [hl, mem_toFinset, mem_append, mem_singleton, Finset.mem_union,
        Finset.mem_insert, Finset.mem_singleton, Finset.mem_image, BestOf.mem_keys, BoundedTopK.finish,
        map_map, mem_map]
      constructor
      · rintro ((⟨entry, hentry, rfl⟩ | h0) | hlast)
        · exact .inr ⟨entry.1, ⟨entry, hentry, rfl⟩, rfl⟩
        · exact .inl (.inl h0)
        · exact .inl (.inr hlast)
      · rintro ((h0 | hlast) | ⟨-, ⟨entry, hentry, rfl⟩, rfl⟩)
        · exact .inl (.inr h0)
        · exact .inr hlast
        · exact .inl (.inl ⟨entry, hentry, rfl⟩)
    have hperm : (l.insertionSort (· ≤ ·)).Perm l := perm_insertionSort _ l
    rw [← hset, ← toFinset_eq_of_perm _ _ hperm]
    exact ((toFinset_sort (· ≤ ·) (hperm.nodup_iff.mpr hnodup)).mpr
      (pairwise_insertionSort _ l)).symm
  · have hone : cfg.maxSelectedObservations = 1 := by omega
    have hnil : scan.topK.finish = [] := by
      have hle := hscan.kept.length_le
      rw [hone] at hle
      rw [BoundedTopK.finish, length_eq_zero_iff.mp (Nat.le_zero.mp hle)]
      rfl
    rw [hnil, if_neg htwo, selectObservationIndices, if_neg (by omega), if_pos hone]
    rfl

lemma rowidAt_eq {idx : ℕ} (hidx : idx ∈ selectObservationIndices snap.rows.length
      cfg.maxSelectedObservations (scores snap.rows)) :
    ∃ row, snap.rows[idx]? = some row ∧ scan.rowidAt snap.rows.length idx = some row.1 := by
  rw [← selectedIdx_eq hscan hlimit hlong, (perm_insertionSort _ _).mem_iff, mem_append,
    mem_append] at hidx
  have hrow : ∀ i, i < snap.rows.length → ∃ row, snap.rows[i]? = some row := fun i hi =>
    ⟨_, getElem?_eq_getElem hi⟩
  unfold Scan.rowidAt
  by_cases h0 : idx = 0
  · obtain ⟨row, hat⟩ := hrow 0 (by omega)
    rw [if_pos h0, hscan.anchor0Rowid, head?_eq_getElem?, h0, hat]
    exact ⟨row, rfl, rfl⟩
  by_cases hlast : idx = snap.rows.length - 1
  · obtain ⟨row, hat⟩ := hrow (snap.rows.length - 1) (by omega)
    rw [if_neg h0, if_pos hlast, hscan.lastRowid, getLast?_drop, if_neg (by omega),
      getLast?_eq_getElem?, hlast, hat]
    exact ⟨row, rfl, rfl⟩
  rw [if_neg h0, if_neg hlast]
  have hmem : idx ∈ scan.topK.finish.map Prod.fst := by
    rcases hidx with (hidx | hidx) | hidx
    · exact hidx
    · split at hidx
      · exact absurd (mem_singleton.mp hidx) h0
      · cases hidx
    · exact absurd (mem_singleton.mp hidx) hlast
  obtain ⟨kept, hkept, rfl⟩ := mem_map.mp hmem
  obtain ⟨-, row, hrow, hvalue⟩ := mem_finish hscan hkept
  rw [(keyUnique_finish hscan).find?_eq_some.mpr ⟨hkept, rfl⟩]
  exact ⟨row, hrow, congrArg some (congrArg Prod.snd hvalue)⟩

end Long

lemma rowByRowid_eq (hrow : row ∈ snap.rows) :
    snap.rowByRowid row.1 = some row.2 := by
  rw [SessionObservationSnapshot.rowByRowid, snap.rowids.find?_eq_some.mpr ⟨hrow, rfl⟩]
  rfl

lemma readSelected_ok {scan : Scan} (hrow : snap.rows[idx]? = some row)
    (hrowid : scan.rowidAt snap.rows.length idx = some row.1) :
    readSelected snap scan idx = .ok (idx, (scores snap.rows).getD idx 0, row.2) := by
  unfold readSelected
  rw [hrowid, Option.bind_some, rowByRowid_eq (mem_of_getElem? hrow), scores_getD hrow]

lemma projectSessionObservations_eq (htotal : cfg.maxTotalChars ≠ 0)
    (hlimit : cfg.maxSelectedObservations ≠ 0)
    (hlong : cfg.maxSelectedObservations < snap.rows.length) :
    ∃ stats, projectSessionObservations X snap cfg
      = .ok (some (projectObservations X (snap.rows.map Prod.snd) cfg, stats)) := by
  have hearly : projectionEarlyReturn snap.rows.length cfg = none := by
    rw [projectionEarlyReturn, if_neg (by omega), if_neg (by tauto)]
  have hscan : Scanned X cfg snap.rows snap.rows
      (snap.rows.foldl (Scan.visit X cfg snap.rows.length) (.start cfg.maxSelectedObservations)) :=
    scanned_foldl (scanned_start snap.rows) (nil_append _)
  set scan := snap.rows.foldl (Scan.visit X cfg snap.rows.length)
    (.start cfg.maxSelectedObservations) with hscandef
  set positions := selectObservationIndices snap.rows.length cfg.maxSelectedObservations
    (scores snap.rows) with hpositions
  obtain ⟨first, -⟩ : ∃ row, snap.rows[0]? = some row := ⟨_, getElem?_eq_getElem (by omega)⟩
  set again : ℕ → ℕ × ℤ × Observation := fun idx =>
    (idx, (scores snap.rows).getD idx 0, (snap.rows.getD idx first).2) with hagain
  have hat : ∀ idx ∈ positions, (snap.rows.map Prod.snd)[idx]? = some (again idx).2.2 := by
    intro idx hidx
    obtain ⟨row, hrow, -⟩ := rowidAt_eq hscan hlimit hlong hidx
    have hrow' : snap.rows.getD idx first = row := by
      rw [getD_eq_getElem?_getD, hrow]
      rfl
    rw [getElem?_map, hrow]
    exact congrArg (fun r => some r.2) hrow'.symm
  have hread : positions.mapM (readSelected snap scan) = .ok (positions.map again) := by
    refine Fallible.mapM_eq_ok_map fun idx hidx => ?_
    obtain ⟨row, hrow, hrowid⟩ := rowidAt_eq hscan hlimit hlong hidx
    have hrow' : snap.rows.getD idx first = row := by
      rw [getD_eq_getElem?_getD, hrow]
      rfl
    rw [readSelected_ok hrow hrowid, ← hrow']
  have hunique : KeyUnique Prod.fst (positions.map again) := by
    rw [KeyUnique, map_map]
    exact (map_id positions).symm ▸ nodup_selectObservationIndices _ _ _
  have hfind : ∀ idx ∈ positions,
      (positions.map again).find? (fun row => row.1 = idx) = some (again idx) := fun idx hidx =>
    hunique.find?_eq_some.mpr ⟨mem_map_of_mem hidx, rfl⟩
  have hpairs : (positions.map again).map (fun row => (row.1, row.2.1))
      = positions.map fun idx => (idx, (scores snap.rows).getD idx 0) := by
    rw [map_map]
    rfl
  unfold projectSessionObservations projectObservations
  simp only [hearly, length_map, if_neg (Nat.not_le_of_lt hlong), ← hscandef,
    selectedIdx_eq hscan hlimit hlong, ← hpositions, hread]
  refine ⟨_, congrArg (fun projected => Except.ok (some (projected, _))) ?_⟩
  rw [hpairs]
  refine projectFromRows_congr (fun idx hidx => ?_) fun hverbatim kept hkept => ?_
  · have hmem : idx ∈ positions := by simpa using hidx
    rw [hfind idx hmem, hat idx hmem]
    rfl
  · have hone := hscan.passOne
    have htwo := hscan.passTwo
    rw [if_pos hverbatim] at hone htwo
    simp only [ResidueSource.residue, hone, htwo]
    refine renderVerbatimResidueFetched_eq (fun row hrow => ?_) fun idx hidx => ?_
    · rw [rowByRowid_eq hrow]
      cases htext : residueCandidateText row.2 <;> simp [htext]
    · have hmem : idx ∈ positions := by simpa using hkept.subset hidx
      rw [hfind idx hmem, hat idx hmem]
      rfl

/-- Every session with rows has the projection of the whole list, within its budget; a session
without rows has none. -/
theorem projectSessionObservations_exact (X : Crates) (snap : SessionObservationSnapshot)
    (cfg : ObservationProjectionConfig) (htotal : cfg.maxTotalChars ≠ 0)
    (hlimit : cfg.maxSelectedObservations ≠ 0) :
    (snap.rows = [] → projectSessionObservations X snap cfg = .ok none) ∧
    (snap.rows ≠ [] →
      (∃ stats, projectSessionObservations X snap cfg
        = .ok (some (projectObservations X (snap.rows.map Prod.snd) cfg, stats))) ∧
      (projectObservations X (snap.rows.map Prod.snd) cfg).text.length ≤ cfg.maxTotalChars) := by
  constructor
  · intro hnil
    unfold projectSessionObservations
    simp [hnil, projectionEarlyReturn]
  intro hrows
  have hlength : snap.rows.length ≠ 0 := fun h => hrows (length_eq_zero_iff.mp h)
  have hearly : projectionEarlyReturn snap.rows.length cfg = none := by
    rw [projectionEarlyReturn, if_neg hlength, if_neg (by tauto)]
  constructor
  · by_cases hlong : cfg.maxSelectedObservations < snap.rows.length
    · exact projectSessionObservations_eq htotal hlimit hlong
    · unfold projectSessionObservations
      simp only [hearly, if_pos (Nat.le_of_not_lt hlong)]
      exact ⟨_, rfl⟩
  · unfold projectObservations
    simp only [length_map, hearly]
    exact length_projectFromRows

/-- Every pattern finds a text with a slash as a whole. -/
def pathCrates : Crates :=
  ⟨fun _ => [], fun _ => [], fun _ text => if '/' ∈ text then [fun _ => some text] else [],
    fun _ text => '/' ∈ text⟩

def promptAndStop : SessionObservationSnapshot :=
  ⟨[(7, ⟨1, .userPrompt, none, none, [], "docs/a.md".toList, 5, 0⟩),
    (4, ⟨2, .stop, none, none, [], "src/b.rs".toList, 5, 1⟩)], by decide⟩

/-- Two rows with paths are projected alike from memory and from a snapshot. -/
theorem two_prompts_project_alike :
    ∃ stats, projectSessionObservations pathCrates promptAndStop ⟨9000, 1, 2, none, true⟩ =
      .ok (some (projectObservations pathCrates (promptAndStop.rows.map Prod.snd)
        ⟨9000, 1, 2, none, true⟩, stats)) :=
  ((projectSessionObservations_exact pathCrates promptAndStop ⟨9000, 1, 2, none, true⟩
    (by decide) (by decide)).2 (by simp [promptAndStop])).1

/-- An empty session: the list projects to a text, the snapshot to nothing. -/
theorem empty_session_has_no_projection :
    ¬ ∀ (X : Crates) (snap : SessionObservationSnapshot) (cfg : ObservationProjectionConfig),
      cfg.maxTotalChars ≠ 0 → cfg.maxSelectedObservations ≠ 0 →
      (∃ stats, projectSessionObservations X snap cfg
        = .ok (some (projectObservations X (snap.rows.map Prod.snd) cfg, stats))) ∧
      (projectObservations X (snap.rows.map Prod.snd) cfg).text.length ≤ cfg.maxTotalChars := by
  intro h
  obtain ⟨⟨stats, heq⟩, -⟩ := h ⟨fun _ => [], fun _ => [], fun _ _ => [], fun _ _ => false⟩
    ⟨[], nodup_nil⟩ ⟨9000, 1, 2, none, false⟩ (by decide) (by decide)
  simp [projectSessionObservations, projectionEarlyReturn] at heq

end Consolidate
