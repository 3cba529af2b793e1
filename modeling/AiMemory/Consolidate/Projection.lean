/-
Observations projected into a bounded prompt (`ai-memory-consolidate`, `projection.rs`).

A projection is made of rows in memory, or of a snapshot whose rows are streamed once and read
again by `rowid` when they are needed.

* `length_projectFromRows`, `projectFromRows_congr` — the text stays within its budget, and what it
  depends on.

The log line, and the count of rows that the connection has read, are left out.
-/
import AiMemory.Consolidate.Residue

open BestOf Table List

namespace Consolidate

open Store (StoreError)

structure ProjectedObservations where
  text : Text
  totalCount : ℕ
  selectedCount : ℕ
  omittedCount : ℕ
  truncatedBodies : ℕ
  selectedIndices : List ℕ
  warnings : List Text

def contextLabel (cfg : ObservationProjectionConfig) : Text :=
  (cfg.contextLabel.filter fun label => !blank label).getD "observation".toList

inductive ProjectionEarlyReturn
  | empty
  | noBudget (projected : ProjectedObservations)

def ProjectionEarlyReturn.rendered : ProjectionEarlyReturn → ProjectedObservations
  | .empty => ⟨"(none)".toList, 0, 0, 0, 0, [], []⟩
  | .noBudget projected => projected

def projectionEarlyReturn (total : ℕ) (cfg : ObservationProjectionConfig) :
    Option ProjectionEarlyReturn :=
  if total = 0 then some .empty
  else if cfg.maxSelectedObservations = 0 ∨ cfg.maxTotalChars = 0 then
    some <| .noBudget
      { text := ['['] ++ num total ++ " observations omitted: no projection budget; full originals remain in SQLite by observation id]\n".toList
        totalCount := total
        selectedCount := 0
        omittedCount := total
        truncatedBodies := 0
        selectedIndices := []
        warnings := [contextLabel cfg ++ " observation projection omitted by input budget".toList] }
  else none

/-! ### From a selection to a text -/

def omissionMarker (total selected : ℕ) (cfg : ObservationProjectionConfig) : Text :=
  let omitted := total - selected
  if omitted = 0 then []
  else "\n[".toList ++ num omitted ++ " observations omitted from ".toList ++ contextLabel cfg
    ++ " projection due to sample/count/character budget; selected ".toList ++ num selected
    ++ " of ".toList ++ num total
    ++ "; full originals remain in SQLite by observation id]\n".toList

def renderProjectionRows (X : Crates) (total : ℕ) (selected : List ℕ)
    (rowAt : ℕ → Option Observation) (perBodyExcerptChars : ℕ) : Text × ℕ :=
  let blocks := selected.filterMap fun idx => (rowAt idx).map fun obs =>
    renderObservationBlock X total idx obs perBodyExcerptChars
  (blocks.flatMap RenderedBlock.text, blocks.countP RenderedBlock.truncated)

def fitTextToBudget (text : Text) (maxChars : ℕ) (marker : String) : Text :=
  if text.length ≤ maxChars then text
  else if maxChars = 0 then []
  else
    let marker := '\n' :: marker.toList
    if maxChars ≤ marker.length then marker.take maxChars
    else text.take (maxChars - marker.length) ++ marker

inductive ResidueSource
  | inMemory (observations : List Observation)
  | fetched (passOne passTwo : List ResidueCandidate)
      (fetch : ℤ → Option (Observation × Text))

def ResidueSource.residue (X : Crates) (source : ResidueSource) (selected : List ℕ)
    (rowAt : ℕ → Option Observation) (total : ℕ) (cfg : ObservationProjectionConfig) :
    ResidueRender :=
  match source with
  | .inMemory observations => renderVerbatimResidue X observations selected
      cfg.perBodyExcerptChars (min (cfg.maxTotalChars / 8) maxResidueChars)
  | .fetched passOne passTwo fetch =>
    renderVerbatimResidueFetched X passOne passTwo fetch selected rowAt total cfg

def without (selected : List (ℕ × ℤ)) (idx : ℕ) : List (ℕ × ℤ) :=
  selected.filter fun pair => pair.1 ≠ idx

lemma without_sublist (selected : List (ℕ × ℤ)) (idx : ℕ) :
    (without selected idx).Sublist selected := filter_sublist

/-- The weakest rows go until the blocks fit, or one row or the anchors are left. -/
def pruneToBudget (total maxChars : ℕ) (blockChars : ℕ → ℕ) (selected : List (ℕ × ℤ))
    (totalChars : ℕ) : List (ℕ × ℤ) :=
  if maxChars < totalChars ∧ 1 < selected.length then
    match _hidx : lowestPrunablePair total selected with
    | none => selected
    | some idx =>
      pruneToBudget total maxChars blockChars (without selected idx) (totalChars - blockChars idx)
  else selected
  termination_by selected.length
  decreasing_by
    obtain ⟨pair, hpair, hidx, -⟩ := lowestPrunablePair_mem _hidx
    refine lt_of_le_of_ne (without_sublist selected idx).length_le fun heq => ?_
    have hall := (without_sublist selected idx).eq_of_length heq
    rw [← hall] at hpair
    exact absurd hidx (of_decide_eq_true (mem_filter.mp hpair).2)

def pruneForResidue (total : ℕ) (cfg : ObservationProjectionConfig) (blockChars : ℕ → ℕ)
    (residueChars : ℕ) : ℕ → List (ℕ × ℤ) → List (ℕ × ℤ)
  | 0, selected => selected
  | blocks + 1, selected =>
    let renderedChars := (selected.map fun pair => blockChars pair.1).sum
    let markerChars := (omissionMarker total selected.length cfg).length
    if renderedChars + markerChars + residueChars ≤ cfg.maxTotalChars then selected
    else match lowestPrunablePair total selected with
      | none => selected
      | some idx => pruneForResidue total cfg blockChars residueChars blocks (without selected idx)

def maxResiduePrunedBlocks : ℕ := 3

def truncatedMarker : String :=
  "[projection text truncated to budget; full originals remain in SQLite by observation id]"

def assemble (X : Crates) (total : ℕ) (selected : List ℕ) (rowAt : ℕ → Option Observation)
    (cfg : ObservationProjectionConfig) (residue : ResidueRender) : ProjectedObservations :=
  let (rows, truncatedBodies) :=
    renderProjectionRows X total selected rowAt cfg.perBodyExcerptChars
  let omittedCount := total - selected.length
  let text := rows ++ (if 0 < omittedCount then omissionMarker total selected.length cfg else [])
    ++ residue.render
  let warnings :=
    (if 0 < omittedCount then
      [contextLabel cfg ++ " observation input sampled ".toList ++ num selected.length
        ++ " of ".toList ++ num total ++ " observations".toList]
    else [])
    ++ (if 0 < truncatedBodies then
      [contextLabel cfg ++ " truncated ".toList ++ num truncatedBodies ++ " observation bod".toList
        ++ (if truncatedBodies = 1 then "y" else "ies").toList ++ " to ".toList
        ++ num cfg.perBodyExcerptChars ++ " chars".toList]
    else [])
    ++ (if cfg.maxTotalChars < text.length then
      [contextLabel cfg
        ++ " projection exceeded max_total_chars after mandatory markers/anchors (".toList
        ++ num text.length ++ " > ".toList ++ num cfg.maxTotalChars ++ [')']]
    else [])
  { text := if cfg.maxTotalChars < text.length then
      fitTextToBudget text cfg.maxTotalChars truncatedMarker else text
    totalCount := total
    selectedCount := selected.length
    omittedCount := omittedCount
    truncatedBodies := truncatedBodies
    selectedIndices := selected
    warnings := warnings }

def blockChars (X : Crates) (total : ℕ) (selected : List (ℕ × ℤ))
    (rowAt : ℕ → Option Observation) (cfg : ObservationProjectionConfig) : ℕ → ℕ :=
  let measured := selected.filterMap fun pair => (rowAt pair.1).map fun obs =>
    (pair.1, (renderObservationBlock X total pair.1 obs cfg.perBodyExcerptChars).text.length)
  fun idx => (measured.lookup idx).getD 0

def assembleWithResidue (X : Crates) (total : ℕ) (selected : List (ℕ × ℤ))
    (rowAt : ℕ → Option Observation) (cfg : ObservationProjectionConfig) (blockChars : ℕ → ℕ)
    (residue : ResidueRender) : ProjectedObservations :=
  if residue.isEmpty then assemble X total (selected.map Prod.fst) rowAt cfg residue
  else
    let selected := pruneForResidue total cfg blockChars residue.charCount maxResiduePrunedBlocks
      selected
    let renderedChars := (selected.map fun pair => blockChars pair.1).sum
    let markerChars := (omissionMarker total selected.length cfg).length
    assemble X total (selected.map Prod.fst) rowAt cfg
      (residue.fitWholeGroups (cfg.maxTotalChars - (renderedChars + markerChars)))

def projectFromRows (X : Crates) (total : ℕ) (selected : List (ℕ × ℤ))
    (rowAt : ℕ → Option Observation) (cfg : ObservationProjectionConfig)
    (source : ResidueSource) : ProjectedObservations :=
  let chars := blockChars X total selected rowAt cfg
  let selected := pruneToBudget total cfg.maxTotalChars chars selected
    (selected.map fun pair => chars pair.1).sum
  assembleWithResidue X total selected rowAt cfg chars
    (if cfg.verbatimResidue then source.residue X (selected.map Prod.fst) rowAt total cfg
    else .empty)

/-! ### What a projection keeps to -/

theorem length_fitTextToBudget (text : Text) (maxChars : ℕ) (marker : String) :
    (fitTextToBudget text maxChars marker).length ≤ maxChars := by
  unfold fitTextToBudget
  split
  · assumption
  split
  · exact Nat.zero_le _
  · show List.length (if maxChars ≤ ('\n' :: marker.toList).length then _ else _) ≤ maxChars
    split
    · exact length_take_le _ _
    · rw [length_append, length_take]
      omega

section Budget

variable {X : Crates} {total : ℕ} {rowAt : ℕ → Option Observation}
  {cfg : ObservationProjectionConfig} {source : ResidueSource}

lemma length_assemble {selected : List ℕ} {residue : ResidueRender} :
    (assemble X total selected rowAt cfg residue).text.length ≤ cfg.maxTotalChars := by
  have hfit : ∀ text : Text, (if cfg.maxTotalChars < text.length then
      fitTextToBudget text cfg.maxTotalChars truncatedMarker else text).length
        ≤ cfg.maxTotalChars := by
    intro text
    split
    · exact length_fitTextToBudget _ _ _
    · omega
  exact hfit _

lemma length_projectFromRows {selected : List (ℕ × ℤ)} :
    (projectFromRows X total selected rowAt cfg source).text.length ≤ cfg.maxTotalChars := by
  unfold projectFromRows assembleWithResidue
  dsimp only
  generalize (if cfg.verbatimResidue = true then _ else _ : ResidueRender) = residue
  split <;> exact length_assemble

lemma pruneToBudget_sublist (total maxChars : ℕ) (blockChars : ℕ → ℕ)
    (selected : List (ℕ × ℤ)) (totalChars : ℕ) :
    (pruneToBudget total maxChars blockChars selected totalChars).Sublist selected := by
  induction selected, totalChars using pruneToBudget.induct total maxChars blockChars with
  | case1 selected totalChars hlong hnone =>
    rw [pruneToBudget, if_pos hlong]
    split
    · exact List.Sublist.refl _
    · simp_all
  | case2 selected totalChars hlong idx hidx ih =>
    rw [pruneToBudget, if_pos hlong]
    split
    · exact List.Sublist.refl _
    · rename_i idx' hidx'
      obtain rfl := Option.some.inj (hidx.symm.trans hidx')
      exact ih.trans (without_sublist selected idx)
  | case3 selected totalChars hfits =>
    rw [pruneToBudget, if_neg hfits]

lemma pruneForResidue_sublist (total : ℕ) (cfg : ObservationProjectionConfig)
    (blockChars : ℕ → ℕ) (residueChars blocks : ℕ) (selected : List (ℕ × ℤ)) :
    (pruneForResidue total cfg blockChars residueChars blocks selected).Sublist selected := by
  induction blocks generalizing selected with
  | zero => exact List.Sublist.refl _
  | succ blocks ih =>
    rw [pruneForResidue]
    split
    · exact List.Sublist.refl _
    · split
      · exact List.Sublist.refl _
      · exact (ih _).trans (without_sublist selected _)

end Budget

section Congruence

variable {X : Crates} {total : ℕ} {rowAt rowAt' : ℕ → Option Observation}
  {cfg : ObservationProjectionConfig} {source source' : ResidueSource}

lemma assemble_congr {selected : List ℕ} {residue : ResidueRender}
    (hrows : ∀ idx ∈ selected, rowAt idx = rowAt' idx) :
    assemble X total selected rowAt cfg residue = assemble X total selected rowAt' cfg residue := by
  have hrender : renderProjectionRows X total selected rowAt cfg.perBodyExcerptChars
      = renderProjectionRows X total selected rowAt' cfg.perBodyExcerptChars := by
    unfold renderProjectionRows
    rw [filterMap_congr fun idx hidx => by rw [hrows idx hidx]]
  unfold assemble
  rw [hrender]

lemma blockChars_congr {selected : List (ℕ × ℤ)}
    (hrows : ∀ idx ∈ selected.map Prod.fst, rowAt idx = rowAt' idx) :
    blockChars X total selected rowAt cfg = blockChars X total selected rowAt' cfg := by
  unfold blockChars
  rw [filterMap_congr fun pair hpair => by rw [hrows pair.1 (mem_map_of_mem hpair)]]

lemma assembleWithResidue_congr {selected : List (ℕ × ℤ)} {chars : ℕ → ℕ}
    {residue : ResidueRender} (hrows : ∀ idx ∈ selected.map Prod.fst, rowAt idx = rowAt' idx) :
    assembleWithResidue X total selected rowAt cfg chars residue
      = assembleWithResidue X total selected rowAt' cfg chars residue := by
  unfold assembleWithResidue
  split
  · exact assemble_congr hrows
  · have hsub := (pruneForResidue_sublist total cfg chars residue.charCount maxResiduePrunedBlocks
      selected).map Prod.fst
    exact assemble_congr fun idx hidx => hrows idx (hsub.subset hidx)

lemma projectFromRows_congr {selected : List (ℕ × ℤ)}
    (hrows : ∀ idx ∈ selected.map Prod.fst, rowAt idx = rowAt' idx)
    (hresidue : cfg.verbatimResidue → ∀ kept : List ℕ, kept.Sublist (selected.map Prod.fst) →
      source.residue X kept rowAt total cfg = source'.residue X kept rowAt' total cfg) :
    projectFromRows X total selected rowAt cfg source
      = projectFromRows X total selected rowAt' cfg source' := by
  unfold projectFromRows
  dsimp only
  rw [blockChars_congr hrows]
  have hpruned := (pruneToBudget_sublist total cfg.maxTotalChars
    (blockChars X total selected rowAt' cfg) selected
    (selected.map fun pair => blockChars X total selected rowAt' cfg pair.1).sum).map Prod.fst
  by_cases hverbatim : cfg.verbatimResidue
  · rw [if_pos hverbatim, if_pos hverbatim, hresidue hverbatim _ hpruned]
    exact assembleWithResidue_congr fun idx hidx => hrows idx (hpruned.subset hidx)
  · rw [if_neg hverbatim, if_neg hverbatim]
    exact assembleWithResidue_congr fun idx hidx => hrows idx (hpruned.subset hidx)

end Congruence

def projectObservations (X : Crates) (observations : List Observation)
    (cfg : ObservationProjectionConfig) : ProjectedObservations :=
  match projectionEarlyReturn observations.length cfg with
  | some early => early.rendered
  | none =>
    let total := observations.length
    let scores := observations.zipIdx.map fun row => observationScore row.1 row.2 total
    let selected := selectObservationIndices total cfg.maxSelectedObservations scores
    projectFromRows X total (selected.map fun idx => (idx, scores.getD idx 0))
      (fun idx => observations[idx]?) cfg (.inMemory observations)

/-! ### A streamed snapshot -/

/-- What a session's query gives: its rows in capture order, under different `rowid`s. -/
structure SessionObservationSnapshot where
  rows : List (ℤ × Observation)
  rowids : KeyUnique Prod.fst rows

variable (snap : SessionObservationSnapshot)

def SessionObservationSnapshot.rowByRowid (rowid : ℤ) :
    Option Observation :=
  (snap.rows.find? fun row => row.1 = rowid).map Prod.snd

/-- The best rows so far, by ascending selection key and position; each with its score and its
`rowid`. -/
structure BoundedTopK where
  entries : List ((ℤ ×ₗ ℕ) × (ℤ × ℤ))
  capacity : ℕ
  highWater : ℕ

namespace BoundedTopK

def new (capacity : ℕ) : BoundedTopK := ⟨[], capacity, 0⟩

variable (topK : BoundedTopK)

def put (entries : List ((ℤ ×ₗ ℕ) × (ℤ × ℤ))) : BoundedTopK :=
  { topK with entries := entries, highWater := max topK.highWater entries.length }

/-- A row is admitted while there is room, and then in the place of a weaker one. -/
def insert (key : ℤ) (idx : ℕ) (score rowid : ℤ) : BoundedTopK :=
  if topK.capacity = 0 then topK
  else if topK.entries.length < topK.capacity then
    topK.put (insertKey (toLex (key, idx)) (score, rowid) topK.entries)
  else match topK.entries.head? with
    | none => topK
    | some weakest =>
      if weakest.1 < toLex (key, idx) then
        topK.put (insertKey (toLex (key, idx)) (score, rowid) (removeKey weakest.1 topK.entries))
      else topK

def finish : List (ℕ × ℤ × ℤ) :=
  topK.entries.map fun entry => ((ofLex entry.1).2, entry.2)

end BoundedTopK

structure Scan where
  idx : ℕ
  topK : BoundedTopK
  anchor0Rowid : Option ℤ
  lastRowid : Option ℤ
  passOne : List ResidueCandidate
  passTwo : List ResidueCandidate

def Scan.start (limit : ℕ) : Scan := ⟨0, .new (limit - 2), none, none, [], []⟩

def Scan.visit (X : Crates) (cfg : ObservationProjectionConfig) (total : ℕ) (scan : Scan)
    (row : ℤ × Observation) : Scan :=
  let (rowid, obs) := row
  let score := observationScore obs scan.idx total
  let found := fun pass =>
    if cfg.verbatimResidue then (residueCandidate X total scan.idx rowid obs pass).toList else []
  { idx := scan.idx + 1
    topK := if isHardAnchor total scan.idx then scan.topK
      else scan.topK.insert (selectionKey score scan.idx (evenSampleIndices total)) scan.idx score
        rowid
    anchor0Rowid := if scan.idx = 0 then some rowid else scan.anchor0Rowid
    lastRowid := if scan.idx = 0 then scan.lastRowid else some rowid
    passOne := scan.passOne ++ found .one
    passTwo := scan.passTwo ++ found .two }

/-- The `rowid` of a selected position. -/
def Scan.rowidAt (scan : Scan) (total idx : ℕ) : Option ℤ :=
  if idx = 0 then scan.anchor0Rowid
  else if idx = total - 1 then scan.lastRowid
  else (scan.topK.finish.find? fun kept => kept.1 = idx).map fun kept => kept.2.2

structure BoundedProjectionStats where
  residentHighWater : ℕ
  heapHighWater : ℕ
  residueCandidatesHighWater : ℕ

def readSelected (scan : Scan) (idx : ℕ) :
    Except StoreError (ℕ × ℤ × Observation) :=
  match (scan.rowidAt snap.rows.length idx).bind snap.rowByRowid with
  | none => .error .sessionCollision
  | some obs => .ok (idx, observationScore obs idx snap.rows.length, obs)

def projectSessionObservations (X : Crates) (snap : SessionObservationSnapshot)
    (cfg : ObservationProjectionConfig) :
    Except StoreError (Option (ProjectedObservations × BoundedProjectionStats)) :=
  let total := snap.rows.length
  match projectionEarlyReturn total cfg with
  | some .empty => .ok none
  | some (.noBudget projected) => .ok (some (projected, ⟨0, 0, 0⟩))
  | none =>
    if total ≤ cfg.maxSelectedObservations then
      let rows := snap.rows.map Prod.snd
      .ok (some (projectObservations X rows cfg, ⟨rows.length + 1, 0, 0⟩))
    else do
      let limit := cfg.maxSelectedObservations
      let scan := snap.rows.foldl (Scan.visit X cfg total) (.start limit)
      let selectedIdx := (scan.topK.finish.map Prod.fst ++ (if 2 ≤ limit then [0] else [])
        ++ [total - 1]).insertionSort (· ≤ ·)
      let selected ← selectedIdx.mapM (readSelected snap scan)
      let rowAt := fun idx => (selected.find? fun row => row.1 = idx).map fun row => row.2.2
      let fetch := fun rowid => do
        let obs ← snap.rowByRowid rowid
        let text ← residueCandidateText obs
        pure (obs, text)
      let projected := projectFromRows X total (selected.map fun row => (row.1, row.2.1)) rowAt cfg
        (.fetched scan.passOne scan.passTwo fetch)
      pure (some (projected,
        ⟨selected.length + 1, scan.topK.highWater,
          if cfg.verbatimResidue then max scan.passOne.length scan.passTwo.length else 0⟩))

end Consolidate
