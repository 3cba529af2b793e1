/-
Which project a name leads to (`ai-memory-store/src/project_coordinates.rs`).

The lookup reads at most a few rows by each kind of name, and a few of them all.  A
name that leads to one project must still not be taken for unique when it leads to
several, and the other way round.
-/
import AiMemory.Store.Identity

open List

namespace Projects

open Store

def HasName (requested : String) (p : Project) : Bool :=
  p.name = requested || (p.canonicalName = requested && p.canonicalName ≠ "")
    || (p.legacyName = requested && p.legacyName ≠ "")

def rowsOf (reg : Registry) (ws : WorkspaceId) : List Project :=
  reg.projects.filter fun p => p.workspaceId = ws

def holders (reg : Registry) (ws : WorkspaceId) (requested : String) : List Project :=
  (rowsOf reg ws).filter (HasName requested)

section

variable {α : Type}

def found (rows : List α) (key : α → Bool) (bound : ℕ) : List α := (rows.filter key).take bound

lemma of_mem_found {rows : List α} {key : α → Bool} {bound : ℕ} {a : α}
    (h : a ∈ found rows key bound) : key a :=
  (mem_filter.mp (mem_of_mem_take h)).2

lemma mem_found_iff {rows : List α} {key : α → Bool} {bound : ℕ}
    (h : (rows.filter key).length ≤ bound) {a : α} (ha : a ∈ rows) :
    a ∈ found rows key bound ↔ key a := by
  rw [found, take_of_length_le h, mem_filter]
  exact and_iff_right ha

lemma le_length_of_found {rows : List α} {key flag : α → Bool} {bound : ℕ}
    (h : bound ≤ (rows.filter key).length)
    (hflag : ∀ a ∈ found rows key bound, flag a = true) : bound ≤ (rows.filter flag).length := by
  have hsub : (found rows key bound).Sublist (rows.filter flag) := by
    have hrows : (found rows key bound).Sublist rows :=
      (take_sublist _ _).trans filter_sublist
    have hall := hrows.filter flag
    rwa [filter_eq_self.mpr hflag] at hall
  have hlen := hsub.length_le
  rwa [found, length_take, Nat.min_eq_left h] at hlen

lemma filter_found_eq_or [DecidableEq α] (rows : List α) (exact_ first second : α → Bool) (bound : ℕ) :
    (rows.filter fun a => exact_ a || decide (a ∈ found rows first bound)
        || decide (a ∈ found rows second bound)) =
      (rows.filter fun a => exact_ a || first a || second a) ∨
    bound ≤ (rows.filter fun a => exact_ a || decide (a ∈ found rows first bound)
        || decide (a ∈ found rows second bound)).length := by
  by_cases hfirst : (rows.filter first).length ≤ bound
  · by_cases hsecond : (rows.filter second).length ≤ bound
    · left
      refine filter_congr fun a ha => ?_
      rw [Bool.eq_iff_iff]
      simp only [Bool.or_eq_true, decide_eq_true_eq, mem_found_iff hfirst ha,
        mem_found_iff hsecond ha]
    · right
      have hle : bound ≤ (rows.filter second).length := by omega
      refine le_length_of_found hle fun a ha => ?_
      rw [decide_eq_true ha, Bool.or_true]
  · right
    have hle : bound ≤ (rows.filter first).length := by omega
    refine le_length_of_found hle fun a ha => ?_
    rw [decide_eq_true ha, Bool.or_true, Bool.true_or]

end

/-! ### The lookup by a name -/

variable (N : NameCodec) (reg : Registry) (ws : WorkspaceId) (requested : String)

def nameMatch (p : Project) : ProjectCoordinateMatch where
  project := p
  provenance :=
    { exact := p.name = requested
      canonicalCompat := p ∈ found (rowsOf reg ws)
        (fun p => p.canonicalName = requested && p.canonicalName ≠ "") maxCoordinateRows
      legacyCompat := p ∈ found (rowsOf reg ws)
        (fun p => p.legacyName = requested && p.legacyName ≠ "") maxCoordinateRows
      identity := false
      canonicalTarget := false }

def requestedRows : List Project :=
  (rowsOf reg ws).filter fun p => (nameMatch reg ws requested p).provenance.requested

lemma requestedRows_eq_or :
    requestedRows reg ws requested = holders reg ws requested ∨
      maxCoordinateRows ≤ (requestedRows reg ws requested).length ∧
        maxCoordinateRows ≤ (holders reg ws requested).length := by
  rcases filter_found_eq_or (rowsOf reg ws) (fun p => p.name = requested)
    (fun p => p.canonicalName = requested && p.canonicalName ≠ "")
    (fun p => p.legacyName = requested && p.legacyName ≠ "") maxCoordinateRows with heq | hle
  · exact .inl heq
  · refine .inr ⟨hle, Nat.le_trans hle ?_⟩
    -- whatever a lookup has found answers to the name
    refine List.Sublist.length_le (monotone_filter_right _ fun p hp => ?_)
    simp only [Bool.or_eq_true, decide_eq_true_eq] at hp
    rw [HasName]
    rcases hp with (hp | hp) | hp
    · rw [decide_eq_true hp, Bool.true_or, Bool.true_or]
    · rw [of_mem_found hp, Bool.or_true, Bool.true_or]
    · rw [of_mem_found hp, Bool.or_true]

lemma carries_nothing (s : String) : (decide (s = "") && decide (s ≠ "")) = false := by
  rw [Bool.and_eq_false_iff, decide_eq_false_iff_not, decide_eq_false_iff_not, not_not]
  exact (em (s = "")).symm

lemma coordinateMatches_none :
    (coordinateMatches N reg ws requested none).filter (·.provenance.requested) =
      (((requestedRows reg ws requested).map (nameMatch reg ws requested)).insertionSort
        ProjectCoordinateMatch.before).take maxCoordinateRows := by
  have hmatches : coordinateMatches N reg ws requested none =
      (((requestedRows reg ws requested).map (nameMatch reg ws requested)).insertionSort
        ProjectCoordinateMatch.before).take maxCoordinateRows := by
    rw [coordinateMatches, matchesBounded]
    congr 2
    -- no project carries the empty identity, and none is the target of an empty name
    have hrow : ∀ p, (⟨p, { exact := p.name = requested
                            canonicalCompat := p ∈ found (rowsOf reg ws)
                              (fun p => p.canonicalName = requested && p.canonicalName ≠ "")
                              maxCoordinateRows
                            legacyCompat := p ∈ found (rowsOf reg ws)
                              (fun p => p.legacyName = requested && p.legacyName ≠ "")
                              maxCoordinateRows
                            identity := p.identity = "" && p.identity ≠ ""
                            canonicalTarget := (p.name = "" && ("" : String) ≠ "")
                              || p ∈ found (rowsOf reg ws)
                                (fun p => p.canonicalName = "" && p.canonicalName ≠ "")
                                maxCoordinateRows }⟩ : ProjectCoordinateMatch) =
        nameMatch reg ws requested p := by
      intro p
      rw [nameMatch, carries_nothing]
      congr 2
      rw [Bool.or_eq_false_iff]
      refine ⟨Bool.and_false _, decide_eq_false fun hp => ?_⟩
      have hp := of_mem_found hp
      rw [carries_nothing] at hp
      exact Bool.false_ne_true hp
    refine (congrArg (List.filter _) (map_congr_left fun p _ => hrow p)).trans ?_
    rw [filter_map, requestedRows]
    congr 1
    refine filter_congr fun p _ => ?_
    show (_ || false || false) = _
    rw [Bool.or_false, Bool.or_false]
  rw [hmatches]
  refine filter_eq_self.mpr fun m hm => ?_
  have hm := (perm_insertionSort _ _).mem_iff.mp (mem_of_mem_take hm)
  obtain ⟨p, hp, rfl⟩ := mem_map.mp hm
  exact (mem_filter.mp hp).2

lemma resolve_eq : resolve N reg ws requested = match requestedRows reg ws requested with
    | [] => .ok none
    | [p] => .ok (some p)
    | _ => .error (.projectNameAmbiguous requested) := by
  rw [resolve, coordinateMatches_none]
  cases hrows : requestedRows reg ws requested with
  | nil => rfl
  | cons p rows =>
    cases rows with
    | nil => rfl
    | cons q rows =>
      -- two of the matches are left by the bound
      have hlen := length_insertionSort ProjectCoordinateMatch.before
        ((p :: q :: rows).map (nameMatch reg ws requested))
      rw [length_map, length_cons, length_cons] at hlen
      rcases hsort : ((p :: q :: rows).map (nameMatch reg ws requested)).insertionSort
          ProjectCoordinateMatch.before with _ | ⟨a, _ | ⟨b, rest⟩⟩
      · rw [hsort] at hlen
        cases hlen
      · rw [hsort, length_singleton] at hlen
        omega
      · rfl

lemma resolve_unique :
    (∀ p, resolve N reg ws requested = .ok (some p) ↔ holders reg ws requested = [p]) ∧
    (resolve N reg ws requested = .ok none ↔ holders reg ws requested = []) ∧
    (resolve N reg ws requested = .error (.projectNameAmbiguous requested) ↔
      2 ≤ (holders reg ws requested).length) := by
  have hbound : 2 ≤ maxCoordinateRows := by decide
  rw [resolve_eq]
  rcases requestedRows_eq_or reg ws requested with heq | ⟨hrows, hholders⟩
  · rw [heq]
    rcases holders reg ws requested with _ | ⟨p, _ | ⟨q, rest⟩⟩
    · simp
    · simp
    · simp
  · -- neither list has fewer than two
    rcases hr : requestedRows reg ws requested with _ | ⟨p, _ | ⟨q, rest⟩⟩
    · rw [hr, length_nil] at hrows
      omega
    · rw [hr, length_singleton] at hrows
      omega
    · rcases hh : holders reg ws requested with _ | ⟨p', _ | ⟨q', rest'⟩⟩
      · rw [hh, length_nil] at hholders
        omega
      · rw [hh, length_singleton] at hholders
        omega
      · simp

variable {reg ws requested}

/-- A project found by an alias carries the caller's remote. -/
theorem resolveAliases_identity {canonical : String} {aliases : List String}
    {repository : RepositoryIdentity} {p : Project}
    (h : resolveAliases reg ws canonical aliases repository = .ok (some p)) :
    (p ∈ reg.projects ∧ p.workspaceId = ws ∧ (p.name = canonical ∨ p.name ∈ aliases)) ∧
      p.identity = repository.identity ∧ p.identitySource = some .gitRemote := by
  have hcarries : ∀ q, (if carriesRemote q repository = true then
      (.ok (some q) : Except StoreError (Option Project))
      else .error (.projectNameAmbiguous canonical)) = .ok (some p) →
      q = p ∧ q.identity = repository.identity ∧ q.identitySource = some .gitRemote := by
    intro q hq
    split at hq
    · rename_i hcarry
      rw [carriesRemote, Bool.and_eq_true, decide_eq_true_eq, decide_eq_true_eq] at hcarry
      exact ⟨Option.some.inj (Except.ok.inj hq), hcarry⟩
    · cases hq
  rw [resolveAliases] at h
  split at h
  · cases h
  split at h
  · rename_i q hexact
    obtain ⟨rfl, hidentity⟩ := hcarries q h
    obtain ⟨hmem, hws, hname⟩ := exactMatch_some hexact
    exact ⟨⟨hmem, hws, .inl hname⟩, hidentity⟩
  · split at h
    · cases h
    · rename_i q rest hfound
      split at h
      · cases h
      · obtain ⟨rfl, hidentity⟩ := hcarries q h
        have hq : q ∈ aliases.filterMap (exactMatch reg ws) := hfound ▸ mem_cons_self
        obtain ⟨alias_, halias, hexact⟩ := mem_filterMap.mp hq
        obtain ⟨hmem, hws, rfl⟩ := exactMatch_some hexact
        exact ⟨⟨hmem, hws, .inr halias⟩, hidentity⟩

/-- The two lookups of coordinates: the bounded one by a name equals its specification, and the
one by aliases returns no project of another remote. -/
theorem coordinates_specified (N : NameCodec) (reg : Registry) (ws : WorkspaceId)
    (requested : String) :
    ((∀ p, resolve N reg ws requested = .ok (some p) ↔ holders reg ws requested = [p]) ∧
      (resolve N reg ws requested = .error (.projectNameAmbiguous requested) ↔
        2 ≤ (holders reg ws requested).length)) ∧
    ∀ canonical aliases repository p,
      resolveAliases reg ws canonical aliases repository = .ok (some p) →
        p.identity = repository.identity ∧ p.identitySource = some .gitRemote := by
  obtain ⟨hone, _, htwo⟩ := resolve_unique N reg ws requested
  refine ⟨⟨hone, htwo⟩, fun canonical aliases repository p h => ?_⟩
  exact (resolveAliases_identity h).2

/-- A repository that was cloned under its old name. -/
theorem coordinates_specified_moved :
    let reg : Registry := ⟨[], [⟨3, 0, "api", .open, none, "github.com/team/api",
      some .gitRemote, "team/api", "api"⟩], []⟩
    ∃ p, resolveAliases reg 0 "team/api" ["api"] ⟨"github.com/team/api", .gitRemote, by decide⟩ =
        .ok (some p) ∧
      p.identity = "github.com/team/api" ∧ p.identitySource = some .gitRemote := by
  intro reg
  have hrun : resolveAliases reg 0 "team/api" ["api"]
      ⟨"github.com/team/api", .gitRemote, by decide⟩ =
        .ok (some ⟨3, 0, "api", .open, none, "github.com/team/api", some .gitRemote,
          "team/api", "api"⟩) := by
    decide +kernel
  exact ⟨_, hrun, (coordinates_specified asciiNaming reg 0 "team/api").2 _ _ _ _ hrun⟩

end Projects
