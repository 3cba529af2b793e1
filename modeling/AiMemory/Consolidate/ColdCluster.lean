/-
The density clusters of the cold pages (`ai-memory-consolidate`, `cold_cluster.rs`).

The points are the numbers below `n`. The test that the cosine distance of two points is at
most `eps` is a relation `near` between them.
-/
import AiMemory.Lib.Density
import Mathlib.Data.Fintype.Card

open Density List

namespace Consolidate

open Function (update_of_ne)

inductive Label
  | unvisited
  | noise
  | clustered (cluster : ℕ)
  deriving DecidableEq

def Label.isOpen : Label → Bool
  | .unvisited | .noise => true
  | .clustered _ => false

@[simp] lemma Label.isOpen_clustered (cluster : ℕ) : (clustered cluster).isOpen = false := rfl

lemma Label.isOpen_eq_false {label : Label} (h : label.isOpen = false) :
    ∃ cluster, label = .clustered cluster := by
  cases label with
  | unvisited | noise => cases h
  | clustered cluster => exact ⟨cluster, rfl⟩

variable {n : ℕ}

def regionQuery (near : Fin n → Fin n → Bool) (idx : Fin n) : List (Fin n) :=
  (List.finRange n).filter (near idx)

def openPoints (labels : Fin n → Label) : ℕ :=
  (Finset.univ.filter fun p => (labels p).isOpen).card

lemma openPoints_update {labels : Fin n → Label} {q : Fin n} (hopen : (labels q).isOpen)
    (cluster : ℕ) :
    openPoints (Function.update labels q (.clustered cluster)) < openPoints labels := by
  refine Finset.card_lt_card ((Finset.ssubset_iff_of_subset ?_).mpr ⟨q, ?_, ?_⟩)
  · intro p hp
    simp only [Finset.mem_filter, Finset.mem_univ, true_and] at hp ⊢
    by_cases hpq : p = q
    · rwa [hpq]
    · rwa [update_of_ne hpq] at hp
  · simpa using hopen
  · simp

/-- One cluster is expanded over its queue. Every point that leaves an open label closes it,
so the loop ends although the queue grows and holds points more than once. -/
def expand (near : Fin n → Fin n → Bool) (minPts cluster : ℕ) (labels : Fin n → Label)
    (members : List (Fin n)) (queue : List (Fin n)) : (Fin n → Label) × List (Fin n) :=
  match queue with
  | [] => (labels, members)
  | q :: queue =>
    match _hq : labels q with
    -- a border point is attached, but not expanded
    | .noise =>
      expand near minPts cluster (Function.update labels q (.clustered cluster))
        (members ++ [q]) queue
    | .unvisited =>
      let labels' := Function.update labels q (.clustered cluster)
      let neighbors := regionQuery near q
      if minPts ≤ neighbors.length then
        expand near minPts cluster labels' (members ++ [q])
          (queue ++ neighbors.filter fun nb => (labels' nb).isOpen)
      else expand near minPts cluster labels' (members ++ [q]) queue
    | .clustered _ => expand near minPts cluster labels members queue
termination_by (openPoints labels, queue.length)
decreasing_by
  · exact .left _ _ (openPoints_update (by rw [_hq]; rfl) cluster)
  · exact .left _ _ (openPoints_update (by rw [_hq]; rfl) cluster)
  · exact .left _ _ (openPoints_update (by rw [_hq]; rfl) cluster)
  · exact .right _ (Nat.lt_succ_self _)

def visitPoint (near : Fin n → Fin n → Bool) (minPts : ℕ)
    (state : (Fin n → Label) × List (List (Fin n))) (i : Fin n) :
    (Fin n → Label) × List (List (Fin n)) :=
  let (labels, clusters) := state
  if labels i ≠ .unvisited then state
  else
    let neighbors := regionQuery near i
    if neighbors.length < minPts then (Function.update labels i .noise, clusters)
    else
      let cluster := clusters.length
      let (labels, members) := expand near minPts cluster
        (Function.update labels i (.clustered cluster)) [i] neighbors
      (labels, clusters ++ [members])

def dbscan (near : Fin n → Fin n → Bool) (minPts : ℕ) : List (List (Fin n)) :=
  ((List.finRange n).foldl (visitPoint near minPts) (fun _ => .unvisited, [])).2

/-- A core point has at least `minPts` points within reach. -/
def Core (near : Fin n → Fin n → Bool) (minPts : ℕ) (p : Fin n) : Prop :=
  minPts ≤ (Finset.univ.filter fun q => near p q).card

variable {near : Fin n → Fin n → Bool} {minPts : ℕ}

lemma mem_regionQuery {p q : Fin n} : q ∈ regionQuery near p ↔ near p q := by
  simp [regionQuery]

lemma length_regionQuery (p : Fin n) :
    (regionQuery near p).length = (Finset.univ.filter fun q => near p q).card := by
  have hnodup : (regionQuery near p).Nodup := (nodup_finRange n).filter _
  rw [← toFinset_card_of_nodup hnodup]
  congr 1
  ext q
  simp [mem_regionQuery]

lemma core_iff {p : Fin n} : Core near minPts p ↔ minPts ≤ (regionQuery near p).length := by
  rw [Core, length_regionQuery]

/-- What holds while the cluster of a seed is expanded: `before` are the labels that the other
clusters and the noise had. -/
structure Growing (near : Fin n → Fin n → Bool) (minPts cluster : ℕ) (before : Fin n → Label)
    (seed : Fin n) (labels : Fin n → Label) (members queue : List (Fin n)) : Prop where
  grown : Grown (near · ·) (Core near minPts) seed members
  mine : ∀ p, labels p = .clustered cluster ↔ p ∈ members
  kept : ∀ p, p ∉ members → labels p = before p
  fresh : ∀ p ∈ members, (before p).isOpen
  queued : ∀ q ∈ queue, ∃ p ∈ members, Core near minPts p ∧ near p q
  covered : ∀ p ∈ members, Core near minPts p → ∀ q, near p q →
    q ∈ queue ∨ (labels q).isOpen = false

variable {cluster : ℕ} {before labels : Fin n → Label} {seed q : Fin n}
  {members queue : List (Fin n)}

lemma Growing.attach (h : Growing near minPts cluster before seed labels members (q :: queue))
    (hopen : (labels q).isOpen) {more : List (Fin n)}
    (hmore : ∀ nb ∈ more, Core near minPts q ∧ near q nb)
    (hall : Core near minPts q → ∀ nb, near q nb → nb ∈ more ∨
      (Function.update labels q (.clustered cluster) nb).isOpen = false) :
    Growing near minPts cluster before seed (Function.update labels q (.clustered cluster))
      (members ++ [q]) (queue ++ more) := by
  have hnew : q ∉ members := by
    intro hq
    rw [(h.mine q).mpr hq] at hopen
    cases hopen
  obtain ⟨origin, horigin, hdense, hreach⟩ := h.queued q mem_cons_self
  constructor
  case grown =>
    refine ⟨h.grown.seed_core, mem_append_left _ h.grown.seed_mem, ?_, ?_⟩
    · exact h.grown.nodup.append (nodup_singleton q) (by simpa using hnew)
    · intro m hm
      rcases mem_append.mp hm with hm | hm
      · rcases h.grown.reached m hm with rfl | ⟨p, hp, hreach⟩
        · exact .inl rfl
        · exact .inr ⟨p, mem_append_left _ hp, hreach⟩
      · obtain rfl := mem_singleton.mp hm
        exact .inr ⟨origin, mem_append_left _ horigin, hdense,
          h.grown.joined horigin hdense, hreach⟩
  case mine =>
    intro r
    by_cases hr : r = q
    · simp [hr]
    · rw [update_of_ne hr, h.mine r]
      simp [hr]
  case kept =>
    intro r hr
    rw [mem_append, mem_singleton, not_or] at hr
    rw [update_of_ne hr.2]
    exact h.kept r hr.1
  case fresh =>
    intro r hr
    rcases mem_append.mp hr with hr | hr
    · exact h.fresh r hr
    · obtain rfl := mem_singleton.mp hr
      rwa [← h.kept r hnew]
  case queued =>
    intro r hr
    rcases mem_append.mp hr with hr | hr
    · obtain ⟨p, hp, hreach⟩ := h.queued r (mem_cons_of_mem _ hr)
      exact ⟨p, mem_append_left _ hp, hreach⟩
    · exact ⟨q, mem_append_right _ (mem_singleton_self q), hmore r hr⟩
  case covered =>
    intro p hp hcore r hnear
    rcases mem_append.mp hp with hp | hp
    · by_cases hr : r = q
      · right
        rw [hr, Function.update_self, Label.isOpen_clustered]
      · rw [update_of_ne hr]
        rcases h.covered p hp hcore r hnear with hqueue | hclosed
        · rcases mem_cons.mp hqueue with heq | hqueue
          · exact absurd heq hr
          · exact .inl (mem_append_left _ hqueue)
        · exact .inr hclosed
    · obtain rfl := mem_singleton.mp hp
      rcases hall hcore r hnear with hr | hr
      · exact .inl (mem_append_right _ hr)
      · exact .inr hr

lemma Growing.skip (h : Growing near minPts cluster before seed labels members (q :: queue))
    (hclosed : (labels q).isOpen = false) :
    Growing near minPts cluster before seed labels members queue where
  grown := h.grown
  mine := h.mine
  kept := h.kept
  fresh := h.fresh
  queued r hr := h.queued r (mem_cons_of_mem _ hr)
  covered p hp hcore r hnear := by
    rcases h.covered p hp hcore r hnear with hqueue | hr
    · rcases mem_cons.mp hqueue with rfl | hqueue
      · exact .inr hclosed
      · exact .inl hqueue
    · exact .inr hr

lemma growing_expand (hsparse : ∀ p, before p = .noise → ¬ Core near minPts p)
    (h : Growing near minPts cluster before seed labels members queue) :
    Growing near minPts cluster before seed (expand near minPts cluster labels members queue).1
      (expand near minPts cluster labels members queue).2 [] := by
  induction labels, members, queue using expand.induct near minPts cluster with
  | case1 labels members =>
    rw [expand]
    exact h
  | case2 labels members q queue hq ih =>
    rw [expand, hq]
    -- noise, as the labels before had it, is no core point
    have hnew : q ∉ members := by
      intro hmem
      rw [(h.mine q).mpr hmem] at hq
      cases hq
    have hborder : ¬ Core near minPts q := hsparse q (by rw [← h.kept q hnew, hq])
    refine ih ?_
    rw [← append_nil queue]
    exact h.attach (by rw [hq]; rfl) (forall_mem_nil _) fun hcore => absurd hcore hborder
  | case3 labels members q queue hq labels' neighbors hdense ih =>
    rw [expand, hq]
    simp only [neighbors] at hdense
    simp only [if_pos hdense]
    refine ih (h.attach (by rw [hq]; rfl) ?_ ?_)
    · intro nb hnb
      exact ⟨core_iff.mpr hdense, mem_regionQuery.mp (mem_of_mem_filter hnb)⟩
    · intro _ nb hnear
      by_cases hlabel : (labels' nb).isOpen
      · exact .inl (mem_filter.mpr ⟨mem_regionQuery.mpr hnear, hlabel⟩)
      · exact .inr (Bool.eq_false_iff.mpr hlabel)
  | case4 labels members q queue hq labels' neighbors hdense ih =>
    rw [expand, hq]
    simp only [neighbors] at hdense
    simp only [if_neg hdense]
    refine ih ?_
    rw [← append_nil queue]
    exact h.attach (by rw [hq]; rfl) (forall_mem_nil _) fun hcore =>
      absurd (core_iff.mp hcore) hdense
  | case5 labels members q queue other hq ih =>
    rw [expand, hq]
    exact ih (h.skip (by rw [hq]; rfl))

/-! ### All clusters -/

/-- What holds between two rounds: a label names the cluster that holds its point, and every
cluster is grown and closed. -/
structure Clustering (near : Fin n → Fin n → Bool) (minPts : ℕ)
    (state : (Fin n → Label) × List (List (Fin n))) : Prop where
  labelled : ∀ p j, state.1 p = .clustered j ↔ ∃ members, state.2[j]? = some members ∧ p ∈ members
  sparse : ∀ p, state.1 p = .noise → ¬ Core near minPts p
  grown : ∀ members ∈ state.2, ∃ seed, Grown (near · ·) (Core near minPts) seed members
  covered : ∀ p j, state.1 p = .clustered j → Core near minPts p → ∀ q, near p q →
    (state.1 q).isOpen = false
  closed : ∀ p j, state.1 p = .clustered j → Core near minPts p → ∀ q, Core near minPts q →
    near p q → state.1 q = .clustered j

variable {clusters : List (List (Fin n))} {i : Fin n}

lemma clustering_start : Clustering near minPts (fun _ => .unvisited, []) := by
  constructor
  case labelled =>
    intro p j
    simp
  case sparse =>
    intro p hp
    cases hp
  case grown => exact forall_mem_nil _
  case covered =>
    intro p j hp
    cases hp
  case closed =>
    intro p j hp
    cases hp

lemma Clustering.noise (h : Clustering near minPts (labels, clusters))
    (hi : labels i = .unvisited) (hsparse : ¬ Core near minPts i) :
    Clustering near minPts (Function.update labels i .noise, clusters) := by
  have hclustered : ∀ p j, Function.update labels i .noise p = .clustered j ↔
      labels p = .clustered j := by
    intro p j
    by_cases hp : p = i
    · simp [hp, hi]
    · rw [update_of_ne hp]
  constructor
  case labelled =>
    intro p j
    rw [hclustered]
    exact h.labelled p j
  case sparse =>
    intro p (hp : Function.update labels i .noise p = .noise)
    by_cases hpi : p = i
    · rwa [hpi]
    · refine h.sparse p ?_
      rwa [update_of_ne hpi] at hp
  case grown => exact h.grown
  case covered =>
    intro p j hp hcore q hnear
    obtain ⟨j', hq⟩ := Label.isOpen_eq_false (h.covered p j ((hclustered p j).mp hp) hcore q hnear)
    exact congrArg Label.isOpen ((hclustered q j').mpr hq)
  case closed =>
    intro p j hp hcore q hq hnear
    rw [hclustered] at hp ⊢
    exact h.closed p j hp hcore q hq hnear

lemma Clustering.start (h : Clustering near minPts (labels, clusters))
    (hi : labels i = .unvisited) (hcore : Core near minPts i) :
    Growing near minPts clusters.length labels i
      (Function.update labels i (.clustered clusters.length)) [i] (regionQuery near i) := by
  constructor
  case grown =>
    refine ⟨hcore, mem_singleton_self i, nodup_singleton i, ?_⟩
    intro m hm
    exact .inl (mem_singleton.mp hm)
  case mine =>
    intro p
    by_cases hp : p = i
    · simp [hp]
    · rw [update_of_ne hp, h.labelled]
      simp [hp]
  case kept =>
    intro p hp
    rw [mem_singleton] at hp
    rw [update_of_ne hp]
  case fresh =>
    intro p hp
    rw [mem_singleton.mp hp, hi]
    rfl
  case queued =>
    intro q hq
    exact ⟨i, mem_singleton_self i, hcore, mem_regionQuery.mp hq⟩
  case covered =>
    intro p hp _ q hnear
    rw [mem_singleton.mp hp] at hnear
    exact .inl (mem_regionQuery.mpr hnear)

lemma Clustering.push (hsymm : ∀ p q, near p q → near q p)
    (h : Clustering near minPts (before, clusters))
    (hnew : Growing near minPts clusters.length before seed labels members []) :
    Clustering near minPts (labels, clusters ++ [members]) := by
  have hold : ∀ p j, before p = .clustered j → p ∉ members := by
    intro p j hp hmem
    have hfresh := hnew.fresh p hmem
    rw [hp] at hfresh
    cases hfresh
  -- a label of this state is that of the new cluster or one from before
  have hlabel : ∀ p j, labels p = .clustered j ↔
      j = clusters.length ∧ p ∈ members ∨ before p = .clustered j := by
    intro p j
    by_cases hp : p ∈ members
    · rw [(hnew.mine p).mpr hp, Label.clustered.injEq]
      constructor
      · intro hj
        exact .inl ⟨hj.symm, hp⟩
      · rintro (⟨hj, _⟩ | hbefore)
        · exact hj.symm
        · exact absurd hp (hold p j hbefore)
    · rw [hnew.kept p hp]
      simp [hp]
  constructor
  case labelled =>
    intro p j
    rw [hlabel, h.labelled]
    constructor
    · rintro (⟨rfl, hp⟩ | ⟨others, hj, hp⟩)
      · exact ⟨members, by simp, hp⟩
      · exact ⟨others, List.getElem?_append_left (List.getElem?_eq_some_iff.mp hj).1 ▸ hj, hp⟩
    · rintro ⟨others, hj, hp⟩
      rcases Nat.lt_or_ge j clusters.length with hlt | hge
      · rw [getElem?_append_left hlt] at hj
        exact .inr ⟨others, hj, hp⟩
      · rw [getElem?_append_right hge, getElem?_singleton] at hj
        split at hj
        · rename_i hzero
          cases hj
          exact .inl ⟨by omega, hp⟩
        · cases hj
  case sparse =>
    intro p (hp : labels p = .noise)
    have hmem : p ∉ members := by
      intro hmem
      rw [(hnew.mine p).mpr hmem] at hp
      cases hp
    exact h.sparse p ((hnew.kept p hmem).symm.trans hp)
  case grown =>
    intro others hothers
    rcases mem_append.mp hothers with hothers | hothers
    · exact h.grown others hothers
    · rw [mem_singleton.mp hothers]
      exact ⟨seed, hnew.grown⟩
  case covered =>
    intro p j hp hcore q hnear
    rcases (hlabel p j).mp hp with ⟨_, hmem⟩ | hbefore
    · rcases hnew.covered p hmem hcore q hnear with hq | hq
      · cases hq
      · exact hq
    · obtain ⟨j', hq⟩ := Label.isOpen_eq_false (h.covered p j hbefore hcore q hnear)
      exact congrArg Label.isOpen ((hlabel q j').mpr (.inr hq))
  case closed =>
    intro p j hp hcore q hq hnear
    rcases (hlabel p j).mp hp with ⟨rfl, hmem⟩ | hbefore
    · have hclosed : (labels q).isOpen = false := by
        rcases hnew.covered p hmem hcore q hnear with hqueue | hclosed
        · cases hqueue
        · exact hclosed
      obtain ⟨j', hlabelled⟩ := Label.isOpen_eq_false hclosed
      rcases (hlabel q j').mp hlabelled with ⟨_, hqmem⟩ | hqbefore
      · exact (hnew.mine q).mpr hqmem
      · exact absurd hmem (hold p j' (h.closed q j' hqbefore hq p hcore (hsymm p q hnear)))
    · exact (hlabel q j).mpr (.inr (h.closed p j hbefore hcore q hq hnear))

lemma clustering_visitPoint (hsymm : ∀ p q, near p q → near q p)
    {state : (Fin n → Label) × List (List (Fin n))} (h : Clustering near minPts state) (i : Fin n) :
    Clustering near minPts (visitPoint near minPts state i) ∧
      ∀ p, (p = i ∨ state.1 p ≠ .unvisited) →
        (visitPoint near minPts state i).1 p ≠ .unvisited := by
  obtain ⟨labels, clusters⟩ := state
  rw [visitPoint]
  by_cases hi : labels i = .unvisited
  · by_cases hcore : Core near minPts i
    · have hdense : ¬ (regionQuery near i).length < minPts :=
        Nat.not_lt.mpr (core_iff.mp hcore)
      simp only [hi, ne_eq, not_true_eq_false, if_false, if_neg hdense]
      have hgrown := growing_expand h.sparse (h.start hi hcore)
      refine ⟨h.push hsymm hgrown, ?_⟩
      intro p hp hopen
      have hmem : p ∉ (expand near minPts clusters.length
          (Function.update labels i (.clustered clusters.length)) [i] (regionQuery near i)).2 := by
        intro hmem
        rw [(hgrown.mine p).mpr hmem] at hopen
        cases hopen
      rcases hp with rfl | hp
      · exact hmem hgrown.grown.seed_mem
      · exact hp ((hgrown.kept p hmem).symm.trans hopen)
    · have hsparse : (regionQuery near i).length < minPts :=
        Nat.lt_of_not_le fun hle => hcore (core_iff.mpr hle)
      simp only [hi, ne_eq, not_true_eq_false, if_false, if_pos hsparse]
      refine ⟨h.noise hi hcore, ?_⟩
      intro p hp
      by_cases hpi : p = i
      · simp [hpi]
      · rw [update_of_ne hpi]
        exact hp.resolve_left hpi
  · simp only [ne_eq, hi, not_false_eq_true, if_true]
    refine ⟨h, ?_⟩
    rintro p (rfl | hp)
    · exact hi
    · exact hp

lemma clustering_foldl (hsymm : ∀ p q, near p q → near q p) (points : List (Fin n))
    {state : (Fin n → Label) × List (List (Fin n))} (h : Clustering near minPts state) :
    Clustering near minPts (points.foldl (visitPoint near minPts) state) ∧
      ∀ p, (p ∈ points ∨ state.1 p ≠ .unvisited) →
        (points.foldl (visitPoint near minPts) state).1 p ≠ .unvisited := by
  induction points generalizing state with
  | nil => exact ⟨h, fun p hp => hp.resolve_left (not_mem_nil)⟩
  | cons i points ih =>
    obtain ⟨hvisit, hlabel⟩ := clustering_visitPoint hsymm h i
    obtain ⟨hrest, hlabels⟩ := ih hvisit
    refine ⟨hrest, fun p hp => hlabels p ?_⟩
    rcases hp with hp | hp
    · rcases mem_cons.mp hp with rfl | hp
      · exact .inr (hlabel p (.inl rfl))
      · exact .inl hp
    · exact .inr (hlabel p (.inr hp))

/-- The clusters are the density clusters of the points, whatever their number, the density
floor and the relation of neighbours. -/
theorem dbscan_densityClusters (near : Fin n → Fin n → Bool) (minPts : ℕ)
    (hsymm : ∀ p q, near p q → near q p) :
    DensityClusters (near · ·) (Core near minPts) (dbscan near minPts) := by
  obtain ⟨h, hvisited⟩ := clustering_foldl hsymm (List.finRange n) (clustering_start)
  have hmem : ∀ members ∈ dbscan near minPts, ∃ j, (dbscan near minPts)[j]? = some members :=
    fun members hmembers => mem_iff_getElem?.mp hmembers
  refine densityClusters_of_grown hsymm ?_ h.grown ?_ ?_ ?_
  · rw [pairwise_iff_getElem]
    intro i j hi hj hlt p hpi hpj
    have hfirst := (h.labelled p i).mpr ⟨_, getElem?_eq_getElem hi, hpi⟩
    have hsecond := (h.labelled p j).mpr ⟨_, getElem?_eq_getElem hj, hpj⟩
    rw [hfirst, Label.clustered.injEq] at hsecond
    omega
  · intro members hmembers p hp hcore q hq hnear
    obtain ⟨j, hj⟩ := hmem members hmembers
    have hlabel := h.closed p j ((h.labelled p j).mpr ⟨members, hj, hp⟩) hcore q hq hnear
    obtain ⟨others, hothers, hqmem⟩ := (h.labelled q j).mp hlabel
    cases Option.some.inj (hj.symm.trans hothers)
    exact hqmem
  · intro p hcore
    have hlabel := hvisited p (.inl (mem_finRange p))
    cases hp : ((List.finRange n).foldl (visitPoint near minPts) (fun _ => .unvisited, [])).1 p with
    | unvisited => exact absurd hp hlabel
    | noise => exact absurd hcore (h.sparse p hp)
    | clustered j =>
      obtain ⟨members, hj, hmembers⟩ := (h.labelled p j).mp hp
      exact ⟨members, mem_of_getElem? hj, hmembers⟩
  · intro members hmembers p hp hcore q hnear
    obtain ⟨j, hj⟩ := hmem members hmembers
    have hclosed := h.covered p j ((h.labelled p j).mpr ⟨members, hj, hp⟩) hcore q hnear
    obtain ⟨j', hq⟩ := Label.isOpen_eq_false hclosed
    obtain ⟨others, hothers, hqmem⟩ := (h.labelled q j').mp hq
    exact ⟨others, mem_of_getElem? hothers, hqmem⟩

/-- Three points in a row, the middle one next to both. -/
theorem dbscan_densityClusters_row :
    DensityClusters (fun p q : Fin 3 => p.val ≤ q.val + 1 ∧ q.val ≤ p.val + 1)
      (Core (fun p q : Fin 3 => decide (p.val ≤ q.val + 1 ∧ q.val ≤ p.val + 1)) 2)
      (dbscan (fun p q : Fin 3 => decide (p.val ≤ q.val + 1 ∧ q.val ≤ p.val + 1)) 2) := by
  have h := dbscan_densityClusters
    (fun p q : Fin 3 => decide (p.val ≤ q.val + 1 ∧ q.val ≤ p.val + 1)) 2 (by
      intro p q hnear
      rw [decide_eq_true_eq] at hnear ⊢
      exact ⟨hnear.2, hnear.1⟩)
  simpa only [decide_eq_true_eq] using h

end Consolidate
