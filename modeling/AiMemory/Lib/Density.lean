/-
Density clusters of a set of points.

Some points are core points. A cluster holds the core points that a chain of neighbouring
core points joins, and with them the border points, which neighbour one of its core points.
-/
import Mathlib.Logic.Relation
import Mathlib.Data.List.Nodup

namespace Density

variable {Point : Type}

section

variable (near : Point → Point → Prop) (core : Point → Prop)

def Linked (p q : Point) : Prop :=
  core p ∧ core q ∧ near p q

def Joined : Point → Point → Prop :=
  Relation.ReflTransGen (Linked near core)

/-- What the clusters of a density search are, whatever order it takes. -/
structure DensityClusters (clusters : List (List Point)) : Prop where
  nodup : ∀ members ∈ clusters, members.Nodup
  disjoint : clusters.Pairwise List.Disjoint
  /-- Every core point is in exactly one cluster. -/
  core_once : ∀ p, core p → ∃! j : Fin clusters.length, p ∈ clusters[j]
  core_together : ∀ p q, core p → core q →
    ((∃ members ∈ clusters, p ∈ members ∧ q ∈ members) ↔ Joined near core p q)
  border_iff : ∀ p, ¬ core p → ((∃ members ∈ clusters, p ∈ members) ↔
    ∃ members ∈ clusters, ∃ q ∈ members, core q ∧ near p q)
  /-- A border point is in no cluster but one that it neighbours. -/
  border_near : ∀ p, ¬ core p → ∀ members ∈ clusters, p ∈ members →
    ∃ q ∈ members, core q ∧ near p q

/-- A cluster that was collected from a core point, one neighbour after another. -/
structure Grown (seed : Point) (members : List Point) : Prop where
  seed_core : core seed
  seed_mem : seed ∈ members
  nodup : members.Nodup
  reached : ∀ m ∈ members, m = seed ∨
    ∃ q ∈ members, core q ∧ Joined near core seed q ∧ near q m

end

variable {near : Point → Point → Prop} {core : Point → Prop} {p q seed : Point}
  {members : List Point} {clusters : List (List Point)}

lemma Joined.link (h : Joined near core seed p) (hp : core p) (hq : core q)
    (hnear : near p q) : Joined near core seed q :=
  h.tail ⟨hp, hq, hnear⟩

lemma Joined.symm (hsymm : ∀ p q, near p q → near q p) (h : Joined near core p q) :
    Joined near core q p := by
  induction h with
  | refl => exact .refl
  | tail _ hlink ih =>
    obtain ⟨hb, hc, hnear⟩ := hlink
    exact .head ⟨hc, hb, hsymm _ _ hnear⟩ ih

lemma Joined.mem (hclosed : ∀ p ∈ members, core p → ∀ q, core q → near p q → q ∈ members)
    (h : Joined near core p q) (hp : p ∈ members) : q ∈ members := by
  induction h with
  | refl => exact hp
  | tail _ hlink ih =>
    obtain ⟨hb, hc, hnear⟩ := hlink
    exact hclosed _ ih hb _ hc hnear

lemma Grown.joined (h : Grown near core seed members) (hm : p ∈ members) (hp : core p) :
    Joined near core seed p := by
  rcases h.reached p hm with rfl | ⟨q, _, hq, hjoined, hnear⟩
  · exact .refl
  · exact hjoined.link hq hp hnear

lemma Grown.border (h : Grown near core seed members) (hm : p ∈ members) (hp : ¬ core p) :
    ∃ q ∈ members, core q ∧ near q p := by
  rcases h.reached p hm with rfl | ⟨q, hq, hcore, _, hnear⟩
  · exact absurd h.seed_core hp
  · exact ⟨q, hq, hcore, hnear⟩

lemma eq_of_shared (hdisjoint : clusters.Pairwise List.Disjoint) {i j : ℕ}
    (hi : i < clusters.length) (hj : j < clusters.length) (hpi : p ∈ clusters[i])
    (hpj : p ∈ clusters[j]) : i = j := by
  rw [List.pairwise_iff_getElem] at hdisjoint
  rcases Nat.lt_trichotomy i j with hlt | heq | hlt
  · exact absurd hpj (hdisjoint i j hi hj hlt hpi)
  · exact heq
  · exact absurd hpi (hdisjoint j i hj hi hlt hpj)

/-- Disjoint grown clusters are the density clusters when they hold every core point, when a
core point's core neighbours are in its own cluster and all its neighbours in some. -/
theorem densityClusters_of_grown (hsymm : ∀ p q, near p q → near q p)
    (hdisjoint : clusters.Pairwise List.Disjoint)
    (hgrown : ∀ members ∈ clusters, ∃ seed, Grown near core seed members)
    (hclosed : ∀ members ∈ clusters, ∀ p ∈ members, core p → ∀ q, core q → near p q → q ∈ members)
    (hcores : ∀ p, core p → ∃ members ∈ clusters, p ∈ members)
    (hborders : ∀ members ∈ clusters, ∀ p ∈ members, core p → ∀ q, near p q →
      ∃ others ∈ clusters, q ∈ others) :
    DensityClusters near core clusters where
  nodup members hmem := by
    obtain ⟨_, h⟩ := hgrown members hmem
    exact h.nodup
  disjoint := hdisjoint
  core_once p hp := by
    obtain ⟨members, hmem, hpm⟩ := hcores p hp
    obtain ⟨j, hj, rfl⟩ := List.getElem_of_mem hmem
    refine ⟨⟨j, hj⟩, hpm, fun i hpi => Fin.ext ?_⟩
    exact eq_of_shared hdisjoint i.isLt hj hpi hpm
  core_together p q hp hq := by
    constructor
    · rintro ⟨members, hmem, hpm, hqm⟩
      obtain ⟨seed, h⟩ := hgrown members hmem
      exact ((h.joined hpm hp).symm hsymm).trans (h.joined hqm hq)
    · intro hjoined
      obtain ⟨members, hmem, hpm⟩ := hcores p hp
      exact ⟨members, hmem, hpm, hjoined.mem (hclosed members hmem) hpm⟩
  border_iff p hp := by
    constructor
    · rintro ⟨members, hmem, hpm⟩
      obtain ⟨seed, h⟩ := hgrown members hmem
      obtain ⟨q, hqm, hq, hnear⟩ := h.border hpm hp
      exact ⟨members, hmem, q, hqm, hq, hsymm q p hnear⟩
    · rintro ⟨members, hmem, q, hqm, hq, hnear⟩
      exact hborders members hmem q hqm hq p (hsymm p q hnear)
  border_near p hp members hmem hpm := by
    obtain ⟨seed, h⟩ := hgrown members hmem
    obtain ⟨q, hqm, hq, hnear⟩ := h.border hpm hp
    exact ⟨q, hqm, hq, hsymm q p hnear⟩

end Density
