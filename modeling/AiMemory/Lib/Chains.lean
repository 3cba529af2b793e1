/-
Chains of rows in a table.

Every row may point at one earlier row by its key, and no two rows point at
the same one: version histories, undo logs, forks of depth one.
-/
import Mathlib.Logic.Relation
import AiMemory.Lib.Table

open Relation Table List

namespace Chains

variable {ρ κ : Type*} (key : ρ → κ) (parent : ρ → Option κ)

/-- `a` points at `b`. -/
def Edge (t : List ρ) (a b : ρ) : Prop := a ∈ t ∧ b ∈ t ∧ parent a = some (key b)

structure Chained (t : List ρ) : Prop where
  keys : KeyUnique key t
  resolved : ∀ a ∈ t, ∀ k, parent a = some k → ∃ b ∈ t, key b = k
  single : ∀ a ∈ t, ∀ a' ∈ t, ∀ k, parent a = some k → parent a' = some k → a = a'
  backward : t.Pairwise fun a b => parent a ≠ some (key b)
  irrefl : ∀ a ∈ t, parent a ≠ some (key a)

variable {key parent} {t : List ρ}

lemma chained_nil : Chained key parent ([] : List ρ) where
  keys := nodup_nil
  resolved _ ha := absurd ha not_mem_nil
  single _ ha := absurd ha not_mem_nil
  backward := List.Pairwise.nil
  irrefl _ ha := absurd ha not_mem_nil

lemma Chained.update (h : Chained key parent t) {p : ρ → Bool} {f : ρ → ρ}
    (hkey : ∀ r, key (f r) = key r) (hparent : ∀ r, parent (f r) = parent r) :
    Chained key parent (update p f t) := by
  have hk : ∀ r, key (if p r then f r else r) = key r := fun r => by
    split
    · exact hkey r
    · rfl
  have hpar : ∀ r, parent (if p r then f r else r) = parent r := fun r => by
    split
    · exact hparent r
    · rfl
  refine ⟨h.keys.update hkey, ?_, ?_, ?_, ?_⟩
  · intro a' ha' k hak
    obtain ⟨a, ha, rfl⟩ := mem_update.mp ha'
    obtain ⟨b, hb, hbk⟩ := h.resolved a ha k ((hpar a).symm.trans hak)
    exact ⟨_, mem_update.mpr ⟨b, hb, rfl⟩, (hk b).trans hbk⟩
  · intro a' ha' b' hb' k hak hbk
    obtain ⟨a, ha, rfl⟩ := mem_update.mp ha'
    obtain ⟨b, hb, rfl⟩ := mem_update.mp hb'
    rw [h.single a ha b hb k ((hpar a).symm.trans hak) ((hpar b).symm.trans hbk)]
  · refine pairwise_map.mpr (h.backward.imp fun {a b} hab => ?_)
    rw [hpar, hk]
    exact hab
  · intro a' ha'
    obtain ⟨a, ha, rfl⟩ := mem_update.mp ha'
    rw [hpar, hk]
    exact h.irrefl a ha

lemma Chained.append (h : Chained key parent t) {r : ρ} (hfresh : ∀ a ∈ t, key a ≠ key r)
    (hresolved : ∀ k, parent r = some k → ∃ b ∈ t, key b = k)
    (hfree : ∀ k, parent r = some k → ∀ a ∈ t, parent a ≠ some k) :
    Chained key parent (t ++ [r]) := by
  have hnew : ∀ a ∈ t, parent a ≠ some (key r) := by
    intro a ha hpar
    obtain ⟨b, hb, hbk⟩ := h.resolved a ha _ hpar
    exact hfresh b hb hbk
  refine ⟨keyUnique_append_singleton.mpr ⟨h.keys, hfresh⟩, ?_, ?_, ?_, ?_⟩
  · intro a ha k hak
    have hold : ∃ b ∈ t, key b = k := by
      rcases mem_append.mp ha with ha | ha
      · exact h.resolved a ha k hak
      · rw [mem_singleton.mp ha] at hak
        exact hresolved k hak
    obtain ⟨b, hb, hbk⟩ := hold
    exact ⟨b, mem_append_left _ hb, hbk⟩
  · intro a ha b hb k hak hbk
    rcases mem_append.mp ha with ha | ha <;> rcases mem_append.mp hb with hb | hb
    · exact h.single a ha b hb k hak hbk
    · rw [mem_singleton.mp hb] at hbk
      exact absurd hak (hfree k hbk a ha)
    · rw [mem_singleton.mp ha] at hak
      exact absurd hbk (hfree k hak b hb)
    · rw [mem_singleton.mp ha, mem_singleton.mp hb]
  · refine pairwise_append.mpr ⟨h.backward, pairwise_singleton _ _, fun a ha b hb => ?_⟩
    rw [mem_singleton.mp hb]
    exact hnew a ha
  · intro a ha
    rcases mem_append.mp ha with ha | ha
    · exact h.irrefl a ha
    · rw [mem_singleton.mp ha]
      intro hself
      obtain ⟨b, hb, hbk⟩ := hresolved _ hself
      exact hfresh b hb hbk

lemma Chained.delete (h : Chained key parent t) {p gone : ρ → Bool} {f : ρ → ρ}
    (hkey : ∀ r, key (f r) = key r) (hnull : ∀ r, parent (f r) = none)
    (hgone : ∀ r, gone r = true ↔ ∃ k, parent r = some k ∧ ∃ b ∈ t, p b = true ∧ key b = k) :
    Chained key parent (Table.update gone f (Table.delete p t)) := by
  have hk : ∀ r, key (if gone r then f r else r) = key r := fun r => by
    split
    · exact hkey r
    · rfl
  have hpar : ∀ r k, parent (if gone r then f r else r) = some k →
      parent r = some k ∧ gone r = false := fun r k hrk => by
    by_cases hg : gone r
    · rw [if_pos hg, hnull] at hrk
      cases hrk
    · rw [if_neg hg] at hrk
      exact ⟨hrk, by simpa using hg⟩
  refine ⟨h.keys.delete.update hkey, ?_, ?_, ?_, ?_⟩
  · intro a' ha' k hak
    obtain ⟨a, ha, rfl⟩ := mem_update.mp ha'
    obtain ⟨hak, hg⟩ := hpar a k hak
    obtain ⟨b, hb, hbk⟩ := h.resolved a (delete_subset ha) k hak
    -- Had the row been taken, the pointer would have been nulled.
    have hkept : p b = false := by
      by_contra hpb
      have hyes := (hgone a).mpr ⟨k, hak, b, hb, by simpa using hpb, hbk⟩
      rw [hyes] at hg
      cases hg
    exact ⟨_, mem_update.mpr ⟨b, mem_delete.mpr ⟨hb, hkept⟩, rfl⟩, (hk b).trans hbk⟩
  · intro a' ha' b' hb' k hak hbk
    obtain ⟨a, ha, rfl⟩ := mem_update.mp ha'
    obtain ⟨b, hb, rfl⟩ := mem_update.mp hb'
    rw [h.single a (delete_subset ha) b (delete_subset hb) k (hpar a k hak).1 (hpar b k hbk).1]
  · refine pairwise_map.mpr ((h.backward.sublist filter_sublist).imp fun {a b} hab hnew => ?_)
    rw [hk] at hnew
    exact hab (hpar a _ hnew).1
  · intro a' ha' hself
    obtain ⟨a, ha, rfl⟩ := mem_update.mp ha'
    rw [hk] at hself
    exact h.irrefl a (delete_subset ha) (hpar a _ hself).1

lemma Chained.edge_lt [DecidableEq ρ] (h : Chained key parent t) {a b : ρ}
    (hab : Edge key parent t a b) : t.idxOf b < t.idxOf a := by
  obtain ⟨ha, hb, hpar⟩ := hab
  by_contra hle
  have hia := idxOf_lt_length_iff.mpr ha
  have hib := idxOf_lt_length_iff.mpr hb
  rcases Nat.lt_or_eq_of_le (Nat.le_of_not_lt hle) with hlt | heq
  · have hpw := pairwise_iff_getElem.mp h.backward _ _ hia hib hlt
    rw [getElem_idxOf hia, getElem_idxOf hib] at hpw
    exact hpw hpar
  · have hab : a = b := by
      rw [← getElem_idxOf hia, ← getElem_idxOf hib]
      simp only [heq]
    exact h.irrefl a ha (by rw [hpar, hab])

lemma Chained.acyclic (h : Chained key parent t) (a : ρ) :
    ¬ TransGen (Edge key parent t) a a := by
  classical
  have hdrop : ∀ b, TransGen (Edge key parent t) a b → t.idxOf b < t.idxOf a := by
    intro b hab
    induction hab with
    | single hstep => exact h.edge_lt hstep
    | tail _ hstep ih => exact Nat.lt_trans (h.edge_lt hstep) ih
  exact fun hcycle => Nat.lt_irrefl _ (hdrop a hcycle)

/-- Two rows nothing points at that reach a common row are one row. -/
theorem Chained.root_unique (h : Chained key parent t) {a b x : ρ}
    (ha : ∀ r ∈ t, parent r ≠ some (key a)) (hb : ∀ r ∈ t, parent r ≠ some (key b))
    (hax : ReflTransGen (Edge key parent t) a x) (hbx : ReflTransGen (Edge key parent t) b x) :
    a = b := by
  -- Read backwards the edges are a partial function, so one of them reaches
  -- the other.
  have hunique : Relator.RightUnique (Function.swap (Edge key parent t)) := by
    rintro y r r' ⟨hr, -, hry⟩ ⟨hr', -, hry'⟩
    exact h.single r hr r' hr' _ hry hry'
  have hnone : ∀ {r y}, (∀ z ∈ t, parent z ≠ some (key r)) →
      ReflTransGen (Function.swap (Edge key parent t)) r y → r = y := by
    intro r y hr hry
    rcases ReflTransGen.cases_head hry with heq | ⟨z, ⟨hz, -, hzr⟩, -⟩
    · exact heq
    · exact absurd hzr (hr z hz)
  rcases ReflTransGen.total_of_right_unique hunique (reflTransGen_swap.mpr hax)
      (reflTransGen_swap.mpr hbx) with hab | hba
  · exact hnone ha hab
  · exact (hnone hb hba).symm

end Chains
