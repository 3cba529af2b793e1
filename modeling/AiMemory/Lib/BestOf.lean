/-
The best of a stream, kept in bounded memory.

A stream of keys is read once.  A map in ascending order holds at most so many of them; when
it is full, a stronger key puts the weakest out.  What it holds in the end does not depend on
the order of the stream: it is the head of the whole stream sorted downwards.
-/
import Mathlib.Data.Finset.Card

open List

namespace BestOf

open Finset (not_subset notMem_empty card_insert_of_notMem card_le_card mem_insert mem_erase)

variable {κ ν : Type*} [LinearOrder κ]

/-- `A` has the `k` greatest elements of `P`, all of them when there are no more. -/
structure Best (k : ℕ) (P A : Finset κ) : Prop where
  subset : A ⊆ P
  card : A.card = min k P.card
  above : ∀ a ∈ A, ∀ p ∈ P, p ∉ A → p < a

variable {k : ℕ} {P A B : Finset κ} {p w : κ}

lemma Best.unique (hA : Best k P A) (hB : Best k P B) : A = B := by
  have hcard : A.card = B.card := hA.card.trans hB.card.symm
  by_cases hsub : A ⊆ B
  · exact Finset.eq_of_subset_of_card_le hsub hcard.symm.le
  by_cases hsub' : B ⊆ A
  · exact (Finset.eq_of_subset_of_card_le hsub' hcard.le).symm
  obtain ⟨a, ha, haB⟩ := not_subset.mp hsub
  obtain ⟨b, hb, hbA⟩ := not_subset.mp hsub'
  have hba : b < a := hA.above a ha b (hB.subset hb) hbA
  have hab : a < b := hB.above b hb a (hA.subset ha) haB
  exact absurd hba hab.not_gt

lemma best_take {l : List κ} (hl : l.Pairwise fun a b => b < a) :
    Best k l.toFinset (l.take k).toFinset where
  subset a ha := by
    rw [mem_toFinset] at ha ⊢
    exact mem_of_mem_take ha
  card := by
    have hnodup : l.Nodup := hl.imp fun h => h.ne'
    rw [toFinset_card_of_nodup hnodup,
      toFinset_card_of_nodup (hnodup.sublist (take_sublist k l)), length_take]
  above a ha q hq hqA := by
    rw [mem_toFinset] at ha hq hqA
    rw [← take_append_drop k l] at hl hq
    have hdrop : q ∈ l.drop k := (mem_append.mp hq).resolve_left hqA
    exact (pairwise_append.mp hl).2.2 a ha q hdrop

lemma best_empty : Best k (∅ : Finset κ) ∅ where
  subset := Finset.Subset.refl _
  card := by simp
  above a ha _ _ _ := absurd ha (notMem_empty a)

lemma Best.eq_of_room (h : Best k P A) (hroom : A.card < k) : A = P := by
  refine Finset.eq_of_subset_of_card_le h.subset ?_
  have hcard := h.card
  omega

lemma Best.insert (h : Best k P A) (hp : p ∉ P) (hroom : A.card < k) :
    Best k (insert p P) (insert p A) := by
  have hall := h.eq_of_room hroom
  subst hall
  refine ⟨Finset.Subset.refl _, ?_, fun a _ q hq hq' => absurd hq hq'⟩
  rw [card_insert_of_notMem hp]
  omega

lemma Best.evict (h : Best k P A) (hp : p ∉ P) (hfull : k ≤ A.card) (hw : w ∈ A)
    (hleast : ∀ a ∈ A, w ≤ a) (hlt : w < p) : Best k (Insert.insert p P) (Insert.insert p (A.erase w)) := by
  have hpA : p ∉ A.erase w := fun hmem => hp (h.subset (Finset.mem_of_mem_erase hmem))
  have hle : A.card ≤ P.card := card_le_card h.subset
  have hpos : 0 < A.card := Finset.card_pos.mpr ⟨w, hw⟩
  refine ⟨Finset.insert_subset_insert _ ((Finset.erase_subset w A).trans h.subset), ?_, ?_⟩
  · rw [card_insert_of_notMem hpA, card_insert_of_notMem hp,
      Finset.card_erase_of_mem hw]
    have hcard := h.card
    omega
  · intro a ha q hq hqA
    rw [mem_insert, not_or, mem_erase, not_and] at hqA
    have hqP : q ∈ P := (mem_insert.mp hq).resolve_left hqA.1
    -- What is left out is the key put out, or was left out before.
    have hqw : q ≤ w := by
      by_cases hqeq : q = w
      · exact hqeq.le
      · exact (h.above w hw q hqP (hqA.2 hqeq)).le
    rcases mem_insert.mp ha with rfl | ha
    · exact hqw.trans_lt hlt
    · obtain ⟨hne, haA⟩ := mem_erase.mp ha
      exact hqw.trans_lt (lt_of_le_of_ne (hleast a haA) fun heq => hne heq.symm)

lemma Best.keep (h : Best k P A) (hp : p ∉ P) (hfull : k ≤ A.card)
    (hleast : ∀ a ∈ A, p < a) : Best k (Insert.insert p P) A := by
  have hle : A.card ≤ P.card := card_le_card h.subset
  refine ⟨h.subset.trans (Finset.subset_insert p P), ?_, ?_⟩
  · rw [card_insert_of_notMem hp]
    have hcard := h.card
    omega
  · intro a ha q hq hqA
    rcases mem_insert.mp hq with rfl | hq
    · exact hleast a ha
    · exact h.above a ha q hq hqA

/-! ### Maps by ascending key -/

def insertKey (p : κ) (v : ν) : List (κ × ν) → List (κ × ν)
  | [] => [(p, v)]
  | e :: m =>
    if p < e.1 then (p, v) :: e :: m
    else if p = e.1 then (p, v) :: m
    else e :: insertKey p v m

def removeKey (p : κ) (m : List (κ × ν)) : List (κ × ν) := m.filter fun e => e.1 ≠ p

def keys (m : List (κ × ν)) : Finset κ := (m.map Prod.fst).toFinset

def Ascending (m : List (κ × ν)) : Prop := m.Pairwise fun e e' => e.1 < e'.1

variable {m : List (κ × ν)} {e e' : κ × ν} {v : ν}

lemma mem_keys : p ∈ keys m ↔ ∃ e ∈ m, e.1 = p := by
  rw [keys, mem_toFinset, mem_map]

lemma mem_insertKey (h : e ∈ insertKey p v m) : e = (p, v) ∨ e ∈ m := by
  induction m with
  | nil => exact .inl (mem_singleton.mp h)
  | cons e' m ih =>
    rw [insertKey] at h
    split at h
    · exact mem_cons.mp h
    · split at h
      · rcases mem_cons.mp h with h | h
        · exact .inl h
        · exact .inr (mem_cons_of_mem _ h)
      · rcases mem_cons.mp h with rfl | h
        · exact .inr mem_cons_self
        · exact (ih h).imp id (mem_cons_of_mem _)

lemma keys_insertKey : keys (insertKey p v m) = Insert.insert p (keys m) := by
  induction m with
  | nil => rfl
  | cons e m ih =>
    have hcons : ∀ m' : List (κ × ν), keys (e :: m') = Insert.insert e.1 (keys m') := fun m' => by
      rw [keys, map_cons, toFinset_cons, keys]
    rw [insertKey]
    split
    · rw [keys, map_cons, toFinset_cons, ← keys]
    · split
      · rename_i heq
        rw [hcons, ← heq, Finset.insert_idem, keys, map_cons, toFinset_cons, ← keys]
      · rw [hcons, hcons, ih, Finset.insert_comm]

lemma ascending_insertKey (h : Ascending m) : Ascending (insertKey p v m) := by
  induction m with
  | nil => exact pairwise_singleton _ _
  | cons e m ih =>
    obtain ⟨hhead, htail⟩ := pairwise_cons.mp h
    rw [insertKey]
    split
    · rename_i hlt
      refine pairwise_cons.mpr ⟨fun e' he' => ?_, h⟩
      rcases mem_cons.mp he' with rfl | he'
      · exact hlt
      · exact hlt.trans (hhead e' he')
    · rename_i hge
      split
      · rename_i heq
        exact pairwise_cons.mpr ⟨fun e' he' => heq ▸ hhead e' he', htail⟩
      · rename_i hne
        refine pairwise_cons.mpr ⟨fun e' he' => ?_, ih htail⟩
        rcases mem_insertKey he' with rfl | he'
        · exact lt_of_le_of_ne (not_lt.mp hge) fun heq => hne heq.symm
        · exact hhead e' he'

lemma Ascending.nodup (h : Ascending m) : (m.map Prod.fst).Nodup :=
  pairwise_map.mpr (h.imp fun hlt => hlt.ne)

lemma Ascending.card_keys (h : Ascending m) : (keys m).card = m.length := by
  rw [keys, toFinset_card_of_nodup h.nodup, length_map]

lemma removeKey_head (h : Ascending (e :: m)) : removeKey e.1 (e :: m) = m := by
  rw [removeKey, filter_cons_of_neg (by simp)]
  refine filter_eq_self.mpr fun e' he' => ?_
  exact decide_eq_true ((pairwise_cons.mp h).1 e' he').ne'

/-- The map has the `k` best keys of those read so far, each with its own value. -/
structure Keeps (f : κ → ν) (k : ℕ) (P : Finset κ) (m : List (κ × ν)) : Prop where
  ascending : Ascending m
  values : ∀ e ∈ m, e.2 = f e.1
  best : Best k P (keys m)

variable {f : κ → ν}

lemma keeps_nil : Keeps f k ∅ [] where
  ascending := List.Pairwise.nil
  values _ he := absurd he not_mem_nil
  best := best_empty

lemma Keeps.length_le (h : Keeps f k P m) : m.length ≤ k := by
  rw [← h.ascending.card_keys, h.best.card]
  exact min_le_left _ _

lemma Keeps.none (h : Keeps f 0 P m) : Keeps f 0 (Insert.insert p P) m := by
  have hnil : m = [] := length_eq_zero_iff.mp (Nat.le_zero.mp h.length_le)
  subst hnil
  exact ⟨h.ascending, h.values, Finset.empty_subset _, by simp [keys],
    fun a ha => absurd ha (notMem_empty a)⟩

lemma values_insertKey (h : ∀ e ∈ m, e.2 = f e.1) : ∀ e ∈ insertKey p (f p) m, e.2 = f e.1 := by
  intro e he
  rcases mem_insertKey he with rfl | he
  · rfl
  · exact h e he

lemma Keeps.insert (h : Keeps f k P m) (hp : p ∉ P) (hroom : m.length < k) :
    Keeps f k (Insert.insert p P) (insertKey p (f p) m) where
  ascending := ascending_insertKey h.ascending
  values := values_insertKey h.values
  best := by
    rw [keys_insertKey]
    exact h.best.insert hp (by rwa [h.ascending.card_keys])

lemma Keeps.evict (h : Keeps f k P (e :: m)) (hp : p ∉ P) (hfull : k ≤ (e :: m).length)
    (hlt : e.1 < p) : Keeps f k (Insert.insert p P) (insertKey p (f p) (removeKey e.1 (e :: m))) := by
  obtain ⟨hhead, htail⟩ := pairwise_cons.mp h.ascending
  have hkeys : keys m = (keys (e :: m)).erase e.1 := by
    have hnotin : e.1 ∉ keys m := fun hmem => by
      obtain ⟨e', he', heq⟩ := mem_keys.mp hmem
      exact absurd heq (hhead e' he').ne'
    rw [show keys (e :: m) = Insert.insert e.1 (keys m) from toFinset_cons,
      Finset.erase_insert hnotin]
  rw [removeKey_head h.ascending]
  refine ⟨ascending_insertKey htail,
    values_insertKey fun e' he' => h.values e' (mem_cons_of_mem _ he'), ?_⟩
  rw [keys_insertKey, hkeys]
  refine h.best.evict hp (by rwa [h.ascending.card_keys])
    (mem_keys.mpr ⟨e, mem_cons_self, rfl⟩) ?_ hlt
  intro a ha
  obtain ⟨e', he', rfl⟩ := mem_keys.mp ha
  rcases mem_cons.mp he' with rfl | he'
  · exact le_rfl
  · exact (hhead e' he').le

lemma Keeps.keep (h : Keeps f k P (e :: m)) (hp : p ∉ P) (hfull : k ≤ (e :: m).length)
    (hle : ¬ e.1 < p) : Keeps f k (Insert.insert p P) (e :: m) := by
  obtain ⟨hhead, -⟩ := pairwise_cons.mp h.ascending
  refine ⟨h.ascending, h.values, h.best.keep hp (by rwa [h.ascending.card_keys]) ?_⟩
  have hne : p ≠ e.1 := fun heq =>
    hp (h.best.subset (mem_keys.mpr ⟨e, mem_cons_self, heq.symm⟩))
  have hlt : p < e.1 := lt_of_le_of_ne (not_lt.mp hle) hne
  intro a ha
  obtain ⟨e', he', rfl⟩ := mem_keys.mp ha
  rcases mem_cons.mp he' with rfl | he'
  · exact hlt
  · exact hlt.trans (hhead e' he')

end BestOf
