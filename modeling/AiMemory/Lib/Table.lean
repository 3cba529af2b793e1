/-
Tables as lists of rows.

`UPDATE … SET f WHERE p`, `DELETE … WHERE p` and a primary key, over an
arbitrary row type.  A statement's row count is `List.countP p`.
-/
import Mathlib.Data.List.Nodup
import Mathlib.Data.List.Count

open List

namespace Table

variable {ρ κ : Type*}

/-- `UPDATE … SET f WHERE p`. -/
def update (p : ρ → Bool) (f : ρ → ρ) (t : List ρ) : List ρ :=
  t.map fun r => if p r then f r else r

/-- `DELETE … WHERE p`. -/
def delete (p : ρ → Bool) (t : List ρ) : List ρ := t.filter fun r => !p r

/-- No two rows of the table share a key. -/
def KeyUnique (key : ρ → κ) (t : List ρ) : Prop := (t.map key).Nodup

instance decidableKeyUnique [DecidableEq κ] (key : ρ → κ) (t : List ρ) :
    Decidable (KeyUnique key t) :=
  inferInstanceAs (Decidable (t.map key).Nodup)

variable {p : ρ → Bool} {f : ρ → ρ} {t : List ρ} {key : ρ → κ} {r r' : ρ}

lemma mem_update : r' ∈ update p f t ↔ ∃ r ∈ t, (if p r then f r else r) = r' :=
  mem_map

lemma mem_update_of_not (h : r ∈ t) (hp : p r = false) : r ∈ update p f t :=
  mem_update.mpr ⟨r, h, by rw [hp]; rfl⟩

lemma mem_update_of_match (h : r ∈ t) (hp : p r) : f r ∈ update p f t :=
  mem_update.mpr ⟨r, h, by rw [hp]; rfl⟩

@[simp] lemma mem_delete : r ∈ delete p t ↔ r ∈ t ∧ p r = false := by
  rw [delete, mem_filter]
  simp

lemma delete_subset : delete p t ⊆ t := fun _ h => (mem_delete.mp h).1

@[simp] lemma length_update : (update p f t).length = t.length := length_map _

lemma update_of_fixed (h : ∀ r ∈ t, p r = true → f r = r) : update p f t = t := by
  rw [update]
  conv_rhs => rw [← map_id t]
  refine map_congr_left fun r hr => ?_
  by_cases hp : p r
  · rw [if_pos hp]
    exact h r hr hp
  · rw [if_neg hp]
    rfl

lemma update_eq_self (h : ∀ r ∈ t, p r = false) : update p f t = t :=
  update_of_fixed fun r hr hp => absurd hp (Bool.eq_false_iff.mp (h r hr))

lemma update_of_countP_eq_zero (h : t.countP p = 0) : update p f t = t := by
  rw [countP_eq_zero] at h
  exact update_eq_self fun r hr => Bool.eq_false_iff.mpr (h r hr)

lemma delete_eq_self (h : ∀ r ∈ t, p r = false) : delete p t = t := by
  rw [delete, filter_eq_self]
  intro r hr
  rw [h r hr]
  rfl

lemma delete_of_ne [DecidableEq κ] (key : ρ → κ) {a : κ} (h : ∀ r ∈ t, key r ≠ a) :
    delete (fun r => key r = a) t = t :=
  delete_eq_self fun r hr => decide_eq_false (h r hr)

lemma update_update {q : ρ → Bool} (hq : ∀ r, q (f r) = q r) (hf : ∀ r, f (f r) = f r) :
    update q f (update p f t) = update (fun r => p r || q r) f t := by
  rw [update, update, update, map_map]
  refine map_congr_left fun r _ => ?_
  rw [Function.comp_apply]
  by_cases hp : p r
  · rw [if_pos hp, hp, Bool.true_or, if_pos rfl, hq, hf]
    split <;> rfl
  · rw [if_neg hp]
    rw [Bool.not_eq_true] at hp
    rw [hp, Bool.false_or]

lemma ne_of_mem_update [DecidableEq κ] (key : ρ → κ) {a b : κ} (hne : b ≠ a) (hf : ∀ r, key (f r) = b)
    (h : r' ∈ update (fun r => key r = a) f t) : key r' ≠ a := by
  obtain ⟨r, -, rfl⟩ := mem_update.mp h
  by_cases hr : key r = a
  · rw [if_pos (decide_eq_true hr), hf]
    exact hne
  · rw [if_neg (by simpa using hr)]
    exact hr

lemma mem_update_gathered {mine home : ρ → Bool} (hf : ∀ r, home (f r) = true)
    (h : r' ∈ update (fun r => mine r && !home r) f t) (hr : mine r') : home r' := by
  obtain ⟨r, -, rfl⟩ := mem_update.mp h
  split at hr
  · rename_i hmoves
    rw [if_pos hmoves]
    exact hf r
  · rename_i hstays
    rw [if_neg hstays]
    rw [hr, Bool.true_and, Bool.not_eq_true', Bool.not_eq_false] at hstays
    exact hstays

lemma map_update {β : Type*} {g : ρ → β} (hg : ∀ r, g (f r) = g r) :
    (update p f t).map g = t.map g := by
  rw [update, map_map]
  refine map_congr_left fun r _ => ?_
  rw [Function.comp_apply]
  by_cases hp : p r
  · rw [if_pos hp, hg]
  · rw [if_neg hp]

lemma map_update_eq {β : Type*} {g : ρ → β} {s : β → β}
    (h : ∀ r ∈ t, g (if p r then f r else r) = s (g r)) :
    (update p f t).map g = (t.map g).map s := by
  rw [update, map_map, map_map]
  exact map_congr_left h

lemma filter_map_of_fixed {q : ρ → Bool}
    (h : ∀ r ∈ t, q (f r) = q r ∧ (q r → f r = r)) : (t.map f).filter q = t.filter q := by
  rw [filter_map]
  have hq : t.filter (q ∘ f) = t.filter q := filter_congr fun r hr => (h r hr).1
  rw [hq]
  conv_rhs => rw [← map_id (t.filter q)]
  refine map_congr_left fun r hr => ?_
  rw [mem_filter] at hr
  exact (h r hr.1).2 hr.2

lemma countP_update_le {q : ρ → Bool} (hq : ∀ r, p r = true → q (f r) → q r) :
    (update p f t).countP q ≤ t.countP q := by
  rw [update, countP_map]
  refine countP_mono_left fun r _ hr => ?_
  rw [Function.comp_apply] at hr
  by_cases hp : p r
  · rw [if_pos hp] at hr
    exact hq r hp hr
  · rwa [if_neg hp] at hr

lemma countP_update_add {q : ρ → Bool} (hout : ∀ r, p r = true → q r = false)
    (hin : ∀ r, p r = true → q (f r)) :
    (update p f t).countP q = t.countP q + t.countP p := by
  induction t with
  | nil => rfl
  | cons a t ih =>
    rw [update] at ih
    rw [update, map_cons, countP_cons, countP_cons, countP_cons, ih]
    by_cases hp : p a
    · rw [if_pos hp, if_pos (hin a hp), if_pos hp, hout a hp]
      simp only [Bool.false_eq_true, if_false]
      omega
    · rw [if_neg hp, if_neg hp]
      omega

lemma countP_delete_add {q : ρ → Bool} :
    (delete p t).countP q + t.countP (fun r => q r && p r) = t.countP q := by
  induction t with
  | nil => rfl
  | cons a t ih =>
    rw [delete] at ih
    rw [delete, filter_cons]
    cases hp : p a <;> cases hq : q a <;> simp [hp, hq] <;> omega

lemma countP_delete_eq {q : ρ → Bool} (h : ∀ r ∈ t, q r = true → p r = false) :
    (delete p t).countP q = t.countP q := by
  have hnone : t.countP (fun r => q r && p r) = 0 := by
    rw [countP_eq_zero]
    intro r hr hqp
    rw [Bool.and_eq_true] at hqp
    rw [h r hr hqp.1] at hqp
    exact absurd hqp.2 (by simp)
  have hsum := countP_delete_add (p := p) (t := t) (q := q)
  omega

lemma KeyUnique.update (h : KeyUnique key t) (hf : ∀ r, key (f r) = key r) :
    KeyUnique key (update p f t) := by
  rw [KeyUnique, map_update hf]
  exact h

lemma KeyUnique.delete (h : KeyUnique key t) : KeyUnique key (delete p t) :=
  h.sublist (filter_sublist.map key)

lemma keyUnique_append_singleton :
    KeyUnique key (t ++ [r]) ↔ KeyUnique key t ∧ ∀ r' ∈ t, key r' ≠ key r := by
  rw [KeyUnique, map_append, nodup_append]
  constructor
  · rintro ⟨h, -, hd⟩
    exact ⟨h, fun r' hr' => hd _ (mem_map_of_mem hr') _ (by simp)⟩
  · rintro ⟨h, hd⟩
    refine ⟨h, by simp, fun k hk k' hk' => ?_⟩
    obtain ⟨r', hr', rfl⟩ := mem_map.mp hk
    rw [map_singleton, mem_singleton] at hk'
    subst hk'
    exact hd r' hr'

lemma KeyUnique.map_filter {f : ρ → ρ} (h : KeyUnique key t)
    (hf : ∀ a b, p a = true → p b → key (f a) = key (f b) → key a = key b) :
    KeyUnique key ((t.filter p).map f) := by
  have hrows : ((t.filter p).map key).Nodup := h.sublist (filter_sublist.map _)
  rw [KeyUnique, map_map]
  refine List.Nodup.map_on ?_ (List.Nodup.of_map _ hrows)
  intro a ha b hb hkey
  exact inj_on_of_nodup_map hrows ha hb (hf a b (mem_filter.mp ha).2 (mem_filter.mp hb).2 hkey)

lemma KeyUnique.eq (h : KeyUnique key t) (hr : r ∈ t) (hr' : r' ∈ t)
    (hk : key r = key r') : r = r' :=
  inj_on_of_nodup_map h hr hr' hk

lemma KeyUnique.update_eq (h : KeyUnique key t) (hr : r ∈ t) (hr' : r' ∈ Table.update p f t)
    (hk : key r' = key r) (hf : ∀ r, key (f r) = key r) : r' = if p r then f r else r := by
  obtain ⟨a, ha, rfl⟩ := mem_update.mp hr'
  have hka : key (if p a then f a else a) = key a := by
    split
    · exact hf a
    · rfl
  rw [h.eq ha hr (hka.symm.trans hk)]

lemma find?_key_eq_none [DecidableEq κ] {k : κ} :
    t.find? (fun r => key r = k) = none ↔ ∀ r ∈ t, key r ≠ k := by
  rw [find?_eq_none]
  simp

lemma find?_key_some [DecidableEq κ] {k : κ} (h : t.find? (fun r => key r = k) = some r) :
    r ∈ t ∧ key r = k :=
  ⟨mem_of_find?_eq_some h, by simpa using find?_some h⟩

lemma KeyUnique.find?_eq_some [DecidableEq κ] (h : KeyUnique key t) {k : κ} :
    t.find? (fun r => key r = k) = some r ↔ r ∈ t ∧ key r = k := by
  refine ⟨find?_key_some, ?_⟩
  rintro ⟨hr, hk⟩
  cases hf : t.find? fun r => key r = k with
  | none => exact absurd hk (find?_key_eq_none.mp hf r hr)
  | some r' =>
    obtain ⟨hr', hk'⟩ := find?_key_some hf
    rw [h.eq hr' hr (hk'.trans hk.symm)]

lemma find?_update [DecidableEq κ] (hf : ∀ r, key (f r) = key r) (k : κ) :
    (Table.update p f t).find? (fun r => key r = k) =
      (t.find? fun r => key r = k).map fun r => if p r then f r else r := by
  rw [Table.update, find?_map]
  refine congrArg (Option.map _) (congrArg (List.find? · t) (funext fun r => ?_))
  rw [Function.comp_apply]
  by_cases hp : p r
  · rw [if_pos hp, hf]
  · rw [if_neg hp]

lemma KeyUnique.countP_le_one (h : KeyUnique key t) {k : κ}
    (hp : ∀ r ∈ t, p r = true → key r = k) : t.countP p ≤ 1 := by
  induction t with
  | nil => simp
  | cons a t ih =>
    rw [KeyUnique, map_cons, nodup_cons] at h
    by_cases ha : p a
    · rw [countP_cons_of_pos ha]
      have hz : t.countP p = 0 := by
        rw [countP_eq_zero]
        intro b hb hpb
        have hkb : key b = k := hp b (mem_cons_of_mem a hb) hpb
        have hka : key a = k := hp a mem_cons_self ha
        exact h.1 (mem_map.mpr ⟨b, hb, hkb.trans hka.symm⟩)
      omega
    · rw [countP_cons_of_neg ha]
      exact ih h.2 fun b hb => hp b (mem_cons_of_mem a hb)

/-- `UPDATE OR IGNORE`, row by row: a row whose new key another row holds stays as
it is. -/
def updateOrIgnore [DecidableEq κ] (key : ρ → κ) (p : ρ → Bool) (f : ρ → ρ) :
    List ρ → List ρ → List ρ
  | done, [] => done
  | done, r :: rest =>
    if p r && !(done ++ rest).any (fun x => key x = key (f r)) then
      updateOrIgnore key p f (done ++ [f r]) rest
    else updateOrIgnore key p f (done ++ [r]) rest

lemma updateOrIgnore_of_none [DecidableEq κ] {done rest : List ρ} (h : ∀ r ∈ rest, p r = false) :
    updateOrIgnore key p f done rest = done ++ rest := by
  induction rest generalizing done with
  | nil => rw [updateOrIgnore, append_nil]
  | cons r rest ih =>
    rw [updateOrIgnore, h r mem_cons_self, Bool.false_and, if_neg Bool.false_ne_true,
      ih fun x hx => h x (mem_cons_of_mem r hx), append_assoc, singleton_append]

section Upsert

/-- `INSERT … ON CONFLICT DO UPDATE`: the row of the key takes something over
from the new one, or the new one is added. -/
def upsert [DecidableEq κ] (key : ρ → κ) (merge : ρ → ρ → ρ) (t : List ρ) (new : ρ) : List ρ :=
  if t.any fun r => key r = key new then update (fun r => key r = key new) (merge · new) t
  else t ++ [new]

variable [DecidableEq κ] {merge : ρ → ρ → ρ} {new : ρ}

lemma mem_upsert : r' ∈ upsert key merge t new ↔
    (r' ∈ t ∧ key r' ≠ key new) ∨ (r' = new ∧ ∀ r ∈ t, key r ≠ key new) ∨
      ∃ r ∈ t, key r = key new ∧ r' = merge r new := by
  unfold upsert
  split
  · rename_i hany
    obtain ⟨q, hq, hkey⟩ := any_eq_true.mp hany
    rw [decide_eq_true_eq] at hkey
    rw [mem_update]
    constructor
    · rintro ⟨r, hr, rfl⟩
      by_cases hk : key r = key new
      · rw [if_pos (decide_eq_true hk)]
        exact .inr (.inr ⟨r, hr, hk, rfl⟩)
      · rw [if_neg (by simpa using hk)]
        exact .inl ⟨hr, hk⟩
    · rintro (⟨hr, hk⟩ | ⟨-, hnone⟩ | ⟨r, hr, hk, rfl⟩)
      · exact ⟨r', hr, if_neg (by simpa using hk)⟩
      · exact absurd hkey (hnone q hq)
      · exact ⟨r, hr, if_pos (decide_eq_true hk)⟩
  · rename_i hnone
    have hfree : ∀ r ∈ t, key r ≠ key new := fun r hr hk =>
      hnone (any_eq_true.mpr ⟨r, hr, decide_eq_true hk⟩)
    rw [mem_append, mem_singleton]
    constructor
    · rintro (hr | rfl)
      · exact .inl ⟨hr, hfree r' hr⟩
      · exact .inr (.inl ⟨rfl, hfree⟩)
    · rintro (⟨hr, -⟩ | ⟨rfl, -⟩ | ⟨r, hr, hk, -⟩)
      · exact .inl hr
      · exact .inr rfl
      · exact absurd hk (hfree r hr)

lemma find?_upsert (hm : ∀ r, key (merge r new) = key r) (k : κ) :
    (upsert key merge t new).find? (fun r => key r = k) =
      if k = key new then some ((t.find? fun r => key r = k).elim new (merge · new))
      else t.find? fun r => key r = k := by
  unfold upsert
  by_cases hk : k = key new
  · subst hk
    rw [if_pos rfl]
    cases hfind : t.find? fun r => key r = key new with
    | none =>
      have hfree : ¬ (t.any fun r => key r = key new) := by
        rw [Bool.not_eq_true, any_eq_false]
        exact fun r hr => by simpa using find?_key_eq_none.mp hfind r hr
      rw [if_neg hfree, find?_append, hfind, Option.none_or, find?_singleton]
      simp
    | some r =>
      obtain ⟨hr, hkey⟩ := find?_key_some hfind
      rw [if_pos (any_eq_true.mpr ⟨r, hr, decide_eq_true hkey⟩), find?_update hm, hfind,
        Option.map_some, if_pos (decide_eq_true hkey)]
      rfl
  · rw [if_neg hk]
    split
    · rw [find?_update hm]
      cases hfind : t.find? fun r => key r = k with
      | none => rfl
      | some r =>
        rw [Option.map_some, if_neg]
        rw [decide_eq_true_eq, (find?_key_some hfind).2]
        exact hk
    · rw [find?_append, find?_singleton, decide_eq_false (Ne.symm hk)]
      simp

lemma KeyUnique.upsert (h : KeyUnique key t) (hm : ∀ r n, key (merge r n) = key r) (new : ρ) :
    KeyUnique key (Table.upsert key merge t new) := by
  unfold Table.upsert
  split
  · exact h.update fun r => hm r new
  · rename_i hnone
    refine keyUnique_append_singleton.mpr ⟨h, fun r hr hk => hnone ?_⟩
    exact any_eq_true.mpr ⟨r, hr, decide_eq_true hk⟩

lemma KeyUnique.foldl_upsert (h : KeyUnique key t) (hm : ∀ r n, key (merge r n) = key r)
    (new : List ρ) : KeyUnique key (new.foldl (Table.upsert key merge) t) := by
  induction new generalizing t with
  | nil => exact h
  | cons n new ih => exact ih (h.upsert hm n)

/-- Rows of different keys, put in one after the other: a row that none of them
has the key of stays, one without a row of its key is added, and the others are
merged into the row of their key. -/
theorem mem_foldl_upsert (hm : ∀ r n, key (merge r n) = key r) {new : List ρ}
    (hnew : KeyUnique key new) : r' ∈ new.foldl (upsert key merge) t ↔
      (r' ∈ t ∧ ∀ n ∈ new, key r' ≠ key n) ∨ (r' ∈ new ∧ ∀ r ∈ t, key r ≠ key r') ∨
        ∃ r ∈ t, ∃ n ∈ new, key r = key n ∧ r' = merge r n := by
  induction new generalizing t with
  | nil => simp
  | cons n new ih =>
    rw [KeyUnique, map_cons, nodup_cons] at hnew
    have hfresh : ∀ m ∈ new, key m ≠ key n := fun m hm hk =>
      hnew.1 (hk ▸ mem_map_of_mem hm)
    rw [foldl_cons, ih hnew.2]
    constructor
    · rintro (⟨hr, hnone⟩ | ⟨hr, hnone⟩ | ⟨r, hr, m, hmem, hk, rfl⟩)
      · rcases mem_upsert.mp hr with ⟨hrt, hk⟩ | ⟨rfl, hfree⟩ | ⟨q, hq, hk, rfl⟩
        · exact .inl ⟨hrt, forall_mem_cons.mpr ⟨hk, hnone⟩⟩
        · exact .inr (.inl ⟨mem_cons_self, hfree⟩)
        · exact .inr (.inr ⟨q, hq, n, mem_cons_self, hk, rfl⟩)
      · refine .inr (.inl ⟨mem_cons_of_mem n hr, fun r hrt => ?_⟩)
        by_cases hk : key r = key n
        · exact fun heq => hfresh r' hr (heq.symm.trans hk)
        · exact hnone r (mem_upsert.mpr (.inl ⟨hrt, hk⟩))
      · rcases mem_upsert.mp hr with ⟨hr, -⟩ | ⟨rfl, -⟩ | ⟨q, hq, hkq, rfl⟩
        · exact .inr (.inr ⟨r, hr, m, mem_cons_of_mem n hmem, hk, rfl⟩)
        · exact absurd hk.symm (hfresh m hmem)
        · exact absurd (hk.symm.trans ((hm q n).trans hkq)) (hfresh m hmem)
    · rintro (⟨hr, hnone⟩ | ⟨hr, hnone⟩ | ⟨r, hr, m, hmem, hk, rfl⟩)
      · rw [forall_mem_cons] at hnone
        exact .inl ⟨mem_upsert.mpr (.inl ⟨hr, hnone.1⟩), hnone.2⟩
      · rcases mem_cons.mp hr with rfl | hrest
        · refine .inl ⟨mem_upsert.mpr (.inr (.inl ⟨rfl, hnone⟩)), fun m hmem heq => ?_⟩
          exact hfresh m hmem heq.symm
        · refine .inr (.inl ⟨hrest, fun r hrt => ?_⟩)
          rcases mem_upsert.mp hrt with ⟨hold, -⟩ | ⟨hn, -⟩ | ⟨q, hq, hkq, rfl⟩
          · exact hnone r hold
          · rw [hn]
            exact fun heq => hfresh r' hrest heq.symm
          · rw [hm]
            exact hnone q hq
      · rcases mem_cons.mp hmem with rfl | hmem
        · refine .inl ⟨mem_upsert.mpr (.inr (.inr ⟨r, hr, hk, rfl⟩)), fun m' hmem' heq => ?_⟩
          rw [hm] at heq
          exact hfresh m' hmem' (heq.symm.trans hk)
        · refine .inr (.inr ⟨r, mem_upsert.mpr (.inl ⟨hr, ?_⟩), m, hmem, hk, rfl⟩)
          rw [hk]
          exact hfresh m hmem

end Upsert

end Table
