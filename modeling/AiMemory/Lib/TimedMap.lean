/-
Maps whose entries age, with a capacity.

An entry is dropped when it is older than the map's time to live, at the next read or
write, and the oldest ones are dropped when an insert finds the map over its capacity.
The backing table has no order of its own: which of two equally old entries goes is
decided by an `WalkOrder`, which every insert brings along.

A clock reading is a natural number, so that `now - inserted` is the saturating
difference.
-/
import AiMemory.Lib.Table
import Mathlib.Data.List.Sort

open Table List

variable {κ ν : Type*}

structure Timed (κ ν : Type*) where
  key : κ
  value : ν
  inserted : ℕ
  deriving DecidableEq

structure WalkOrder (ρ : Type*) where
  apply : List ρ → List ρ
  perm : ∀ l, (apply l).Perm l

structure TimedMap (κ ν : Type*) where
  entries : List (Timed κ ν)
  ttl : ℕ
  cap : ℕ
  keys : KeyUnique Timed.key entries
  ttl_pos : 0 < ttl
  cap_pos : 0 < cap

namespace TimedMap

variable {m : TimedMap κ ν} {k k' : κ} {v : ν} {now now' : ℕ} {r : Timed κ ν}
  {order : WalkOrder (Timed κ ν)}

def empty (ttl cap : ℕ) (ttl_pos : 0 < ttl) (cap_pos : 0 < cap) : TimedMap κ ν :=
  ⟨[], ttl, cap, nodup_nil, ttl_pos, cap_pos⟩

def retain (p : Timed κ ν → Bool) (m : TimedMap κ ν) : TimedMap κ ν :=
  { m with
    entries := m.entries.filter p
    keys := m.keys.sublist (filter_sublist.map _) }

def purge (now : ℕ) (m : TimedMap κ ν) : TimedMap κ ν :=
  m.retain fun r => now - r.inserted < m.ttl

def mapValues (f : ν → ν) (m : TimedMap κ ν) : TimedMap κ ν :=
  { m with
    entries := m.entries.map fun r => { r with value := f r.value }
    keys := by
      rw [KeyUnique, map_map]
      exact m.keys }

def byAge (order : WalkOrder (Timed κ ν)) (l : List (Timed κ ν)) : List (Timed κ ν) :=
  (order.apply l).insertionSort fun a b => a.inserted ≤ b.inserted

@[simp] lemma mem_retain {p : Timed κ ν → Bool} :
    r ∈ (m.retain p).entries ↔ r ∈ m.entries ∧ p r :=
  mem_filter

lemma mem_purge : r ∈ (m.purge now).entries ↔ r ∈ m.entries ∧ now - r.inserted < m.ttl := by
  rw [purge, mem_retain, decide_eq_true_eq]

lemma perm_byAge (order : WalkOrder (Timed κ ν)) (l : List (Timed κ ν)) : (byAge order l).Perm l :=
  (perm_insertionSort _ _).trans (order.perm l)

lemma pairwise_byAge (order : WalkOrder (Timed κ ν)) (l : List (Timed κ ν)) :
    (byAge order l).Pairwise fun a b => a.inserted ≤ b.inserted := by
  have htotal : Std.Total fun a b : Timed κ ν => a.inserted ≤ b.inserted :=
    ⟨fun a b => Nat.le_total a.inserted b.inserted⟩
  have htrans : IsTrans (Timed κ ν) fun a b => a.inserted ≤ b.inserted :=
    ⟨fun a b c hab hbc => Nat.le_trans hab hbc⟩
  exact pairwise_insertionSort _ _

/-- The map is within its capacity. -/
def Fits (m : TimedMap κ ν) : Prop := m.entries.length ≤ m.cap

lemma Fits.retain (h : m.Fits) (p : Timed κ ν → Bool) : (m.retain p).Fits :=
  (length_filter_le _ _).trans h

lemma Fits.purge (h : m.Fits) (now : ℕ) : (m.purge now).Fits := h.retain _

lemma Fits.mapValues (h : m.Fits) (f : ν → ν) : (m.mapValues f).Fits := by
  rw [Fits, TimedMap.mapValues, length_map]
  exact h

variable [DecidableEq κ]

def put (k : κ) (v : ν) (now : ℕ) (m : TimedMap κ ν) : TimedMap κ ν :=
  { m with
    entries := m.entries.filter (fun r => r.key ≠ k) ++ [⟨k, v, now⟩]
    keys := by
      refine keyUnique_append_singleton.mpr ⟨m.keys.sublist (filter_sublist.map _), ?_⟩
      intro r hr
      simpa using (mem_filter.mp hr).2 }

def trim (order : WalkOrder (Timed κ ν)) (m : TimedMap κ ν) : TimedMap κ ν :=
  let oldest := ((byAge order m.entries).take (m.entries.length - m.cap)).map (·.key)
  m.retain fun r => r.key ∉ oldest

def insert (order : WalkOrder (Timed κ ν)) (k : κ) (v : ν) (now : ℕ) (m : TimedMap κ ν) :
    TimedMap κ ν :=
  ((m.purge now).put k v now).trim order

def find? (m : TimedMap κ ν) (k : κ) : Option ν :=
  (m.entries.find? fun r => r.key = k).map (·.value)

def get (m : TimedMap κ ν) (k : κ) (now : ℕ) : Option ν := (m.purge now).find? k

lemma find?_eq_some : m.find? k = some v ↔ ∃ r ∈ m.entries, r.key = k ∧ r.value = v := by
  rw [find?, Option.map_eq_some_iff]
  constructor
  · rintro ⟨r, hr, rfl⟩
    exact ⟨r, (m.keys.find?_eq_some.mp hr).1, (m.keys.find?_eq_some.mp hr).2, rfl⟩
  · rintro ⟨r, hr, hk, rfl⟩
    exact ⟨r, m.keys.find?_eq_some.mpr ⟨hr, hk⟩, rfl⟩

lemma get_eq_some : m.get k now = some v ↔
    ∃ r ∈ m.entries, now - r.inserted < m.ttl ∧ r.key = k ∧ r.value = v := by
  rw [get, find?_eq_some]
  constructor
  · rintro ⟨r, hr, hk, hv⟩
    exact ⟨r, (mem_purge.mp hr).1, (mem_purge.mp hr).2, hk, hv⟩
  · rintro ⟨r, hr, hlive, hk, hv⟩
    exact ⟨r, mem_purge.mpr ⟨hr, hlive⟩, hk, hv⟩

lemma get_congr {m' : TimedMap κ ν} (httl : m'.ttl = m.ttl)
    (h : ∀ r, r.key = k → (r ∈ m'.entries ↔ r ∈ m.entries)) : m'.get k now = m.get k now := by
  refine Option.ext fun v => ?_
  rw [get_eq_some, get_eq_some, httl]
  constructor
  · rintro ⟨r, hr, hlive, hk, hv⟩
    exact ⟨r, (h r hk).mp hr, hlive, hk, hv⟩
  · rintro ⟨r, hr, hlive, hk, hv⟩
    exact ⟨r, (h r hk).mpr hr, hlive, hk, hv⟩

lemma mem_put : r ∈ (m.put k v now).entries ↔ (r ∈ m.entries ∧ r.key ≠ k) ∨ r = ⟨k, v, now⟩ := by
  rw [put, mem_append, mem_filter, mem_singleton, decide_eq_true_eq]

section Age

variable (order : WalkOrder (Timed κ ν))

lemma perm_trim (m : TimedMap κ ν) : (m.trim order).entries.Perm
    ((byAge order m.entries).drop (m.entries.length - m.cap)) := by
  have hperm := perm_byAge order m.entries
  have hkeys : KeyUnique Timed.key (byAge order m.entries) := (hperm.map _).nodup_iff.mpr m.keys
  set n := m.entries.length - m.cap
  have hsplit : (byAge order m.entries).filter
      (fun r => r.key ∉ ((byAge order m.entries).take n).map (·.key)) =
        (byAge order m.entries).drop n := by
    rw [KeyUnique, ← take_append_drop n (byAge order m.entries), map_append, nodup_append] at hkeys
    have htaken : ((byAge order m.entries).take n).filter
        (fun r => r.key ∉ ((byAge order m.entries).take n).map (·.key)) = [] := by
      refine filter_eq_nil_iff.mpr fun r hr => ?_
      have hmem : r.key ∈ ((byAge order m.entries).take n).map (·.key) := mem_map_of_mem hr
      simpa using hmem
    have hleft : ((byAge order m.entries).drop n).filter
        (fun r => r.key ∉ ((byAge order m.entries).take n).map (·.key)) =
          (byAge order m.entries).drop n := by
      refine filter_eq_self.mpr fun r hr => ?_
      refine decide_eq_true fun hmem => ?_
      exact hkeys.2.2 r.key hmem r.key (mem_map_of_mem hr) rfl
    conv_lhs => rw [← take_append_drop n (byAge order m.entries)]
    rw [filter_append, take_append_drop, htaken, hleft, nil_append]
  have hfilter := hperm.filter (fun r => r.key ∉ ((byAge order m.entries).take n).map (·.key))
  rw [hsplit] at hfilter
  exact hfilter.symm

lemma length_trim_le (m : TimedMap κ ν) : (m.trim order).entries.length ≤ m.cap := by
  rw [(perm_trim order m).length_eq, length_drop, (perm_byAge order m.entries).length_eq]
  omega

lemma mem_trim_of_room (h : m.entries.length ≤ m.cap) :
    r ∈ (m.trim order).entries ↔ r ∈ m.entries := by
  have hnone : m.entries.length - m.cap = 0 := by omega
  rw [(perm_trim order m).mem_iff, hnone, drop_zero, (perm_byAge order m.entries).mem_iff]

lemma mem_of_mem_trim (h : r ∈ (m.trim order).entries) : r ∈ m.entries :=
  (mem_retain.mp h).1

end Age

lemma fits_insert (order : WalkOrder (Timed κ ν)) (m : TimedMap κ ν) (k : κ) (v : ν) (now : ℕ) :
    (m.insert order k v now).Fits :=
  length_trim_le order _

/-! ### The row an insert brings -/

def others (m : TimedMap κ ν) (k : κ) (now : ℕ) : List (Timed κ ν) :=
  (m.purge now).entries.filter fun r => r.key ≠ k

lemma mem_others : r ∈ m.others k now ↔ r ∈ m.entries ∧ now - r.inserted < m.ttl ∧ r.key ≠ k := by
  rw [others, mem_filter, mem_purge, decide_eq_true_eq, and_assoc]

lemma length_others_le (h : m.Fits) (k : κ) (now : ℕ) :
    (m.others k now).length ≤ m.cap :=
  (length_filter_le _ _).trans ((length_filter_le _ _).trans h)

lemma mem_of_mem_insert (h : r ∈ (m.insert order k v now).entries) :
    r ∈ m.others k now ∨ r = ⟨k, v, now⟩ := by
  rcases mem_put.mp (mem_of_mem_trim order h) with ⟨hr, hk⟩ | rfl
  · exact .inl (mem_filter.mpr ⟨hr, decide_eq_true hk⟩)
  · exact .inr rfl

lemma mem_insert_self (hcap : m.Fits)
    (h : (m.others k now).length < m.cap ∨ ∃ r ∈ m.others k now, r.inserted < now) :
    ⟨k, v, now⟩ ∈ (m.insert order k v now).entries := by
  have hlength : ((m.purge now).put k v now).entries.length = (m.others k now).length + 1 :=
    length_append
  have hmem : (⟨k, v, now⟩ : Timed κ ν) ∈ ((m.purge now).put k v now).entries :=
    mem_put.mpr (.inr rfl)
  rcases h with hroom | ⟨r, hr, hold⟩
  · refine (mem_trim_of_room order ?_).mpr hmem
    rw [hlength]
    exact hroom
  · -- at most one row goes, and an older one comes before the new one
    have hperm := perm_byAge order ((m.purge now).put k v now).entries
    have hsorted := pairwise_byAge order ((m.purge now).put k v now).entries
    refine (perm_trim order _).mem_iff.mpr ?_
    have hexcess : ((m.purge now).put k v now).entries.length - ((m.purge now).put k v now).cap ≤ 1 := by
      have hbound := length_others_le hcap k now
      have hsame : ((m.purge now).put k v now).cap = m.cap := rfl
      omega
    set sorted := byAge order ((m.purge now).put k v now).entries
    obtain ⟨before, after, hsplit⟩ := append_of_mem (hperm.mem_iff.mpr hmem)
    have hfirst : before ≠ [] := by
      rintro rfl
      have hrow : r ∈ sorted :=
        hperm.mem_iff.mpr (mem_append_left _ hr)
      rw [hsplit, nil_append, mem_cons] at hrow
      rw [hsplit, nil_append, pairwise_cons] at hsorted
      rcases hrow with rfl | hrow
      · exact absurd hold (lt_irrefl _)
      · exact absurd (hsorted.1 r hrow) (not_le.mpr hold)
    have hpos := length_pos_iff.mpr hfirst
    rw [hsplit, drop_append_of_le_length (by omega)]
    exact mem_append_right _ mem_cons_self

def WalkOrder.first [DecidableEq ν] (n : Timed κ ν) : WalkOrder (Timed κ ν) where
  apply l := if n ∈ l then n :: l.erase n else l
  perm l := by
    split
    · rename_i hn
      exact (perm_cons_erase hn).symm
    · exact .refl l

lemma not_mem_insert_self [DecidableEq ν] (hfull : m.cap ≤ (m.others k now).length)
    (hyoung : ∀ r ∈ m.others k now, now ≤ r.inserted) :
    ⟨k, v, now⟩ ∉ (m.insert (WalkOrder.first ⟨k, v, now⟩) k v now).entries := by
  intro hmem
  have hrows : ((m.purge now).put k v now).entries = m.others k now ++ [⟨k, v, now⟩] := rfl
  have hkept := (perm_trim _ _).mem_iff.mp hmem
  have hnew : (⟨k, v, now⟩ : Timed κ ν) ∉ m.others k now := fun h => (mem_others.mp h).2.2 rfl
  have hwalk : (WalkOrder.first (⟨k, v, now⟩ : Timed κ ν)).apply ((m.purge now).put k v now).entries =
      ⟨k, v, now⟩ :: m.others k now := by
    rw [hrows, WalkOrder.first]
    simp only [mem_append, mem_singleton, or_true, if_true]
    rw [erase_append_right _ hnew, erase_cons_head, append_nil]
  have hsorted : byAge (WalkOrder.first ⟨k, v, now⟩) ((m.purge now).put k v now).entries =
      ⟨k, v, now⟩ :: (m.others k now).insertionSort fun a b => a.inserted ≤ b.inserted := by
    rw [byAge, hwalk]
    exact insertionSort_cons_of_forall_rel _ hyoung
  have hexcess : ((m.purge now).put k v now).entries.length - ((m.purge now).put k v now).cap ≥ 1 := by
    have hsame : ((m.purge now).put k v now).cap = m.cap := rfl
    rw [hrows, length_append, length_singleton]
    omega
  rw [hsorted] at hkept
  obtain ⟨n, hn⟩ := Nat.exists_eq_add_of_le' hexcess
  rw [hn, drop_succ_cons] at hkept
  exact hnew ((mem_insertionSort _).mp (mem_of_mem_drop hkept))

lemma find?_insert_self_iff [DecidableEq ν] (hcap : m.Fits) :
    (∀ order, (m.insert order k v now).find? k = some v) ↔
      (m.others k now).length < m.cap ∨ ∃ r ∈ m.others k now, r.inserted < now := by
  constructor
  · intro hall
    by_contra hnone
    rw [not_or, not_lt, not_exists] at hnone
    obtain ⟨hfull, hyoung⟩ := hnone
    obtain ⟨r, hr, hk, -⟩ := find?_eq_some.mp (hall (WalkOrder.first ⟨k, v, now⟩))
    rcases mem_of_mem_insert hr with hother | rfl
    · exact (mem_others.mp hother).2.2 hk
    · refine not_mem_insert_self hfull (fun r hr => ?_) hr
      exact not_lt.mp fun hold => hyoung r ⟨hr, hold⟩
  · intro h order
    exact find?_eq_some.mpr ⟨_, mem_insert_self hcap h, rfl, rfl⟩

/-- Why an insert of `k` drops the row of `k'`: the row has expired, or the other live
rows fill the map. -/
def Drops (m : TimedMap κ ν) (k' k : κ) (now : ℕ) : Prop :=
  ∃ r ∈ m.entries, r.key = k' ∧ (m.ttl ≤ now - r.inserted ∨ m.cap ≤ (m.others k now).length)

/-- Another key keeps its entries, or is dropped for the new one. -/
theorem insert_of_ne (hne : k' ≠ k) (order : WalkOrder (Timed κ ν)) (v : ν) (now : ℕ) :
    (∀ r, r.key = k' → (r ∈ (m.insert order k v now).entries ↔ r ∈ m.entries)) ∨
      (m.Drops k' k now ∧ ∀ r ∈ (m.insert order k v now).entries, r.key ≠ k') := by
  have hold : ∀ r ∈ (m.insert order k v now).entries, r.key = k' → r ∈ m.entries := by
    intro r hr hk
    rcases mem_of_mem_insert hr with hother | rfl
    · exact (mem_others.mp hother).1
    · exact absurd hk.symm hne
  by_cases hgone : ∀ r ∈ (m.insert order k v now).entries, r.key ≠ k'
  · by_cases hthere : ∃ r ∈ m.entries, r.key = k'
    · obtain ⟨r, hr, hk⟩ := hthere
      refine .inr ⟨⟨r, hr, hk, ?_⟩, hgone⟩
      by_contra hkept
      rw [not_or, not_le, not_le] at hkept
      -- a live row stays where there is room
      refine hgone r ((mem_trim_of_room order ?_).mpr ?_) hk
      · exact length_append.trans_le hkept.2
      · exact mem_put.mpr (.inl ⟨mem_purge.mpr ⟨hr, hkept.1⟩, hk ▸ hne⟩)
    · refine .inl fun r hk => ⟨fun hr => hold r hr hk, fun hr => ?_⟩
      exact absurd ⟨r, hr, hk⟩ hthere
  · obtain ⟨q, hq, hqk⟩ : ∃ q ∈ (m.insert order k v now).entries, q.key = k' := by
      by_contra hnone
      exact hgone fun r hr hk => hnone ⟨r, hr, hk⟩
    refine .inl fun r hk => ⟨fun hr => hold r hr hk, fun hr => ?_⟩
    rw [m.keys.eq hr (hold q hq hqk) (hk.trans hqk.symm)]
    exact hq

end TimedMap
