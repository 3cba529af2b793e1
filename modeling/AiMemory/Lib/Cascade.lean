/-
Deletes in a relational store with foreign keys.

A row is a table, an identity that no statement changes and some cells; an
absent cell is null.  A delete takes the rows it names, then every row that
refers to one of them through a cascading foreign key, and so on; the
references of what remains to what went become null.

* `Schema.Spares`, `table_delete` — the tables a delete leaves as they are.
-/
import Mathlib.Data.List.Nodup
import Mathlib.Logic.Function.Iterate

open List

namespace Cascade

/-- What `ON DELETE` does to the child of a row that goes. -/
inductive OnDelete
  | cascade | setNull
  deriving DecidableEq

structure Reference (τ κ : Type*) where
  child : τ
  columns : List κ
  parent : τ
  keys : List κ
  onDelete : OnDelete
  deriving DecidableEq

structure Row (τ κ ν : Type*) where
  rowid : ℕ
  table : τ
  cells : List (κ × ν)
  deriving DecidableEq

variable {τ κ ν : Type*}

namespace Row

variable [DecidableEq κ]

def cell (r : Row τ κ ν) (c : κ) : Option ν := r.cells.lookup c

def key (r : Row τ κ ν) (cols : List κ) : Option (List ν) := cols.mapM r.cell

lemma key_congr {r r' : Row τ κ ν} {cols : List κ} (h : ∀ c ∈ cols, r'.cell c = r.cell c) :
    r'.key cols = r.key cols := by
  unfold key
  induction cols with
  | nil => rfl
  | cons c cols ih =>
    rw [mapM_cons, mapM_cons, h c mem_cons_self, ih fun d hd => h d (mem_cons_of_mem c hd)]

lemma cell_ne_none {r : Row τ κ ν} {cols : List κ} {c : κ} (h : (r.key cols).isSome)
    (hc : c ∈ cols) : r.cell c ≠ none := by
  unfold key at h
  induction cols with
  | nil => cases hc
  | cons d cols ih =>
    rw [mapM_cons] at h
    cases hd : r.cell d with
    | none => simp [hd] at h
    | some v =>
      rcases mem_cons.mp hc with rfl | hc
      · simp [hd]
      · refine ih ?_ hc
        cases hk : cols.mapM r.cell with
        | none => simp [hd, hk] at h
        | some vs => rfl

end Row

variable [DecidableEq τ] [DecidableEq κ] [DecidableEq ν]

def Reference.refers (f : Reference τ κ) (r p : Row τ κ ν) : Bool :=
  r.table = f.child && p.table = f.parent && (r.key f.columns).isSome
    && r.key f.columns = p.key f.keys

variable {p : Row τ κ ν}

lemma Reference.refers_iff {f : Reference τ κ} {r : Row τ κ ν} :
    f.refers r p ↔ r.table = f.child ∧ p.table = f.parent ∧ (r.key f.columns).isSome ∧
      r.key f.columns = p.key f.keys := by
  simp [refers, and_assoc]

/-- The foreign keys of a store, the columns that updates assign and the tables
that inserts go to.  No key of a parent and no column of a cascade is one that a
delete sets to null, none of a foreign key is assigned, and no row refers to a
log. -/
structure Schema (τ κ : Type*) where
  references : List (Reference τ κ)
  assigned : List κ
  logs : List τ
  logs_childless : ∀ f ∈ references, f.parent ∉ logs
  columns_ne : ∀ f ∈ references, f.columns ≠ []
  assigned_free : ∀ f ∈ references, ∀ c ∈ assigned, c ∉ f.columns ∧ c ∉ f.keys
  keys_kept : ∀ f ∈ references, f.onDelete = .setNull → ∀ g ∈ references,
    g.parent = f.child → ∀ c ∈ f.columns, c ∉ g.keys

namespace Schema

variable (S : Schema τ κ)

def cascades (r p : Row τ κ ν) : Bool :=
  S.references.any fun f => f.onDelete = .cascade && f.refers r p

def nullable (t : τ) (c : κ) : Bool :=
  S.references.any fun f => f.onDelete = .setNull && f.child = t && c ∈ f.columns

def fixed (t : τ) (c : κ) : Bool := !S.nullable t c && c ∉ S.assigned

def released (gone : List (Row τ κ ν)) (r : Row τ κ ν) (c : κ) : Bool :=
  S.references.any fun f => f.onDelete = .setNull && c ∈ f.columns && gone.any (f.refers r)

def release (gone : List (Row τ κ ν)) (r : Row τ κ ν) : Row τ κ ν :=
  { r with cells := r.cells.filter fun c => !S.released gone r c.1 }

def spread (rows doomed : List (Row τ κ ν)) : List (Row τ κ ν) :=
  rows.filter fun r => r ∈ doomed || doomed.any (S.cascades r)

def doomed (rows : List (Row τ κ ν)) (base : Row τ κ ν → Bool) : List (Row τ κ ν) :=
  (S.spread rows)^[rows.length] (rows.filter base)

def remaining (rows : List (Row τ κ ν)) (base : Row τ κ ν → Bool) : List (Row τ κ ν) :=
  (rows.filter fun r => r ∉ S.doomed rows base).map (S.release (S.doomed rows base))

end Schema

/-- What a delete takes: the rows it names and, through the cascades, what
depends on them. -/
inductive Doomed (S : Schema τ κ) (rows : List (Row τ κ ν)) (base : Row τ κ ν → Bool) :
    Row τ κ ν → Prop
  | base {r : Row τ κ ν} : r ∈ rows → base r = true → Doomed S rows base r
  | cascade {r p : Row τ κ ν} : r ∈ rows → Doomed S rows base p → S.cascades r p = true →
      Doomed S rows base r

lemma Doomed.mem {S : Schema τ κ} {rows : List (Row τ κ ν)} {base : Row τ κ ν → Bool}
    {r : Row τ κ ν} (h : Doomed S rows base r) : r ∈ rows := by
  cases h with
  | base hr _ | cascade hr _ _ => exact hr

section Closure

variable {S : Schema τ κ} {rows : List (Row τ κ ν)} {base : Row τ κ ν → Bool}

lemma exists_iterate_spread (S : Schema τ κ) (rows : List (Row τ κ ν))
    (base : Row τ κ ν → Bool) (n : ℕ) : ∃ q : Row τ κ ν → Bool,
    (S.spread rows)^[n] (rows.filter base) = rows.filter q := by
  cases n with
  | zero => exact ⟨base, rfl⟩
  | succ n =>
    rw [Function.iterate_succ_apply']
    exact ⟨_, rfl⟩

lemma mem_spread {doomed : List (Row τ κ ν)} {r : Row τ κ ν} :
    r ∈ S.spread rows doomed ↔ r ∈ rows ∧ (r ∈ doomed ∨ ∃ p ∈ doomed, S.cascades r p = true) := by
  simp [Schema.spread]

lemma spread_grows (S : Schema τ κ) (rows : List (Row τ κ ν)) (q : Row τ κ ν → Bool) :
    S.spread rows (rows.filter q) = rows.filter q ∨
      (rows.filter q).length < (S.spread rows (rows.filter q)).length := by
  have hsub : (rows.filter q).Sublist (S.spread rows (rows.filter q)) := by
    have hq : rows.filter q = rows.filter fun r => decide (r ∈ rows.filter q) := by
      refine filter_congr fun r hr => ?_
      simp [hr]
    rw [Schema.spread]
    conv_lhs => rw [hq]
    refine monotone_filter_right rows fun r hr => ?_
    rw [hr, Bool.true_or]
  rcases Nat.lt_or_ge (rows.filter q).length (S.spread rows (rows.filter q)).length with h | h
  · exact .inr h
  · exact .inl (hsub.eq_of_length_le h).symm

lemma doomed_closed : S.spread rows (S.doomed rows base) = S.doomed rows base := by
  -- After `n` rounds the selection is closed or has at least `n` rows.
  have hround : ∀ n, S.spread rows ((S.spread rows)^[n] (rows.filter base))
        = (S.spread rows)^[n] (rows.filter base) ∨
      n < (S.spread rows ((S.spread rows)^[n] (rows.filter base))).length := by
    intro n
    induction n with
    | zero =>
      rcases spread_grows S rows base with h | h
      · exact .inl h
      · exact .inr (by rw [Function.iterate_zero, id]; omega)
    | succ n ih =>
      rw [Function.iterate_succ_apply']
      rcases ih with h | h
      · exact .inl (by rw [h, h])
      · obtain ⟨q, hq⟩ := exists_iterate_spread S rows base (n + 1)
        rw [Function.iterate_succ_apply'] at hq
        rw [hq]
        rw [hq] at h
        rcases spread_grows S rows q with h' | h'
        · exact .inl h'
        · exact .inr (by omega)
  rcases hround rows.length with h | h
  · exact h
  · have hle : (S.spread rows ((S.spread rows)^[rows.length] (rows.filter base))).length
        ≤ rows.length := length_filter_le _ _
    omega

lemma mem_doomed {r : Row τ κ ν} : r ∈ S.doomed rows base ↔ Doomed S rows base r := by
  constructor
  · -- Every round takes only rows that the delete takes.
    have hround : ∀ n, ∀ r ∈ (S.spread rows)^[n] (rows.filter base), Doomed S rows base r := by
      intro n
      induction n with
      | zero =>
        intro r hr
        obtain ⟨hr, hb⟩ := mem_filter.mp hr
        exact .base hr hb
      | succ n ih =>
        intro r hr
        rw [Function.iterate_succ_apply', mem_spread] at hr
        obtain ⟨hmem, hr | ⟨p, hp, hrp⟩⟩ := hr
        · exact ih r hr
        · exact .cascade hmem (ih p hp) hrp
    exact hround _ r
  · intro h
    induction h with
    | base hr hb =>
      -- The rows named are in the first round, and no round drops one.
      have hround : ∀ n, ∀ r ∈ rows, base r = true →
          r ∈ (S.spread rows)^[n] (rows.filter base) := by
        intro n
        induction n with
        | zero => exact fun r hr hb => mem_filter.mpr ⟨hr, hb⟩
        | succ n ih =>
          intro r hr hb
          rw [Function.iterate_succ_apply', mem_spread]
          exact ⟨hr, .inl (ih r hr hb)⟩
      exact hround _ _ hr hb
    | cascade hr _ hrp ih =>
      rw [← doomed_closed, mem_spread]
      exact ⟨hr, .inr ⟨_, ih, hrp⟩⟩

instance decidableDoomed (r : Row τ κ ν) : Decidable (Doomed S rows base r) :=
  decidable_of_iff _ mem_doomed

end Closure

/-! ### Rows after a statement -/

omit [DecidableEq ν] in
lemma lookup_filter (q : κ → Bool) (c : κ) (l : List (κ × ν)) :
    (l.filter fun x => q x.1).lookup c = if q c then l.lookup c else none := by
  induction l with
  | nil => simp
  | cons x l ih =>
    obtain ⟨d, v⟩ := x
    by_cases hd : c = d
    · subst hd
      cases hq : q c with
      | true => simp [hq]
      | false =>
        rw [filter_cons, if_neg (by simp [hq]), ih, hq]
        rfl
    · have hne : (c == d) = false := by simpa using hd
      cases hq : q d with
      | true | false => simp [hq, lookup_cons, hne, ih]

section Release

variable {S : Schema τ κ} {gone : List (Row τ κ ν)} {r : Row τ κ ν} {c : κ}

lemma cell_release :
    (S.release gone r).cell c = if S.released gone r c then none else r.cell c := by
  rw [Schema.release, Row.cell, lookup_filter fun c => !S.released gone r c]
  cases S.released gone r c <;> rfl

lemma released_iff : S.released gone r c ↔
    ∃ f ∈ S.references, f.onDelete = .setNull ∧ c ∈ f.columns ∧ ∃ p ∈ gone, f.refers r p = true := by
  simp [Schema.released, and_assoc]

lemma nullable_of_released (h : S.released gone r c) : S.nullable r.table c := by
  obtain ⟨f, hf, hnull, hc, p, -, hp⟩ := released_iff.mp h
  obtain ⟨htable, -⟩ := Reference.refers_iff.mp hp
  simp only [Schema.nullable, any_eq_true, Bool.and_eq_true, decide_eq_true_eq]
  exact ⟨f, hf, ⟨hnull, htable.symm⟩, hc⟩

lemma key_release {f : Reference τ κ} (hf : f ∈ S.references) (hr : r.table = f.parent) :
    (S.release gone r).key f.keys = r.key f.keys := by
  refine Row.key_congr fun c hc => ?_
  rw [cell_release, if_neg]
  intro h
  obtain ⟨g, hg, hnull, hcg, p, -, hp⟩ := released_iff.mp h
  obtain ⟨hchild, -⟩ := Reference.refers_iff.mp hp
  exact S.keys_kept g hg hnull f hf (hr.symm.trans hchild) c hcg hc

end Release

structure Descends (S : Schema τ κ) (r r' : Row τ κ ν) : Prop where
  rowid : r'.rowid = r.rowid
  table : r'.table = r.table
  cell : ∀ c, S.fixed r.table c = true → r'.cell c = r.cell c
  cell_some : ∀ c ∉ S.assigned, ∀ v, r'.cell c = some v → r.cell c = some v

namespace Descends

variable {S : Schema τ κ} {r r' r'' : Row τ κ ν}

omit [DecidableEq ν] in
lemma refl (r : Row τ κ ν) : Descends S r r :=
  ⟨rfl, rfl, fun _ _ => rfl, fun _ _ _ h => h⟩

omit [DecidableEq ν] in
lemma trans (h : Descends S r r') (h' : Descends S r' r'') : Descends S r r'' where
  rowid := h'.rowid.trans h.rowid
  table := h'.table.trans h.table
  cell c hc := (h'.cell c (h.table ▸ hc)).trans (h.cell c hc)
  cell_some c hc v hv := h.cell_some c hc v (h'.cell_some c hc v hv)

lemma release (gone : List (Row τ κ ν)) (r : Row τ κ ν) : Descends S r (S.release gone r) where
  rowid := rfl
  table := rfl
  cell c hc := by
    rw [cell_release, if_neg]
    intro h
    rw [Schema.fixed, nullable_of_released h] at hc
    cases hc
  cell_some c _ v hv := by
    rw [cell_release] at hv
    split at hv
    · cases hv
    · exact hv

omit [DecidableEq ν] in
lemma key_some (h : Descends S r r') {cols : List κ} (hc : ∀ c ∈ cols, c ∉ S.assigned)
    (hsome : (r'.key cols).isSome) : r'.key cols = r.key cols := by
  refine Row.key_congr fun c hmem => ?_
  obtain ⟨v, hv⟩ := Option.ne_none_iff_exists'.mp (Row.cell_ne_none hsome hmem)
  rw [hv, h.cell_some c (hc c hmem) v hv]

end Descends

lemma Descends.refers {S : Schema τ κ} {r r' p' : Row τ κ ν} (hr : Descends S r r')
    (hp : Descends S p p') {f : Reference τ κ} (hf : f ∈ S.references) (h : f.refers r' p') :
    f.refers r p := by
  obtain ⟨hchild, hparent, hsome, hkey⟩ := Reference.refers_iff.mp h
  have hcols := hr.key_some (fun c hc ha => (S.assigned_free f hf c ha).1 hc) hsome
  have hkeys := hp.key_some (fun c hc ha => (S.assigned_free f hf c ha).2 hc) (hkey ▸ hsome)
  rw [hr.table] at hchild
  rw [hp.table] at hparent
  rw [hcols] at hsome hkey
  exact Reference.refers_iff.mpr ⟨hchild, hparent, hsome, hkey.trans hkeys⟩

lemma Descends.cascades {S : Schema τ κ} {r r' p' : Row τ κ ν} (hr : Descends S r r')
    (hp : Descends S p p') (h : S.cascades r' p') : S.cascades r p := by
  simp only [Schema.cascades, any_eq_true, Bool.and_eq_true, decide_eq_true_eq] at h ⊢
  obtain ⟨f, hf, hcas, href⟩ := h
  exact ⟨f, hf, hcas, hr.refers hp hf href⟩

/-- Rows with identities of their own and keys of their own, whose references
resolve.  `next` has never been an identity. -/
structure Database (S : Schema τ κ) (ν : Type*) [DecidableEq ν] where
  rows : List (Row τ κ ν)
  next : ℕ
  rowids : (rows.map (·.rowid)).Nodup
  rowid_lt : ∀ r ∈ rows, r.rowid < next
  referential : ∀ f ∈ S.references, ∀ r ∈ rows, r.table = f.child → (r.key f.columns).isSome →
    ∃ p ∈ rows, f.refers r p = true
  unique : ∀ f ∈ S.references, ∀ p ∈ rows, ∀ q ∈ rows, p.table = f.parent → q.table = f.parent →
    (p.key f.keys).isSome → p.key f.keys = q.key f.keys → p = q

namespace Database

variable {S : Schema τ κ} (db : Database S ν)

def table (t : τ) : List (Row τ κ ν) := db.rows.filter fun r => r.table = t

lemma mem_table {t : τ} {r : Row τ κ ν} : r ∈ db.table t ↔ r ∈ db.rows ∧ r.table = t := by
  simp [table]

lemma rows_nodup : db.rows.Nodup := .of_map _ db.rowids

lemma countP_table_eq_one {t : τ} {p : Row τ κ ν → Bool} {r : Row τ κ ν} (hr : r ∈ db.table t)
    (hp : p r) (huniq : ∀ q ∈ db.table t, p q = true → q = r) :
    (db.table t).countP p = 1 := by
  have hcount : (db.table t).countP p = (db.table t).count r := by
    refine countP_congr fun q hq => ?_
    rw [beq_iff_eq]
    exact ⟨huniq q hq, fun h => h ▸ hp⟩
  rw [hcount]
  exact count_eq_one_of_mem (db.rows_nodup.filter _) hr

lemma eq_of_rowid {r r' : Row τ κ ν} (hr : r ∈ db.rows) (hr' : r' ∈ db.rows)
    (h : r.rowid = r'.rowid) : r = r' :=
  inj_on_of_nodup_map db.rowids hr hr' h

lemma mem_remaining {rows : List (Row τ κ ν)} {base : Row τ κ ν → Bool} {r' : Row τ κ ν} :
    r' ∈ S.remaining rows base ↔
      ∃ r ∈ rows, ¬ Doomed S rows base r ∧ S.release (S.doomed rows base) r = r' := by
  simp [Schema.remaining, mem_doomed, and_assoc]

lemma map_rowid_remaining (rows : List (Row τ κ ν)) (base : Row τ κ ν → Bool) :
    ((S.remaining rows base).map (·.rowid)).Sublist (rows.map (·.rowid)) := by
  rw [Schema.remaining, map_map]
  exact (filter_sublist.map _)

/-- `DELETE FROM … WHERE base`. -/
def delete (base : Row τ κ ν → Bool) : Database S ν where
  rows := S.remaining db.rows base
  next := db.next
  rowids := db.rowids.sublist (map_rowid_remaining db.rows base)
  rowid_lt r' hr' := by
    obtain ⟨r, hr, -, rfl⟩ := mem_remaining.mp hr'
    exact db.rowid_lt r hr
  referential f hf r' hr' hchild hsome := by
    obtain ⟨r, hr, hkept, rfl⟩ := mem_remaining.mp hr'
    -- A reference without a null is one that was not released.
    have hcell : ∀ c ∈ f.columns, S.released (S.doomed db.rows base) r c = false := by
      intro c hc
      have hne := Row.cell_ne_none hsome hc
      rw [cell_release] at hne
      rw [← Bool.not_eq_true]
      intro h
      rw [if_pos h] at hne
      exact hne rfl
    have hkey : (S.release (S.doomed db.rows base) r).key f.columns = r.key f.columns := by
      refine Row.key_congr fun c hc => ?_
      rw [cell_release, hcell c hc, if_neg (by simp)]
    rw [hkey] at hsome
    obtain ⟨p, hp, href⟩ := db.referential f hf r hr hchild hsome
    obtain ⟨-, hparent, -, heq⟩ := Reference.refers_iff.mp href
    have hpkept : ¬ Doomed S db.rows base p := by
      intro hdoom
      cases hact : f.onDelete with
      | cascade =>
        refine hkept (.cascade hr hdoom ?_)
        simp only [Schema.cascades, any_eq_true, Bool.and_eq_true, decide_eq_true_eq]
        exact ⟨f, hf, hact, href⟩
      | setNull =>
        obtain ⟨c, hc⟩ := exists_mem_of_ne_nil _ (S.columns_ne f hf)
        have hrel : S.released (S.doomed db.rows base) r c = true :=
          released_iff.mpr ⟨f, hf, hact, hc, p, mem_doomed.mpr hdoom, href⟩
        rw [hcell c hc] at hrel
        exact absurd hrel (by simp)
    refine ⟨_, mem_remaining.mpr ⟨p, hp, hpkept, rfl⟩, Reference.refers_iff.mpr ?_⟩
    rw [hkey, key_release hf hparent]
    exact ⟨hchild, hparent, hsome, heq⟩
  unique f hf p' hp' q' hq' hpt hqt hsome heq := by
    obtain ⟨p, hp, -, rfl⟩ := mem_remaining.mp hp'
    obtain ⟨q, hq, -, rfl⟩ := mem_remaining.mp hq'
    change p.table = f.parent at hpt
    change q.table = f.parent at hqt
    rw [key_release hf hpt] at hsome heq
    rw [key_release hf hqt] at heq
    rw [db.unique f hf p hp q hq hpt hqt hsome heq]

def admits (r : Row τ κ ν) : Prop :=
  ∀ f ∈ S.references, r.table = f.child → (r.key f.columns).isSome →
    ∃ p ∈ db.rows, f.refers r p = true

instance decidableAdmits (r : Row τ κ ν) : Decidable (db.admits r) := by
  unfold admits
  infer_instance

def newRow (t : τ) (cells : List (κ × ν)) : Row τ κ ν := ⟨db.next, t, cells⟩

/-- `INSERT INTO t`, a log; nothing when a foreign key refuses it. -/
def insert (t : τ) (ht : t ∈ S.logs) (cells : List (κ × ν)) : Option (Database S ν) :=
  if h : db.admits (db.newRow t cells) then
    some {
      rows := db.rows ++ [db.newRow t cells]
      next := db.next + 1
      rowids := by
        rw [map_append, nodup_append]
        refine ⟨db.rowids, nodup_singleton _, ?_⟩
        intro a ha b hb hab
        obtain ⟨r, hr, rfl⟩ := mem_map.mp ha
        rw [map_singleton, mem_singleton] at hb
        have hlt := db.rowid_lt r hr
        rw [hab, hb] at hlt
        exact Nat.lt_irrefl _ hlt
      rowid_lt := by
        intro r hr
        rcases mem_append.mp hr with hr | hr
        · exact Nat.lt_succ_of_lt (db.rowid_lt r hr)
        · rw [mem_singleton.mp hr]
          exact Nat.lt_succ_self _
      referential := by
        intro f hf r hr hchild hsome
        have hold : ∃ p ∈ db.rows, f.refers r p = true := by
          rcases mem_append.mp hr with hr | hr
          · exact db.referential f hf r hr hchild hsome
          · obtain rfl := mem_singleton.mp hr
            exact h f hf hchild hsome
        obtain ⟨p, hp, href⟩ := hold
        exact ⟨p, mem_append_left _ hp, href⟩
      unique := by
        intro f hf p hp q hq hpt hqt hsome heq
        have hold : ∀ p ∈ db.rows ++ [db.newRow t cells], p.table = f.parent → p ∈ db.rows := by
          intro p hp hpt
          rcases mem_append.mp hp with hp | hp
          · exact hp
          · obtain rfl := mem_singleton.mp hp
            refine absurd ht ?_
            rw [show t = f.parent from hpt]
            exact S.logs_childless f hf
        exact db.unique f hf p (hold p hp hpt) q (hold q hq hqt) hpt hqt hsome heq }
  else none

/-- `SET c = v`. -/
def setCell (c : κ) (v : ν) (r : Row τ κ ν) : Row τ κ ν :=
  { r with cells := (c, v) :: r.cells.filter fun x => !(x.1 = c) }

omit [DecidableEq τ] [DecidableEq ν] in
lemma cell_setCell {c d : κ} (v : ν) (r : Row τ κ ν) (h : d ≠ c) :
    (setCell c v r).cell d = r.cell d := by
  have hne : (d == c) = false := by simpa using h
  rw [setCell, Row.cell, lookup_cons, hne]
  exact (lookup_filter (fun x => !(x = c)) d r.cells).trans (by simp [h, Row.cell])

omit [DecidableEq τ] [DecidableEq ν] in
lemma key_setCell {f : Reference τ κ} (hf : f ∈ S.references) {c : κ} (hc : c ∈ S.assigned)
    (v : ν) (r : Row τ κ ν) : (setCell c v r).key f.columns = r.key f.columns ∧
      (setCell c v r).key f.keys = r.key f.keys := by
  obtain ⟨hcols, hkeys⟩ := S.assigned_free f hf c hc
  exact ⟨Row.key_congr fun d hd => cell_setCell v r fun h => hcols (h ▸ hd),
    Row.key_congr fun d hd => cell_setCell v r fun h => hkeys (h ▸ hd)⟩

/-- `UPDATE … SET c = v WHERE which`, of a column of no foreign key. -/
def assign (which : Row τ κ ν → Bool) (c : κ) (hc : c ∈ S.assigned) (v : ν) : Database S ν :=
  let change (r : Row τ κ ν) : Row τ κ ν := if which r then setCell c v r else r
  have hrowid : ∀ r, (change r).rowid = r.rowid := fun r => by
    simp only [change]
    split <;> rfl
  have htable : ∀ r, (change r).table = r.table := fun r => by
    simp only [change]
    split <;> rfl
  have hkey : ∀ f ∈ S.references, ∀ r, (change r).key f.columns = r.key f.columns ∧
      (change r).key f.keys = r.key f.keys := fun f hf r => by
    simp only [change]
    split
    · exact key_setCell hf hc v r
    · exact ⟨rfl, rfl⟩
  { rows := db.rows.map change
    next := db.next
    rowids := by
      rw [map_map]
      exact (map_congr_left fun r _ => hrowid r) ▸ db.rowids
    rowid_lt := by
      intro r' hr'
      obtain ⟨r, hr, rfl⟩ := mem_map.mp hr'
      rw [hrowid]
      exact db.rowid_lt r hr
    referential := by
      intro f hf r' hr' hchild hsome
      obtain ⟨r, hr, rfl⟩ := mem_map.mp hr'
      rw [htable] at hchild
      rw [(hkey f hf r).1] at hsome
      obtain ⟨p, hp, href⟩ := db.referential f hf r hr hchild hsome
      obtain ⟨-, hparent, -, heq⟩ := Reference.refers_iff.mp href
      refine ⟨change p, mem_map_of_mem hp, Reference.refers_iff.mpr ?_⟩
      rw [htable, htable, (hkey f hf r).1, (hkey f hf p).2]
      exact ⟨hchild, hparent, hsome, heq⟩
    unique := by
      intro f hf p' hp' q' hq' hpt hqt hsome heq
      obtain ⟨p, hp, rfl⟩ := mem_map.mp hp'
      obtain ⟨q, hq, rfl⟩ := mem_map.mp hq'
      rw [htable] at hpt hqt
      rw [(hkey f hf p).2] at hsome heq
      rw [(hkey f hf q).2] at heq
      rw [db.unique f hf p hp q hq hpt hqt hsome heq] }

def deletes (db : Database S ν) (bases : List (Row τ κ ν → Bool)) : Database S ν :=
  bases.foldl delete db

lemma deletes_append (bases bases' : List (Row τ κ ν → Bool)) :
    db.deletes (bases ++ bases') = (db.deletes bases).deletes bases' := foldl_append

/-! ### Runs of statements -/

theorem mem_delete {base : Row τ κ ν → Bool} {r' : Row τ κ ν} :
    r' ∈ (db.delete base).rows ↔
      ∃ r ∈ db.rows, ¬ Doomed S db.rows base r ∧ S.release (S.doomed db.rows base) r = r' :=
  mem_remaining

end Database

structure Evolves {S : Schema τ κ} (db db' : Database S ν) : Prop where
  next_le : db.next ≤ db'.next
  descends : ∀ r' ∈ db'.rows, r'.rowid < db.next → ∃ r ∈ db.rows, Descends S r r'
  logged : ∀ r' ∈ db'.rows, r'.rowid < db.next ∨ r'.table ∈ S.logs

def Removed {S : Schema τ κ} (db db' : Database S ν) (r : Row τ κ ν) : Prop :=
  r ∈ db.rows ∧ ∀ r' ∈ db'.rows, r'.rowid ≠ r.rowid

section Evolves

variable {S : Schema τ κ} {db db' db'' : Database S ν} {r : Row τ κ ν}

lemma Evolves.refl (db : Database S ν) : Evolves db db :=
  ⟨Nat.le_refl _, fun r hr _ => ⟨r, hr, .refl r⟩, fun r hr => .inl (db.rowid_lt r hr)⟩

lemma Evolves.trans (h : Evolves db db') (h' : Evolves db' db'') : Evolves db db'' where
  next_le := Nat.le_trans h.next_le h'.next_le
  descends r'' hr'' hlt := by
    obtain ⟨r', hr', hd'⟩ := h'.descends r'' hr'' (Nat.lt_of_lt_of_le hlt h.next_le)
    obtain ⟨r, hr, hd⟩ := h.descends r' hr' (hd'.rowid ▸ hlt)
    exact ⟨r, hr, hd.trans hd'⟩
  logged r'' hr'' := by
    rcases h'.logged r'' hr'' with hlt | hlog
    · obtain ⟨r', hr', hd⟩ := h'.descends r'' hr'' hlt
      rw [hd.rowid, hd.table]
      exact h.logged r' hr'
    · exact .inr hlog

lemma Evolves.exists_descends (h : Evolves db db') {r' : Row τ κ ν} (hr' : r' ∈ db'.rows)
    (hlog : r'.table ∉ S.logs) : ∃ r ∈ db.rows, Descends S r r' :=
  h.descends r' hr' ((h.logged r' hr').resolve_right hlog)

lemma Evolves.descends_of_rowid (h : Evolves db db') {r' : Row τ κ ν} (hr : r ∈ db.rows)
    (hr' : r' ∈ db'.rows) (hid : r'.rowid = r.rowid) : Descends S r r' := by
  obtain ⟨r₀, hr₀, hd⟩ := h.descends r' hr' (hid ▸ db.rowid_lt r hr)
  rwa [db.eq_of_rowid hr hr₀ (hid.symm.trans hd.rowid)]

lemma Evolves.exists_of_not_removed (h : Evolves db db') (hr : r ∈ db.rows)
    (hnot : ¬ Removed db db' r) : ∃ r' ∈ db'.rows, Descends S r r' := by
  rw [Removed, not_and] at hnot
  have hex := hnot hr
  push Not at hex
  obtain ⟨r', hr', hid⟩ := hex
  exact ⟨r', hr', h.descends_of_rowid hr hr' hid⟩

lemma Removed.trans (h : Removed db db' r) (he : Evolves db db') (he' : Evolves db' db'') :
    Removed db db'' r := by
  refine ⟨h.1, fun r'' hr'' hid => ?_⟩
  have hlt := Nat.lt_of_lt_of_le (db.rowid_lt r h.1) he.next_le
  obtain ⟨r', hr', hd⟩ := he'.descends r'' hr'' (hid ▸ hlt)
  exact h.2 r' hr' (hd.rowid.symm.trans hid)

lemma Removed.of_descends {r' : Row τ κ ν} (h : Removed db' db'' r') (hr : r ∈ db.rows)
    (hd : Descends S r r') : Removed db db'' r :=
  ⟨hr, fun r'' hr'' hid => h.2 r'' hr'' (hid.trans hd.rowid.symm)⟩

end Evolves

def Justified {S : Schema τ κ} (named : Row τ κ ν → Prop)
    (dependent : Row τ κ ν → Row τ κ ν → Prop) (db db' : Database S ν) : Prop :=
  ∀ r, Removed db db' r → named r ∨ ∃ p, Removed db db' p ∧ dependent r p

section Justified

variable {S : Schema τ κ} {named : Row τ κ ν → Prop} {dependent : Row τ κ ν → Row τ κ ν → Prop}
  {db db' db'' : Database S ν}

lemma Justified.refl (db : Database S ν) : Justified named dependent db db :=
  fun r h => absurd rfl (h.2 r h.1)

lemma Justified.step (h : Justified named dependent db' db'') (he : Evolves db db')
    (hnamed : ∀ r r', Descends S r r' → named r' → named r)
    (hdep : ∀ r r' p p', Descends S r r' → Descends S p p' → dependent r' p' → dependent r p)
    (hlogs : ∀ r p, dependent r p → p.table ∉ S.logs)
    (hstep : ∀ r, Removed db db' r → named r ∨ ∃ p, Removed db db'' p ∧ dependent r p) :
    Justified named dependent db db'' := by
  intro r hr
  by_cases hnow : Removed db db' r
  · exact hstep r hnow
  · obtain ⟨r', hr', hd⟩ := he.exists_of_not_removed hr.1 hnow
    have hgone : Removed db' db'' r' :=
      ⟨hr', fun r'' hr'' hid => hr.2 r'' hr'' (hid.trans hd.rowid)⟩
    rcases h r' hgone with hn | ⟨p', hp', hrp⟩
    · exact .inl (hnamed r r' hd hn)
    · obtain ⟨p, hp, hpd⟩ := he.exists_descends hp'.1 (hlogs r' p' hrp)
      exact .inr ⟨p, hp'.of_descends hp hpd, hdep r r' p p' hd hpd hrp⟩

end Justified

namespace Database

section Statements

variable {S : Schema τ κ} {db db' : Database S ν} {base : Row τ κ ν → Bool}

lemma evolves_delete (db : Database S ν) (base : Row τ κ ν → Bool) :
    Evolves db (db.delete base) where
  next_le := Nat.le_refl _
  descends r' hr' _ := by
    obtain ⟨r, hr, -, rfl⟩ := db.mem_delete.mp hr'
    exact ⟨r, hr, .release _ r⟩
  logged r' hr' := .inl ((db.delete base).rowid_lt r' hr')

lemma removed_delete {r : Row τ κ ν} :
    Removed db (db.delete base) r ↔ Doomed S db.rows base r := by
  constructor
  · intro h
    by_contra hkept
    exact h.2 _ (db.mem_delete.mpr ⟨r, h.1, hkept, rfl⟩) rfl
  · intro h
    refine ⟨h.mem, fun r' hr' hid => ?_⟩
    obtain ⟨r₀, hr₀, hkept, rfl⟩ := db.mem_delete.mp hr'
    exact hkept (db.eq_of_rowid h.mem hr₀ hid.symm ▸ h)

lemma removed_delete_cases {r : Row τ κ ν} (h : Removed db (db.delete base) r) :
    base r ∨ ∃ p, Removed db (db.delete base) p ∧ S.cascades r p := by
  cases removed_delete.mp h with
  | base _ hb => exact .inl hb
  | cascade _ hp hrp => exact .inr ⟨_, removed_delete.mpr hp, hrp⟩

lemma evolves_deletes (db : Database S ν) (bases : List (Row τ κ ν → Bool)) :
    Evolves db (db.deletes bases) := by
  induction bases generalizing db with
  | nil => exact .refl db
  | cons base bases ih => exact (evolves_delete db base).trans (ih (db.delete base))

lemma not_base_of_evolves {r : Row τ κ ν} (hst : ∀ r r', Descends S r r' → base r' → base r)
    (he : Evolves (db.delete base) db') (hr : r ∈ db'.rows) (hlog : r.table ∉ S.logs) :
    base r = false := by
  obtain ⟨r₁, hr₁, hd⟩ := he.exists_descends hr hlog
  obtain ⟨r₀, hr₀, hkept, rfl⟩ := db.mem_delete.mp hr₁
  rw [← Bool.not_eq_true]
  intro hb
  exact hkept (.base hr₀ (hst _ _ ((Descends.release _ r₀).trans hd) hb))

lemma not_base_of_evolves_deletes {bases : List (Row τ κ ν → Bool)} {r : Row τ κ ν}
    (hmem : base ∈ bases) (hst : ∀ r r', Descends S r r' → base r' → base r)
    (he : Evolves (db.deletes bases) db') (hr : r ∈ db'.rows) (hlog : r.table ∉ S.logs) :
    base r = false := by
  induction bases generalizing db with
  | nil => cases hmem
  | cons b bases ih =>
    rcases mem_cons.mp hmem with rfl | hmem
    · exact not_base_of_evolves hst ((evolves_deletes (db.delete base) bases).trans he) hr hlog
    · exact ih hmem (show Evolves ((db.delete b).deletes bases) db' from he)

variable {cells : List (κ × ν)}

lemma insert_eq_some {t : τ} {ht : t ∈ S.logs} (h : db.insert t ht cells = some db') :
    db.admits (db.newRow t cells) ∧ db'.rows = db.rows ++ [db.newRow t cells] ∧
      db'.next = db.next + 1 := by
  unfold insert at h
  split at h
  · rename_i hadm
    cases h
    exact ⟨hadm, rfl, rfl⟩
  · cases h

lemma insert_isSome {t : τ} (ht : t ∈ S.logs) :
    (db.insert t ht cells).isSome ↔ db.admits (db.newRow t cells) := by
  unfold insert
  split <;> simp_all

lemma evolves_insert {t : τ} {ht : t ∈ S.logs} (h : db.insert t ht cells = some db') :
    Evolves db db' := by
  obtain ⟨-, hrows, hnext⟩ := insert_eq_some h
  have hnew : ∀ r' ∈ db'.rows, r' ∈ db.rows ∨ r' = db.newRow t cells := fun r' hr' => by
    rw [hrows] at hr'
    exact (mem_append.mp hr').imp_right mem_singleton.mp
  refine ⟨hnext ▸ Nat.le_succ _, fun r' hr' hlt => ?_, fun r' hr' => ?_⟩
  · rcases hnew r' hr' with hr' | rfl
    · exact ⟨r', hr', .refl r'⟩
    · exact absurd hlt (Nat.lt_irrefl _)
  · rcases hnew r' hr' with hr' | rfl
    · exact .inl (db.rowid_lt r' hr')
    · exact .inr ht

lemma not_removed_insert {t : τ} {ht : t ∈ S.logs} (h : db.insert t ht cells = some db')
    (r : Row τ κ ν) : ¬ Removed db db' r := by
  obtain ⟨-, hrows, -⟩ := insert_eq_some h
  exact fun hr => hr.2 r (hrows ▸ mem_append_left _ hr.1) rfl

variable {c : κ} {hc : c ∈ S.assigned} {v : ν} {which : Row τ κ ν → Bool}

lemma evolves_assign (db : Database S ν) : Evolves db (db.assign which c hc v) where
  next_le := Nat.le_refl _
  descends r' hr' _ := by
    obtain ⟨r, hr, rfl⟩ := mem_map.mp hr'
    refine ⟨r, hr, ?_⟩
    split
    · refine ⟨rfl, rfl, fun d hd => cell_setCell v r fun hdc => ?_, fun d hd w hw => ?_⟩
      · rw [Schema.fixed, hdc, Bool.and_eq_true, decide_eq_true_eq] at hd
        exact hd.2 hc
      · have hne : d ≠ c := fun hdc => hd (hdc ▸ hc)
        rwa [cell_setCell v r hne] at hw
    · exact .refl r
  logged r' hr' := .inl ((db.assign which c hc v).rowid_lt r' hr')

lemma not_removed_assign (r : Row τ κ ν) : ¬ Removed db (db.assign which c hc v) r := by
  intro hr
  refine hr.2 _ (mem_map_of_mem hr.1) ?_
  split <;> rfl

end Statements

end Database

section Transactions

variable {S : Schema τ κ} {named : Row τ κ ν → Prop} {dependent : Row τ κ ν → Row τ κ ν → Prop}

/-- What named and dependent mean does not change as a row loses references, what
goes with a row depends on it, and nothing depends on a log. -/
structure Dependence (S : Schema τ κ) (named : Row τ κ ν → Prop)
    (dependent : Row τ κ ν → Row τ κ ν → Prop) : Prop where
  named_of_descends : ∀ r r', Descends S r r' → named r' → named r
  of_descends : ∀ r r' p p', Descends S r r' → Descends S p p' → dependent r' p' → dependent r p
  of_cascades : ∀ r p, S.cascades r p = true → dependent r p
  not_log : ∀ r p, dependent r p → p.table ∉ S.logs

variable {db db' db'' : Database S ν}

lemma Justified.kept (hd : Dependence S named dependent) (h : Justified named dependent db' db'')
    (he : Evolves db db') (hkept : ∀ r, ¬ Removed db db' r) : Justified named dependent db db'' :=
  h.step he hd.named_of_descends hd.of_descends hd.not_log fun r hr => absurd hr (hkept r)

lemma Justified.delete {base : Row τ κ ν → Bool} (hd : Dependence S named dependent)
    (h : Justified named dependent (db.delete base) db'') (he : Evolves (db.delete base) db'')
    (hbase : ∀ r ∈ db.rows, base r = true → named r ∨ ∃ p, Removed db db'' p ∧ dependent r p) :
    Justified named dependent db db'' := by
  refine h.step (Database.evolves_delete db base) hd.named_of_descends hd.of_descends hd.not_log ?_
  intro r hr
  rcases Database.removed_delete_cases hr with hb | ⟨p, hp, hrp⟩
  · exact hbase r hr.1 hb
  · exact .inr ⟨p, hp.trans (Database.evolves_delete db base) he, hd.of_cascades r p hrp⟩

lemma Justified.deletes {bases : List (Row τ κ ν → Bool)} (hd : Dependence S named dependent)
    (h : Justified named dependent (db.deletes bases) db'') (he : Evolves (db.deletes bases) db'')
    (hbase : ∀ base ∈ bases, ∀ mid : Database S ν, Evolves db mid → Evolves mid (db.deletes bases) →
      ∀ r ∈ mid.rows, base r = true → named r ∨ ∃ p, Removed mid db'' p ∧ dependent r p) :
    Justified named dependent db db'' := by
  induction bases generalizing db with
  | nil => exact h
  | cons base bases ih =>
    have hrest : Evolves (db.delete base) (db.deletes (base :: bases)) :=
      Database.evolves_deletes (db.delete base) bases
    have hfirst := Database.evolves_delete db base
    refine Justified.delete hd (ih h he fun b hb mid hmid => ?_) (hrest.trans he) fun r hr hb => ?_
    · exact hbase b (mem_cons_of_mem _ hb) mid (hfirst.trans hmid)
    · exact hbase base mem_cons_self db (.refl db) (hfirst.trans hrest) r hr hb

end Transactions

/-! ### The tables a delete reaches -/

def Schema.Closed (S : Schema τ κ) (T : List τ) : Prop :=
  ∀ f ∈ S.references, f.onDelete = .cascade → f.parent ∈ T → f.child ∈ T

def Schema.Spares (S : Schema τ κ) (T : List τ) (t : τ) : Prop :=
  S.Closed T ∧ t ∉ T ∧ ∀ f ∈ S.references, f.onDelete = .setNull → f.child = t → f.parent ∉ T

instance decidableSpares (S : Schema τ κ) (T : List τ) (t : τ) : Decidable (S.Spares T t) := by
  unfold Schema.Spares Schema.Closed
  infer_instance

section Reaches

variable {S : Schema τ κ} {db db' : Database S ν} {base : Row τ κ ν → Bool} {T : List τ} {t : τ}

lemma Doomed.table_mem {rows : List (Row τ κ ν)} {r : Row τ κ ν} (hT : S.Closed T)
    (hbase : ∀ r, base r = true → r.table ∈ T) (h : Doomed S rows base r) : r.table ∈ T := by
  induction h with
  | base _ hb => exact hbase _ hb
  | cascade _ _ hrp ih =>
    simp only [Schema.cascades, any_eq_true, Bool.and_eq_true, decide_eq_true_eq] at hrp
    obtain ⟨f, hf, hcas, href⟩ := hrp
    obtain ⟨hchild, hparent, -⟩ := Reference.refers_iff.mp href
    exact hchild ▸ hT f hf hcas (hparent ▸ ih)

lemma Doomed.base_of_table {rows : List (Row τ κ ν)} {r : Row τ κ ν} (hT : S.Closed T)
    (hbase : ∀ r, base r = true → r.table ∈ T)
    (ht : ∀ f ∈ S.references, f.onDelete = .cascade → f.child = t → f.parent ∉ T)
    (h : Doomed S rows base r) (hr : r.table = t) : base r := by
  cases h with
  | base _ hb => exact hb
  | cascade _ hp hrp =>
    simp only [Schema.cascades, any_eq_true, Bool.and_eq_true, decide_eq_true_eq] at hrp
    obtain ⟨f, hf, hcas, href⟩ := hrp
    obtain ⟨hchild, hparent, -⟩ := Reference.refers_iff.mp href
    refine absurd ?_ (ht f hf hcas (hchild.symm.trans hr))
    exact hparent ▸ hp.table_mem hT hbase

lemma release_of_spares {rows : List (Row τ κ ν)} {r : Row τ κ ν} (hs : S.Spares T t)
    (hbase : ∀ r, base r = true → r.table ∈ T) (hr : r.table = t) :
    S.release (S.doomed rows base) r = r := by
  have hcells : (r.cells.filter fun c => !S.released (S.doomed rows base) r c.1) = r.cells := by
    rw [filter_eq_self]
    intro c _
    rw [Bool.not_eq_true', ← Bool.not_eq_true]
    intro h
    obtain ⟨f, hf, hnull, -, p, hp, href⟩ := released_iff.mp h
    obtain ⟨hchild, hparent, -⟩ := Reference.refers_iff.mp href
    refine hs.2.2 f hf hnull (hchild.symm.trans hr) ?_
    exact hparent ▸ (mem_doomed.mp hp).table_mem hs.1 hbase
  rw [Schema.release, hcells]

namespace Database

lemma table_delete (hs : S.Spares T t) (hbase : ∀ r, base r = true → r.table ∈ T) :
    (db.delete base).table t = db.table t := by
  change (S.remaining db.rows base).filter (fun r => decide (r.table = t)) = _
  rw [Schema.remaining, filter_map, filter_filter]
  have hsame : (db.rows.filter fun r => ((fun r => decide (r.table = t)) ∘
      S.release (S.doomed db.rows base)) r && decide (r ∉ S.doomed db.rows base))
      = db.table t := by
    refine filter_congr fun r _ => ?_
    rw [Function.comp_apply, show (S.release (S.doomed db.rows base) r).table = r.table from rfl]
    by_cases hr : r.table = t
    · have hkept : r ∉ S.doomed db.rows base := fun h =>
        hs.2.1 (hr ▸ (mem_doomed.mp h).table_mem hs.1 hbase)
      simp [hr, hkept]
    · simp [hr]
  rw [hsame]
  refine (map_congr_left fun r hr => ?_).trans (map_id _)
  exact release_of_spares hs hbase (db.mem_table.mp hr).2

variable {bases : List (Row τ κ ν → Bool)}

lemma table_deletes (hs : S.Spares T t) (hbase : ∀ base ∈ bases, ∀ r, base r = true → r.table ∈ T) :
    (db.deletes bases).table t = db.table t := by
  induction bases generalizing db with
  | nil => rfl
  | cons base bases ih =>
    have hrest : ((db.delete base).deletes bases).table t = (db.delete base).table t :=
      ih fun b hb => hbase b (mem_cons_of_mem _ hb)
    exact hrest.trans (table_delete hs (hbase base mem_cons_self))

lemma exists_deletes {r : Row τ κ ν} (hT : S.Closed T)
    (hbase : ∀ base ∈ bases, ∀ r, base r = true → r.table ∈ T) (hr : r ∈ db.rows)
    (ht : r.table ∉ T) : ∃ r' ∈ (db.deletes bases).rows, Descends S r r' := by
  induction bases generalizing db r with
  | nil => exact ⟨r, hr, .refl r⟩
  | cons base bases ih =>
    have hkept : ¬ Doomed S db.rows base r := fun h =>
      ht (h.table_mem hT (hbase base mem_cons_self))
    have hleft : S.release (S.doomed db.rows base) r ∈ (db.delete base).rows :=
      db.mem_delete.mpr ⟨r, hr, hkept, rfl⟩
    obtain ⟨r', hr', hd⟩ := ih (fun b hb => hbase b (mem_cons_of_mem _ hb)) hleft ht
    exact ⟨r', hr', (Descends.release _ r).trans hd⟩

lemma not_removed_deletes {r : Row τ κ ν} (hT : S.Closed T)
    (hbase : ∀ base ∈ bases, ∀ r, base r = true → r.table ∈ T) (ht : r.table ∉ T) :
    ¬ Removed db (db.deletes bases) r := by
  intro h
  obtain ⟨r', hr', hd⟩ := exists_deletes hT hbase h.1 ht
  exact h.2 r' hr' hd.rowid

end Database

end Reaches

end Cascade
