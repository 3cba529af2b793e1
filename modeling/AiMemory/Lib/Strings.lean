/-
Strings as lists of characters: trimming, splitting once, segments.
-/
import Mathlib.Data.List.Chain
import AiMemory.Lib.Text

open List

namespace Strings

variable {α : Type}

/-! ### Trimming -/

def trimEndBy (p : α → Bool) (s : List α) : List α := (s.reverse.dropWhile p).reverse

def trimBy (p : α → Bool) (s : List α) : List α := trimEndBy p (s.dropWhile p)

variable {s : List α}

variable {p : α → Bool} {c a x : α} {before after segment : List α}

lemma dropWhile_eq_self (h : ∀ c ∈ s.head?, p c = false) : s.dropWhile p = s := by
  cases s with
  | nil => rfl
  | cons c s => rw [dropWhile_cons, h c rfl]; rfl

lemma trimEndBy_eq_self (h : ∀ c ∈ s.getLast?, p c = false) : trimEndBy p s = s := by
  rw [trimEndBy, dropWhile_eq_self (by rwa [head?_reverse]), reverse_reverse]

lemma trimBy_eq_self (hhead : ∀ c ∈ s.head?, p c = false)
    (hlast : ∀ c ∈ s.getLast?, p c = false) : trimBy p s = s := by
  rw [trimBy, dropWhile_eq_self hhead, trimEndBy_eq_self hlast]

lemma head?_dropWhile : ∀ c ∈ (s.dropWhile p).head?, p c = false := by
  induction s with
  | nil => intro c hc; cases hc
  | cons a s ih =>
    intro c hc
    rw [dropWhile_cons] at hc
    split at hc
    · exact ih c hc
    · rename_i ha
      cases hc
      simpa using ha

lemma getLast?_trimEndBy : ∀ c ∈ (trimEndBy p s).getLast?, p c = false := by
  intro c hc
  rw [trimEndBy, getLast?_reverse] at hc
  exact head?_dropWhile c hc

lemma of_mem_takeWhile (h : c ∈ s.takeWhile p) : p c := by
  induction s with
  | nil => cases h
  | cons a s ih =>
    rw [takeWhile_cons] at h
    split at h
    · rcases mem_cons.mp h with rfl | h
      · assumption
      · exact ih h
    · cases h

lemma trimEndBy_append (p : α → Bool) (s : List α) :
    ∃ cut, s = trimEndBy p s ++ cut ∧ ∀ c ∈ cut, p c = true := by
  refine ⟨(s.reverse.takeWhile p).reverse, ?_, ?_⟩
  · rw [trimEndBy, ← reverse_append, takeWhile_append_dropWhile, reverse_reverse]
  · intro c hc
    exact of_mem_takeWhile (mem_reverse.mp hc)

lemma mem_of_mem_trimEndBy (h : c ∈ trimEndBy p s) : c ∈ s := by
  obtain ⟨cut, hcut, -⟩ := trimEndBy_append p s
  rw [hcut]
  exact mem_append_left _ h

lemma mem_of_mem_trimBy (h : c ∈ trimBy p s) : c ∈ s :=
  (dropWhile_sublist p).subset (mem_of_mem_trimEndBy h)

lemma head?_trimEndBy (h : c ∈ (trimEndBy p s).head?) : c ∈ s.head? := by
  obtain ⟨cut, hcut, -⟩ := trimEndBy_append p s
  cases htrim : trimEndBy p s with
  | nil => rw [htrim] at h; cases h
  | cons a rest =>
    rw [htrim] at h hcut
    cases h
    rw [hcut]
    rfl

lemma head?_trimBy : ∀ c ∈ (trimBy p s).head?, p c = false :=
  fun c hc => head?_dropWhile c (head?_trimEndBy hc)

lemma getLast?_trimBy : ∀ c ∈ (trimBy p s).getLast?, p c = false :=
  getLast?_trimEndBy

lemma trimBy_trimBy (p : α → Bool) (s : List α) : trimBy p (trimBy p s) = trimBy p s :=
  trimBy_eq_self head?_trimBy getLast?_trimBy

lemma mem_trimBy (hc : c ∈ s) (hp : p c = false) : c ∈ trimBy p s := by
  have hdrop : c ∈ s.dropWhile p := by
    rw [← takeWhile_append_dropWhile (p := p) (l := s), mem_append] at hc
    rcases hc with hc | hc
    · rw [of_mem_takeWhile hc] at hp
      cases hp
    · exact hc
  obtain ⟨cut, hcut, hall⟩ := trimEndBy_append p (s.dropWhile p)
  rw [hcut, mem_append] at hdrop
  rcases hdrop with hdrop | hdrop
  · exact hdrop
  · rw [hall c hdrop] at hp
    cases hp

lemma head?_trimBy_of_head? (hc : s.head? = some c) (hp : p c = false) :
    (trimBy p s).head? = some c := by
  cases s with
  | nil => cases hc
  | cons a s =>
    obtain rfl := Option.some.inj hc
    rw [trimBy, dropWhile_cons, hp, if_neg Bool.false_ne_true]
    obtain ⟨cut, hcut, hall⟩ := trimEndBy_append p (a :: s)
    cases htrim : trimEndBy p (a :: s) with
    | nil =>
      rw [htrim, nil_append] at hcut
      rw [hall a (hcut ▸ mem_cons_self)] at hp
      cases hp
    | cons b rest =>
      rw [htrim, cons_append] at hcut
      rw [(List.cons.inj hcut).1, head?_cons]

variable [DecidableEq α]

/-! ### Splitting -/

def splitOnce (sep : List α) : List α → Option (List α × List α)
  | [] => if sep = [] then some ([], []) else none
  | c :: s =>
    if sep.isPrefixOf (c :: s) then some ([], (c :: s).drop sep.length)
    else (splitOnce sep s).map fun parts => (c :: parts.1, parts.2)

lemma splitOnce_some {sep : List α} (h : splitOnce sep s = some (before, after)) :
    s = before ++ sep ++ after := by
  induction s generalizing before with
  | nil =>
    rw [splitOnce] at h
    split at h
    · rename_i hsep
      cases h
      rw [hsep]
      rfl
    · cases h
  | cons c s ih =>
    rw [splitOnce] at h
    split at h
    · rename_i hpre
      cases h
      obtain ⟨rest, hrest⟩ := isPrefixOf_iff_prefix.mp hpre
      rw [← hrest, drop_left, nil_append]
    · obtain ⟨⟨before', after'⟩, hs, heq⟩ := Option.map_eq_some_iff.mp h
      cases heq
      rw [ih hs]
      rfl

lemma splitOnce_singleton_cons (c a : α) (s : List α) : splitOnce [c] (a :: s) =
    if a = c then some ([], s) else (splitOnce [c] s).map fun parts => (a :: parts.1, parts.2) := by
  rw [splitOnce]
  by_cases ha : a = c
  · subst ha
    simp
  · have ha' : ¬c = a := fun h => ha h.symm
    simp [ha, ha']

lemma splitOnce_notMem (h : splitOnce [c] s = some (before, after)) : c ∉ before := by
  induction s generalizing before with
  | nil => simp [splitOnce] at h
  | cons a s ih =>
    rw [splitOnce_singleton_cons] at h
    by_cases ha : a = c
    · rw [if_pos ha] at h
      cases h
      exact not_mem_nil
    · rw [if_neg ha] at h
      obtain ⟨⟨before', after'⟩, hs, heq⟩ := Option.map_eq_some_iff.mp h
      cases heq
      exact not_mem_cons_of_ne_of_not_mem (fun h => ha h.symm) (ih hs)

lemma splitOnce_singleton_eq_some :
    splitOnce [c] s = some (before, after) ↔ s = before ++ c :: after ∧ c ∉ before := by
  constructor
  · intro h
    exact ⟨by rw [splitOnce_some h, append_assoc, singleton_append], splitOnce_notMem h⟩
  · rintro ⟨rfl, hc⟩
    induction before with
    | nil => rw [nil_append, splitOnce_singleton_cons, if_pos rfl]
    | cons a before ih =>
      obtain ⟨ha, hc⟩ := ne_and_not_mem_of_not_mem_cons hc
      rw [cons_append, splitOnce_singleton_cons, if_neg (Ne.symm ha), ih hc, Option.map_some]

lemma splitOnce_eq_none : splitOnce [c] s = none ↔ c ∉ s := by
  induction s with
  | nil => simp [splitOnce]
  | cons a s ih =>
    rw [splitOnce_singleton_cons]
    by_cases ha : a = c
    · rw [if_pos ha, ha]
      simp
    · have ha' : ¬c = a := fun h => ha h.symm
      rw [if_neg ha, Option.map_eq_none_iff, ih, mem_cons, or_iff_right ha']

def afterLast (c : α) (s : List α) : List α := (s.reverse.takeWhile (· ≠ c)).reverse

def beforeLast (c : α) (s : List α) : List α := ((s.reverse.dropWhile (· ≠ c)).drop 1).reverse

lemma notMem_afterLast (c : α) (s : List α) : c ∉ afterLast c s := by
  intro hmem
  have hne := of_mem_takeWhile (mem_reverse.mp hmem)
  simp at hne

lemma beforeLast_append (h : c ∈ s) : s = beforeLast c s ++ c :: afterLast c s := by
  have hsplit := takeWhile_append_dropWhile (p := (· ≠ c)) (l := s.reverse)
  cases hdrop : s.reverse.dropWhile (· ≠ c) with
  | nil =>
    rw [hdrop, append_nil] at hsplit
    refine absurd (mem_reverse.mpr h) ?_
    rw [← hsplit]
    exact fun hmem => notMem_afterLast c s (mem_reverse.mpr hmem)
  | cons d rest =>
    have hd : d = c := not_not.mp
      (of_decide_eq_false (head?_dropWhile (s := s.reverse) d (by rw [hdrop]; rfl)))
    have hs := congrArg List.reverse hsplit
    rw [reverse_reverse, hdrop, reverse_append, reverse_cons, hd, append_assoc]
      at hs
    rw [beforeLast, afterLast, hdrop]
    exact hs.symm

lemma splitOnce_first (sep x y : List α) :
    ∃ before after, splitOnce sep (x ++ (sep ++ y)) = some (before, after) ∧ before <+: x := by
  have hstop : ∀ s, sep.isPrefixOf s = true → splitOnce sep s = some ([], s.drop sep.length) := by
    intro s hs
    cases s with
    | nil =>
      obtain rfl : sep = [] := prefix_nil.mp (List.isPrefixOf_iff_prefix.mp hs)
      rfl
    | cons c s => rw [splitOnce, if_pos hs]
  induction x with
  | nil =>
    refine ⟨_, _, hstop _ ?_, prefix_rfl⟩
    exact isPrefixOf_iff_prefix.mpr (prefix_append ..)
  | cons c x ih =>
    obtain ⟨before, after, hsplit, hprefix⟩ := ih
    by_cases hs : sep.isPrefixOf (c :: (x ++ (sep ++ y)))
    · exact ⟨_, _, hstop _ hs, nil_prefix⟩
    · refine ⟨c :: before, after, ?_, cons_prefix_cons.mpr ⟨rfl, hprefix⟩⟩
      rw [cons_append, splitOnce, if_neg hs, hsplit]
      rfl

/-! ### Runs of a character -/

/-- Adjacent characters are not both `c`. -/
def NoDouble (c : α) (s : List α) : Prop := s.IsChain fun a b => ¬(a = c ∧ b = c)

instance (c : α) (s : List α) : Decidable (NoDouble c s) :=
  inferInstanceAs (Decidable (s.IsChain _))

omit [DecidableEq α] in
lemma noDouble_cons : NoDouble c (a :: s) ↔ ¬(a = c ∧ s.head? = some c) ∧ NoDouble c s := by
  cases s with
  | nil => simp [NoDouble]
  | cons b s => simp [NoDouble, isChain_cons_cons]

omit [DecidableEq α] in
lemma noDouble_append {t : List α} : NoDouble c (s ++ t) ↔ NoDouble c s ∧ NoDouble c t ∧
      ¬(s.getLast? = some c ∧ t.head? = some c) := by
  rw [NoDouble, isChain_append, NoDouble, NoDouble]
  refine and_congr_right fun _ => and_congr_right fun _ => ?_
  constructor
  · rintro h ⟨hs, ht⟩
    exact h c hs c ht ⟨rfl, rfl⟩
  · rintro h a ha b hb ⟨rfl, rfl⟩
    exact h ⟨ha, hb⟩

lemma pair_isPrefixOf : [c, c].isPrefixOf (a :: s) ↔ a = c ∧ s.head? = some c := by
  rw [List.isPrefixOf_iff_prefix, cons_prefix_cons, eq_comm]
  refine and_congr_right fun _ => ?_
  cases s with
  | nil => exact iff_of_false (fun h => by cases prefix_nil.mp h) fun h => by cases h
  | cons b s =>
    rw [cons_prefix_cons, head?_cons, Option.some.injEq, eq_comm]
    exact and_iff_left nil_prefix

lemma splitOnce_pair_eq_none : splitOnce [c, c] s = none ↔ NoDouble c s := by
  induction s with
  | nil => exact iff_of_true rfl .nil
  | cons a s ih =>
    rw [splitOnce, noDouble_cons, ← pair_isPrefixOf]
    by_cases h : [c, c].isPrefixOf (a :: s)
    · rw [if_pos h]
      exact iff_of_false (Option.some_ne_none _) fun hno => hno.1 h
    · rw [if_neg h, Option.map_eq_none_iff, ih]
      exact (and_iff_right h).symm

lemma splitOnce_pair_eq_some : splitOnce [c, c] s = some (before, after) ↔
      s = before ++ c :: c :: after ∧ NoDouble c (before ++ [c]) := by
  induction s generalizing before with
  | nil =>
    refine iff_of_false (fun h => by cases h) fun h => ?_
    exact absurd h.1.symm (append_ne_nil_of_right_ne_nil _ (cons_ne_nil _ _))
  | cons a s ih =>
    rw [splitOnce]
    by_cases h : [c, c].isPrefixOf (a :: s)
    · rw [if_pos h]
      obtain ⟨rfl, hs⟩ := pair_isPrefixOf.mp h
      obtain ⟨s, rfl⟩ := head?_eq_some_iff.mp hs
      constructor
      · intro heq
        cases heq
        exact ⟨rfl, .singleton _⟩
      · rintro ⟨hs, hno⟩
        cases before with
        | nil =>
          rw [nil_append, List.cons.injEq, List.cons.injEq] at hs
          rw [hs.2.2]
          rfl
        | cons b before =>
          exfalso
          rw [cons_append, List.cons.injEq] at hs
          obtain ⟨rfl, hs⟩ := hs
          rw [cons_append, noDouble_cons] at hno
          refine hno.1 ⟨rfl, ?_⟩
          cases before with
          | nil => rfl
          | cons d before =>
            rw [cons_append, List.cons.injEq] at hs
            rw [hs.1]
            rfl
    · rw [if_neg h, Option.map_eq_some_iff]
      constructor
      · rintro ⟨⟨before', after'⟩, hs, heq⟩
        cases heq
        obtain ⟨rfl, hno⟩ := ih.mp hs
        refine ⟨rfl, ?_⟩
        rw [cons_append, noDouble_cons]
        refine ⟨fun hpair => h (pair_isPrefixOf.mpr ⟨hpair.1, ?_⟩), hno⟩
        have hhead := hpair.2
        cases before' with
        | nil => rfl
        | cons d before' => exact hhead
      · rintro ⟨hs, hno⟩
        cases before with
        | nil =>
          rw [nil_append, List.cons.injEq] at hs
          obtain ⟨rfl, rfl⟩ := hs
          exact absurd (pair_isPrefixOf.mpr ⟨rfl, rfl⟩) h
        | cons b before =>
          rw [cons_append, List.cons.injEq] at hs
          obtain ⟨rfl, rfl⟩ := hs
          rw [cons_append, noDouble_cons] at hno
          exact ⟨(before, after), ih.mpr ⟨rfl, hno.2⟩, rfl⟩

/-- Each pair of `c` replaced by one, from the left. -/
def halve (c : α) : List α → List α
  | a :: b :: s => if a = c ∧ b = c then c :: halve c s else a :: halve c (b :: s)
  | s => s

def collapseFor (c : α) : ℕ → List α → List α
  | 0, s => s
  | fuel + 1, s => if NoDouble c s then s else collapseFor c fuel (halve c s)

def collapse (c : α) (s : List α) : List α := collapseFor c s.length s

lemma length_halve_le (c : α) (s : List α) : (halve c s).length ≤ s.length := by
  fun_induction halve c s with
  | case1 a b s h ih => simp only [length_cons]; omega
  | case2 a b s h ih => simpa using ih
  | case3 s => exact Nat.le_refl _

lemma length_halve_lt (h : ¬NoDouble c s) : (halve c s).length < s.length := by
  fun_induction halve c s with
  | case1 a b s hpair ih =>
    have := length_halve_le c s
    simp only [length_cons]
    omega
  | case2 a b s hpair ih =>
    have hrest : ¬NoDouble c (b :: s) := fun hrest => h (List.IsChain.cons_cons hpair hrest)
    simpa using ih hrest
  | case3 s hs =>
    exfalso
    rcases s with _ | ⟨a, _ | ⟨b, s⟩⟩
    · exact h .nil
    · exact h (.singleton a)
    · exact hs a b s rfl

lemma mem_halve (h : x ∈ halve c s) : x ∈ s := by
  fun_induction halve c s with
  | case1 a b s hpair ih =>
    rcases mem_cons.mp h with rfl | h
    · exact mem_cons.mpr (.inl hpair.1.symm)
    · exact mem_cons_of_mem _ (mem_cons_of_mem _ (ih h))
  | case2 a b s hpair ih =>
    rcases mem_cons.mp h with rfl | h
    · exact mem_cons_self
    · exact mem_cons_of_mem _ (ih h)
  | case3 s => exact h

lemma head?_halve (c : α) (s : List α) : (halve c s).head? = s.head? := by
  fun_cases halve c s with
  | case1 a b s hpair => simp [hpair.1]
  | case2 a b s hpair => rfl
  | case3 s => rfl

lemma getLast?_halve (c : α) (s : List α) : (halve c s).getLast? = s.getLast? := by
  fun_induction halve c s with
  | case1 a b s hpair ih =>
    cases s with
    | nil => simp [halve, hpair.2]
    | cons d s =>
      rw [getLast?_cons, ih]
      simp [getLast?_cons]
  | case2 a b s hpair ih =>
    rw [getLast?_cons, ih]
    simp [getLast?_cons]
  | case3 s => rfl

lemma collapseFor_induction {P : List α → Prop} (hstep : ∀ s, P s → P (halve c s)) {fuel : ℕ}
    (h : P s) : P (collapseFor c fuel s) := by
  induction fuel generalizing s with
  | zero => exact h
  | succ fuel ih =>
    rw [collapseFor]
    split
    · exact h
    · exact ih (hstep s h)

lemma noDouble_collapseFor {fuel : ℕ} (h : s.length ≤ fuel) :
    NoDouble c (collapseFor c fuel s) := by
  induction fuel generalizing s with
  | zero =>
    rw [eq_nil_of_length_eq_zero (Nat.le_zero.mp h)]
    exact .nil
  | succ fuel ih =>
    rw [collapseFor]
    split
    · assumption
    · rename_i hdouble
      have := length_halve_lt hdouble
      exact ih (by omega)

lemma noDouble_collapse (c : α) (s : List α) : NoDouble c (collapse c s) :=
  noDouble_collapseFor (Nat.le_refl _)

lemma mem_collapse (h : x ∈ collapse c s) : x ∈ s :=
  collapseFor_induction (P := fun t => ∀ x ∈ t, x ∈ s)
    (fun _ ht _ hx => ht _ (mem_halve hx)) (fun _ hx => hx) x h

lemma head?_collapse (c : α) (s : List α) : (collapse c s).head? = s.head? :=
  collapseFor_induction (P := fun t => t.head? = s.head?)
    (fun t ht => (head?_halve c t).trans ht) rfl

lemma getLast?_collapse (c : α) (s : List α) : (collapse c s).getLast? = s.getLast? :=
  collapseFor_induction (P := fun t => t.getLast? = s.getLast?)
    (fun t ht => (getLast?_halve c t).trans ht) rfl

lemma splitOn_cons (c a : α) (s : List α) : (a :: s).splitOn c =
    if a = c then [] :: s.splitOn c else (s.splitOn c).modifyHead (a :: ·) := by
  rw [List.splitOn, splitOnP_cons_eq_if_modifyHead, List.splitOn]
  simp only [beq_iff_eq]

lemma exists_splitOn (c : α) (s : List α) : ∃ first rest, s.splitOn c = first :: rest :=
  exists_cons_of_ne_nil (splitOnP_ne_nil _ _)

lemma mem_segment (hx : x ∈ s) (hne : x ≠ c) : ∃ segment ∈ s.splitOn c, x ∈ segment := by
  induction s with
  | nil => cases hx
  | cons a s ih =>
    obtain ⟨first, rest, heq⟩ := exists_splitOn c s
    rw [splitOn_cons]
    by_cases ha : a = c
    · rw [if_pos ha]
      rcases mem_cons.mp hx with rfl | hx
      · exact absurd ha hne
      · obtain ⟨segment, hsegment, hmem⟩ := ih hx
        exact ⟨segment, mem_cons_of_mem _ hsegment, hmem⟩
    · rw [if_neg ha, heq, modifyHead_cons]
      rcases mem_cons.mp hx with rfl | hx
      · exact ⟨x :: first, mem_cons_self, mem_cons_self⟩
      · obtain ⟨segment, hsegment, hmem⟩ := ih hx
        rw [heq] at hsegment
        rcases mem_cons.mp hsegment with rfl | hsegment
        · exact ⟨a :: segment, mem_cons_self, mem_cons_of_mem _ hmem⟩
        · exact ⟨segment, mem_cons_of_mem _ hsegment, hmem⟩

lemma segment_spec (h : segment ∈ s.splitOn c) : c ∉ segment ∧ segment ⊆ s := by
  induction s generalizing segment with
  | nil =>
    rw [mem_singleton.mp h]
    exact ⟨not_mem_nil, nil_subset _⟩
  | cons a s ih =>
    obtain ⟨first, rest, heq⟩ := exists_splitOn c s
    rw [splitOn_cons] at h
    by_cases ha : a = c
    · rw [if_pos ha] at h
      rcases mem_cons.mp h with rfl | h
      · exact ⟨not_mem_nil, nil_subset _⟩
      · exact (ih h).imp_right (subset_cons_of_subset a)
    · rw [if_neg ha, heq, modifyHead_cons] at h
      rcases mem_cons.mp h with rfl | h
      · obtain ⟨hno, hsub⟩ := ih (heq ▸ mem_cons_self)
        exact ⟨not_mem_cons_of_ne_of_not_mem (Ne.symm ha) hno, cons_subset_cons a hsub⟩
      · exact (ih (heq ▸ mem_cons_of_mem _ h)).imp_right (subset_cons_of_subset a)

lemma notMem_segment (h : segment ∈ s.splitOn c) : c ∉ segment :=
  (segment_spec h).1

lemma mem_of_mem_segment (h : segment ∈ s.splitOn c) (hx : x ∈ segment) : x ∈ s :=
  (segment_spec h).2 hx

lemma splitOn_cons_of_ne (h : a ≠ c) (s : List α) :
    ∃ first rest, s.splitOn c = first :: rest ∧ (a :: s).splitOn c = (a :: first) :: rest := by
  obtain ⟨first, rest, heq⟩ := exists_splitOn c s
  refine ⟨first, rest, heq, ?_⟩
  rw [splitOn_cons, if_neg h, heq]
  rfl

lemma last_segment {last : List α} (h : last ∈ (s.splitOn c).getLast?) :
    s = last ∨ (c :: last) <:+ s := by
  induction s generalizing last with
  | nil => exact .inl (Option.some.inj h)
  | cons a s ih =>
    obtain ⟨first, rest, heq⟩ := exists_splitOn c s
    by_cases ha : a = c
    · rw [splitOn_cons, if_pos ha, heq, getLast?_cons_cons, ← heq] at h
      right
      rcases ih h with rfl | hsuffix
      · exact ha ▸ suffix_rfl
      · exact hsuffix.trans (suffix_cons a s)
    · rw [splitOn_cons, if_neg ha, heq, modifyHead_cons] at h
      cases rest with
      | nil =>
        have hs : [c].intercalate (s.splitOn c) = s := intercalate_splitOn c
        rw [heq, intercalate_singleton] at hs
        cases h
        exact .inl (congrArg (a :: ·) hs.symm)
      | cons second rest =>
        rw [getLast?_cons_cons] at h
        have hlast : last ∈ (s.splitOn c).getLast? := by
          rw [heq, getLast?_cons_cons]
          exact h
        right
        rcases ih hlast with rfl | hsuffix
        · -- a segment has no separator, so the rest would not have been split
          have hno : c ∉ s := notMem_segment (mem_of_getLast? hlast)
          rw [splitOn_eq_singleton hno] at heq
          cases heq
        · exact hsuffix.trans (suffix_cons a s)

/-- No segment is empty where no separator is at an end or doubled. -/
theorem segments_ne_nil (hne : s ≠ []) (hhead : s.head? ≠ some c) (hlast : s.getLast? ≠ some c)
    (hdouble : NoDouble c s) : ∀ segment ∈ s.splitOn c, segment ≠ [] := by
  -- behind the first one, a segment follows a separator
  have hbehind : ∀ s : List α, s.getLast? ≠ some c → NoDouble c s →
      ∀ segment ∈ (s.splitOn c).tail, segment ≠ [] := by
    intro s
    induction s with
    | nil =>
      intro _ _ segment hs
      simp at hs
    | cons a s ih =>
      intro hlast hdouble
      by_cases ha : a = c
      · rw [splitOn_cons, if_pos ha, tail_cons]
        cases s with
        | nil => exact absurd (by rw [ha]; rfl) hlast
        | cons b s =>
          obtain ⟨hpair, hrest⟩ := isChain_cons_cons.mp hdouble
          have hb : b ≠ c := fun h => hpair ⟨ha, h⟩
          have htail := ih (by simpa [getLast?_cons] using hlast) hrest
          obtain ⟨first, rest, -, heq⟩ := splitOn_cons_of_ne hb s
          rw [heq] at htail ⊢
          intro segment hs
          rcases mem_cons.mp hs with rfl | hs
          · exact cons_ne_nil _ _
          · exact htail segment hs
      · obtain ⟨first, rest, heq, heq'⟩ := splitOn_cons_of_ne ha s
        cases s with
        | nil =>
          intro segment hs
          rw [heq'] at hs
          rw [show ([] : List α).splitOn c = [[]] from rfl] at heq
          cases heq
          cases hs
        | cons b s =>
          have hrest := (isChain_cons_cons.mp hdouble).2
          have htail := ih (by simpa [getLast?_cons] using hlast) hrest
          rw [heq] at htail
          rw [heq']
          exact htail
  cases s with
  | nil => exact absurd rfl hne
  | cons a s =>
    have ha : a ≠ c := fun h => hhead (by rw [h]; rfl)
    obtain ⟨first, rest, -, heq⟩ := splitOn_cons_of_ne ha s
    have htail := hbehind (a :: s) hlast hdouble
    rw [heq] at htail ⊢
    intro segment hs
    rcases mem_cons.mp hs with rfl | hs
    · exact cons_ne_nil _ _
    · exact htail segment hs

/-! ### Fields -/

def fields (c : α) (s : List α) : List (List α) := (s.splitOn c).filter (· ≠ [])

lemma fields_append (c : α) (s t : List α) : fields c (s ++ c :: t) = fields c s ++ fields c t := by
  rw [fields, splitOn_append_cons_self, filter_append]
  rfl

lemma fields_cons_self (c : α) (s : List α) : fields c (c :: s) = fields c s := fields_append c [] s

lemma fields_of_notMem (hne : s ≠ []) (hc : c ∉ s) : fields c s = [s] := by
  rw [fields, splitOn_eq_singleton hc]
  exact filter_cons_of_pos (by simpa using hne)

lemma mem_fields {field : List α} : field ∈ fields c s ↔ field ∈ s.splitOn c ∧ field ≠ [] := by
  simp [fields]

lemma exists_mem_fields (hx : x ∈ s) (hne : x ≠ c) : ∃ field ∈ fields c s, x ∈ field := by
  obtain ⟨segment, hsegment, hmem⟩ := mem_segment hx hne
  exact ⟨segment, mem_fields.mpr ⟨hsegment, ne_nil_of_mem hmem⟩, hmem⟩

lemma fields_trimEndBy (c : α) (s : List α) : fields c (trimEndBy (· = c) s) = fields c s := by
  obtain ⟨cut, hcut, hall⟩ := trimEndBy_append (· = c) s
  have hrun : ∀ n, fields c (List.replicate n c) = [] := by
    intro n
    induction n with
    | zero => rfl
    | succ n ih => rw [replicate_succ, fields_cons_self, ih]
  obtain ⟨n, rfl⟩ : ∃ n, cut = List.replicate n c :=
    ⟨cut.length, eq_replicate_iff.mpr ⟨rfl, fun d hd => of_decide_eq_true (hall d hd)⟩⟩
  conv_rhs => rw [hcut]
  cases n with
  | zero => rw [replicate_zero, append_nil]
  | succ n => rw [replicate_succ, fields_append, hrun, append_nil]

lemma splitOn_halve (c : α) (s : List α) : ∃ first rest rest', (halve c s).splitOn c = first :: rest ∧
    s.splitOn c = first :: rest' ∧ rest.filter (· ≠ []) = rest'.filter (· ≠ []) := by
  fun_induction halve c s with
  | case1 a b s hpair ih =>
    obtain ⟨first, rest, rest', hhalve, hs, hfilter⟩ := ih
    refine ⟨[], _, _, by rw [splitOn_cons, if_pos rfl], by rw [splitOn_cons, if_pos hpair.1], ?_⟩
    rw [splitOn_cons, if_pos hpair.2, hhalve, hs, filter_cons, filter_cons, filter_cons, hfilter]
    simp
  | case2 a b s hpair ih =>
    obtain ⟨first, rest, rest', hhalve, hs, hfilter⟩ := ih
    by_cases ha : a = c
    · refine ⟨[], _, _, by rw [splitOn_cons, if_pos ha], by rw [splitOn_cons, if_pos ha], ?_⟩
      rw [hhalve, hs, filter_cons, filter_cons, hfilter]
    · refine ⟨a :: first, rest, rest', ?_, ?_, hfilter⟩
      · rw [splitOn_cons, if_neg ha, hhalve, modifyHead_cons]
      · rw [splitOn_cons, if_neg ha, hs, modifyHead_cons]
  | case3 s =>
    obtain ⟨first, rest, heq⟩ := exists_splitOn c s
    exact ⟨first, rest, rest, heq, heq, rfl⟩

lemma fields_collapse (c : α) (s : List α) : fields c (collapse c s) = fields c s := by
  refine collapseFor_induction (P := fun t => fields c t = fields c s) (fun t ht => ?_) rfl
  obtain ⟨first, rest, rest', hhalve, hs, hfilter⟩ := splitOn_halve c t
  rw [← ht, fields, fields, hhalve, hs, filter_cons, filter_cons, hfilter]

lemma collapse_eq_intercalate (hne : s ≠ []) (hhead : s.head? ≠ some c)
    (hlast : s.getLast? ≠ some c) : collapse c s = [c].intercalate (fields c s) := by
  have hfull : ∀ segment ∈ (collapse c s).splitOn c, segment ≠ [] := by
    refine segments_ne_nil (fun hnil => hne ?_) (head?_collapse c s ▸ hhead)
      (getLast?_collapse c s ▸ hlast) (noDouble_collapse c s)
    rw [← head?_eq_none_iff, ← head?_collapse, hnil, head?_nil]
  rw [← fields_collapse, fields, filter_eq_self.mpr fun segment h => by simpa using hfull segment h]
  exact (intercalate_splitOn c).symm

lemma suffix_last_segment {last ending : List α} (hc : c ∉ ending) (h : ending <:+ s)
    (hlast : last ∈ (s.splitOn c).getLast?) : ending <:+ last := by
  rcases last_segment hlast with rfl | hsuffix
  · exact h
  rcases suffix_or_suffix_of_suffix h hsuffix with hin | hover
  · rcases suffix_cons_iff.mp hin with rfl | hin
    · exact absurd mem_cons_self hc
    · exact hin
  · exact absurd (hover.subset mem_cons_self) hc

lemma splitOn_map {f : α → α} (hf : ∀ a, f a = c ↔ a = c) (s : List α) :
    (s.map f).splitOn c = (s.splitOn c).map (List.map f) := by
  induction s with
  | nil => rfl
  | cons a s ih =>
    obtain ⟨first, rest, heq⟩ := exists_splitOn c s
    rw [map_cons, splitOn_cons, splitOn_cons, ih, heq]
    by_cases ha : a = c
    · rw [if_pos ha, if_pos ((hf a).mpr ha)]
      rfl
    · rw [if_neg ha, if_neg (mt (hf a).mp ha)]
      rfl

lemma fields_map {f : α → α} (hf : ∀ a, f a = c ↔ a = c) (s : List α) :
    fields c (s.map f) = (fields c s).map (List.map f) := by
  rw [fields, fields, splitOn_map hf, filter_map]
  congr 1
  refine filter_congr fun segment _ => ?_
  simp

/-! ### Texts -/

/-- `char::is_whitespace`, the Unicode property `White_Space`. -/
def isWhitespace (c : Char) : Bool :=
  let n := c.toNat
  (0x09 ≤ n && n ≤ 0x0d) || n = 0x20 || n = 0x85 || n = 0xa0 || n = 0x1680
    || (0x2000 ≤ n && n ≤ 0x200a) || n = 0x2028 || n = 0x2029 || n = 0x202f || n = 0x205f
    || n = 0x3000

/-- `char::is_control`, the general category `Cc`. -/
def isControl (c : Char) : Bool := c.toNat < 0x20 || (0x7f ≤ c.toNat && c.toNat ≤ 0x9f)

/-- `char::is_ascii_hexdigit`. -/
def isAsciiHexdigit (c : Char) : Bool :=
  c.isDigit || decide ('a' ≤ c ∧ c ≤ 'f') || decide ('A' ≤ c ∧ c ≤ 'F')

/-- `str::trim_start`. -/
def trimStart (s : Text) : Text := s.dropWhile isWhitespace

/-- `str::trim`. -/
def trim (s : Text) : Text := trimBy isWhitespace s

def bom : Char := '\uFEFF'

/-- An editor's byte-order mark says how the file is encoded; it is not content. -/
def stripBom : Text → Text
  | [] => []
  | c :: cs => if c = bom then cs else c :: cs

/-- `str::split_inclusive('\n')`. -/
def splitInclusive : Text → List Text
  | [] => []
  | c :: rest =>
    if c = '\n' then [c] :: splitInclusive rest
    else match splitInclusive rest with
    | [] => [[c]]
    | line :: lines => (c :: line) :: lines

lemma splitInclusive_cons {line : Text} (h : '\n' ∉ line) (rest : Text) :
    splitInclusive (line ++ '\n' :: rest) = (line ++ ['\n']) :: splitInclusive rest := by
  induction line with
  | nil => rw [nil_append, splitInclusive, if_pos rfl, nil_append]
  | cons c line ih =>
    obtain ⟨hc, hline⟩ := ne_and_not_mem_of_not_mem_cons h
    rw [cons_append, splitInclusive, if_neg (Ne.symm hc), ih hline]
    rfl

lemma splitInclusive_last {line : Text} (hne : line ≠ []) (h : '\n' ∉ line) :
    splitInclusive line = [line] := by
  induction line with
  | nil => exact absurd rfl hne
  | cons c line ih =>
    obtain ⟨hc, hline⟩ := ne_and_not_mem_of_not_mem_cons h
    rw [splitInclusive, if_neg (Ne.symm hc)]
    cases line with
    | nil => rfl
    | cons d line => rw [ih (cons_ne_nil d line) hline]

lemma flatten_splitInclusive (body : Text) : (splitInclusive body).flatten = body := by
  induction body with
  | nil => rfl
  | cons c body ih =>
    rw [splitInclusive]
    split
    · rw [flatten_cons, ih, singleton_append]
    · split
      · rename_i hnil
        rw [hnil, flatten_nil] at ih
        rw [← ih, flatten_singleton]
      · rename_i hcons
        rw [hcons, flatten_cons] at ih
        rw [flatten_cons, cons_append, ih]

end Strings
