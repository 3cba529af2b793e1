/-
Spans between runs of equal length.

Some elements of an alphabet are ticks.  A run of ticks opens a span when a run of the
same length follows; the first of these closes it.  Any other run is literal.

* `cut_pieces`, `pieces_of_cut` — which pieces the cut of a list has.
-/
import Mathlib.Data.List.Nodup
import Mathlib.Data.List.TakeWhile

open List

namespace Spans

variable {α β : Type*}

inductive Piece (α : Type*)
  | text (xs : List α)
  | span (xs : List α)

def Piece.content : Piece α → List α
  | .text xs => xs
  | .span xs => xs

def Piece.map (f : List α → List β) : Piece α → Piece β
  | .text xs => .text (f xs)
  | .span xs => .span (f xs)

/-! ### The cut -/

section

variable (tick : α → Bool)

def run (s : List α) : ℕ := (s.takeWhile tick).length

lemma run_cons_pos {tick : α → Bool} {a : α} (h : tick a) (s : List α) :
    run tick (a :: s) = run tick s + 1 := by
  rw [run, takeWhile_cons_of_pos h, length_cons, run]

lemma run_cons_neg {tick : α → Bool} {a : α} (h : ¬ tick a) (s : List α) :
    run tick (a :: s) = 0 := by
  rw [run, takeWhile_cons_of_neg h, length_nil]

lemma run_le_length {tick : α → Bool} (s : List α) : run tick s ≤ s.length :=
  (takeWhile_sublist tick).length_le

def spanEnd (opening : ℕ) : List α → Option ℕ
  | [] => none
  | a :: s =>
    if _h : tick a = true then
      if run tick (a :: s) = opening then some (run tick (a :: s))
      else (spanEnd opening ((a :: s).drop (run tick (a :: s)))).map (run tick (a :: s) + ·)
    else (spanEnd opening s).map (1 + ·)
termination_by s => s.length
decreasing_by
  · rw [length_drop, length_cons, run_cons_pos _h]
    omega
  · exact Nat.lt_succ_self _

def pushText (xs : List α) : List (Piece α) → List (Piece α)
  | .text more :: rest => .text (xs ++ more) :: rest
  | pieces => .text xs :: pieces

def pieces : List α → List (Piece α)
  | [] => []
  | a :: s =>
    if _h : tick a = true then
      match spanEnd tick (run tick (a :: s)) ((a :: s).drop (run tick (a :: s))) with
      | some close => .span ((a :: s).take (run tick (a :: s) + close)) ::
          pieces (((a :: s).drop (run tick (a :: s))).drop close)
      | none => pushText ((a :: s).take (run tick (a :: s)))
          (pieces ((a :: s).drop (run tick (a :: s))))
    else pushText [a] (pieces s)
termination_by s => s.length
decreasing_by
  · rw [length_drop, length_drop, length_cons, run_cons_pos _h]
    omega
  · rw [length_drop, length_cons, run_cons_pos _h]
    omega
  · exact Nat.lt_succ_self _

end

variable {tick : α → Bool}

lemma pushText_pushText (xs ys : List α) (ps : List (Piece α)) :
    pushText xs (pushText ys ps) = pushText (xs ++ ys) ps := by
  cases ps with
  | nil => rfl
  | cons p ps => cases p <;> simp [pushText]

lemma flatten_pushText (xs : List α) (ps : List (Piece α)) :
    (pushText xs ps).flatMap Piece.content = xs ++ ps.flatMap Piece.content := by
  cases ps with
  | nil => rfl
  | cons p ps => cases p <;> simp [pushText, Piece.content]

lemma flatten_pieces (s : List α) : (pieces tick s).flatMap Piece.content = s := by
  fun_induction pieces tick s with
  | case1 => rfl
  | case2 a s h close hclose ih =>
    rw [flatMap_cons, ih, drop_drop]
    exact take_append_drop _ _
  | case3 a s h hnone ih => rw [flatten_pushText, ih, take_append_drop]
  | case4 a s h ih => rw [flatten_pushText, ih, singleton_append]

/-! ### Runs -/

section

variable (tick)

/-- The lengths of the runs of ticks, in order. -/
def runs : List α → List ℕ
  | [] => []
  | a :: s =>
    if _h : tick a = true then run tick (a :: s) :: runs ((a :: s).drop (run tick (a :: s)))
    else runs s
termination_by s => s.length
decreasing_by
  · rw [length_drop, length_cons, run_cons_pos _h]
    omega
  · exact Nat.lt_succ_self _

/-- No run of ticks goes over from one list to the next one. -/
def Apart (s t : List α) : Prop :=
  ∀ a ∈ s.getLast?, ∀ b ∈ t.head?, tick a = true → ¬ tick b = true

end

variable {s t u : List α}

lemma Apart.drop (h : Apart tick s t) (n : ℕ) : Apart tick (s.drop n) t := by
  intro a ha
  rw [getLast?_drop] at ha
  split at ha
  · cases ha
  · exact h a ha

lemma Apart.append_left (h : Apart tick t u) (ht : t ≠ []) : Apart tick (s ++ t) u := by
  rwa [Apart, getLast?_append_of_ne_nil s ht]

lemma Apart.append_right (h : Apart tick s t) (ht : t ≠ []) : Apart tick s (t ++ u) := by
  rwa [Apart, head?_append_of_ne_nil t ht]

lemma Apart.left (h : Apart tick s (t ++ u)) : Apart tick s t := by
  cases t with
  | nil => exact fun a _ b hb => by cases hb
  | cons b t => exact h

lemma Apart.right (h : Apart tick (s ++ t) u) : Apart tick t u := by
  cases t with
  | nil => exact fun a ha => by cases ha
  | cons a t => rwa [Apart, getLast?_append_of_ne_nil s (cons_ne_nil a t)] at h

lemma run_append (h : Apart tick s t) (hs : s ≠ []) : run tick (s ++ t) = run tick s := by
  induction s with
  | nil => exact absurd rfl hs
  | cons a s ih =>
    by_cases ha : tick a
    · rw [cons_append, run_cons_pos ha, run_cons_pos ha]
      cases s with
      | nil =>
        cases t with
        | nil => rfl
        | cons b t => rw [nil_append, run_cons_neg (h a rfl b rfl ha)]; rfl
      | cons b s => rw [ih (h.drop 1) (cons_ne_nil b s)]
    · rw [cons_append, run_cons_neg ha, run_cons_neg ha]

lemma runs_append (h : Apart tick s t) : runs tick (s ++ t) = runs tick s ++ runs tick t := by
  fun_induction runs tick s with
  | case1 => rfl
  | case2 a s ha ih =>
    have hrun := run_append h (cons_ne_nil a s)
    rw [cons_append] at hrun ⊢
    rw [runs, dif_pos ha, hrun, ← cons_append, drop_append_of_le_length (run_le_length _),
      ih (h.drop _), cons_append]
  | case3 a s ha ih => rw [cons_append, runs, dif_neg ha, ih (h.drop 1)]

lemma runs_eq_nil (h : ∀ a ∈ s, ¬ tick a) : runs tick s = [] := by
  induction s with
  | nil => rw [runs]
  | cons a s ih =>
    obtain ⟨ha, hs⟩ := forall_mem_cons.mp h
    rw [runs, dif_neg ha, ih hs]

lemma spanEnd_eq_none {opening : ℕ} : spanEnd tick opening s = none ↔ opening ∉ runs tick s := by
  fun_induction spanEnd tick opening s with
  | case1 => rw [runs]; exact iff_of_true rfl not_mem_nil
  | case2 a s ha hrun =>
    rw [runs, dif_pos ha, hrun]
    exact iff_of_false (Option.some_ne_none _) (not_not_intro mem_cons_self)
  | case3 a s ha hrun ih =>
    rw [Option.map_eq_none_iff, ih, runs, dif_pos ha, mem_cons, not_or, and_iff_right (Ne.symm hrun)]
  | case4 a s ha ih => rw [Option.map_eq_none_iff, ih, runs, dif_neg ha]

lemma spanEnd_append {opening : ℕ} (h : Apart tick s t) : spanEnd tick opening (s ++ t) =
    (spanEnd tick opening s).or ((spanEnd tick opening t).map (s.length + ·)) := by
  have hmap : ∀ (m n : ℕ) (o o' : Option ℕ), (o.or (o'.map (n + ·))).map (m + ·) =
      (o.map (m + ·)).or (o'.map (m + n + ·)) := by
    intro m n o o'
    cases o <;> cases o' <;> simp [Nat.add_assoc]
  fun_induction spanEnd tick opening s with
  | case1 => cases hspan : spanEnd tick opening t <;> simp [hspan]
  | case2 a s ha hrun =>
    have hrun' := run_append h (cons_ne_nil a s)
    rw [cons_append] at hrun' ⊢
    rw [spanEnd, dif_pos ha, hrun', if_pos hrun, Option.some_or]
  | case3 a s ha hrun ih =>
    have hrun' := run_append h (cons_ne_nil a s)
    have hlen : run tick (a :: s) + ((a :: s).drop (run tick (a :: s))).length = (a :: s).length := by
      rw [length_drop, Nat.add_sub_cancel' (run_le_length _)]
    rw [cons_append] at hrun' ⊢
    rw [spanEnd, dif_pos ha, hrun', if_neg hrun, ← cons_append,
      drop_append_of_le_length (run_le_length _), ih (h.drop _), hmap, hlen]
  | case4 a s ha ih =>
    rw [cons_append, spanEnd, dif_neg ha, ih (h.drop 1), hmap, length_cons, Nat.add_comm 1]

lemma take_run (s : List α) : s.take (run tick s) = s.takeWhile tick :=
  (prefix_iff_eq_take.mp ( takeWhile_prefix tick)).symm

lemma drop_run (s : List α) : s.drop (run tick s) = s.dropWhile tick := by
  have hdrop := congrArg (List.drop (run tick s)) (takeWhile_append_dropWhile (p := tick) (l := s))
  rw [run, drop_left' rfl] at hdrop
  exact hdrop.symm

/-- A list of ticks is one run. -/
theorem run_all (h : ∀ a ∈ s, tick a = true) : run tick s = s.length := by
  rw [run, takeWhile_eq_self_iff.mpr h]

lemma runs_all (h : ∀ a ∈ s, tick a = true) (hs : s ≠ []) : runs tick s = [s.length] := by
  obtain ⟨a, s, rfl⟩ := exists_cons_of_ne_nil hs
  rw [runs, dif_pos (h a mem_cons_self), run_all h, drop_length, runs]

section

variable (tick)

lemma apart_run (s t : List α) : Apart tick t (s.drop (run tick s)) := by
  rw [drop_run]
  intro a _ b hb _
  have hhead := head?_dropWhile_not tick s
  rw [hb] at hhead
  simpa using hhead

lemma all_take_run (s : List α) : ∀ a ∈ s.take (run tick s), tick a = true := by
  rw [take_run]
  exact fun a ha => mem_takeWhile_imp ha

lemma length_take_run (s : List α) : (s.take (run tick s)).length = run tick s := by
  rw [length_take, Nat.min_eq_left (run_le_length s)]

end

lemma take_run_ne_nil {a : α} (ha : tick a) (s : List α) :
    (a :: s).take (run tick (a :: s)) ≠ [] := by
  rw [run_cons_pos ha, take_succ_cons]
  exact cons_ne_nil _ _

lemma runs_take_run {a : α} (ha : tick a) (s : List α) :
    runs tick ((a :: s).take (run tick (a :: s))) = [run tick (a :: s)] := by
  rw [runs_all (all_take_run tick _) (take_run_ne_nil ha s), length_take_run]

/-- The run that closes a span ends there. -/
theorem exists_spanEnd {opening n : ℕ} (h : spanEnd tick opening s = some n) :
    ∃ t u, s = t ++ u ∧ t.length = n ∧ t ≠ [] ∧ Apart tick t u ∧
      spanEnd tick opening t = some t.length := by
  fun_induction spanEnd tick opening s generalizing n with
  | case1 => cases h
  | case2 a s ha hrun =>
    have hall := all_take_run tick (a :: s)
    have hlen := length_take_run tick (a :: s)
    have hne := take_run_ne_nil ha s
    refine ⟨_, _, (take_append_drop _ _).symm, hlen.trans (Option.some.inj h), hne,
      apart_run tick _ _, ?_⟩
    obtain ⟨b, t, ht⟩ := exists_cons_of_ne_nil hne
    rw [ht] at hall hlen ⊢
    rw [spanEnd, dif_pos (hall b mem_cons_self), run_all hall, hlen, if_pos hrun]
  | case3 a s ha hrun ih =>
    obtain ⟨m, hm, rfl⟩ := Option.map_eq_some_iff.mp h
    obtain ⟨t, u, hsplit, rfl, ht, hapart, hend⟩ := ih hm
    have hfirst := apart_run tick (a :: s) ((a :: s).take (run tick (a :: s)))
    rw [hsplit] at hfirst
    refine ⟨(a :: s).take (run tick (a :: s)) ++ t, u, ?_, by rw [length_append, length_take_run],
      append_ne_nil_of_right_ne_nil _ ht, hapart.append_left ht, ?_⟩
    · rw [append_assoc, ← hsplit, take_append_drop]
    · have hnone : spanEnd tick opening ((a :: s).take (run tick (a :: s))) = none := by
        rw [spanEnd_eq_none, runs_take_run ha, mem_singleton]
        exact Ne.symm hrun
      rw [spanEnd_append hfirst.left, hnone, hend, Option.none_or, Option.map_some, length_append]
  | case4 a s ha ih =>
    obtain ⟨m, hm, rfl⟩ := Option.map_eq_some_iff.mp h
    obtain ⟨t, u, rfl, rfl, ht, hapart, hend⟩ := ih hm
    refine ⟨[a] ++ t, u, rfl, by rw [length_append, length_singleton], cons_ne_nil a t,
      hapart.append_left ht, ?_⟩
    rw [singleton_append, spanEnd, dif_neg ha, hend, Option.map_some, length_cons, Nat.add_comm]

/-! ### Well-formed cuts -/

/-- The pieces that the cut of a list may have. -/
inductive Cut (tick : α → Bool) : List (Piece α) → Prop
  | nil : Cut tick []
  | text {s : List α} {ps : List (Piece α)} : s ≠ [] → (∀ t rest, ps ≠ .text t :: rest) →
      Apart tick s (ps.flatMap Piece.content) → (runs tick s).Nodup →
      (runs tick s).Disjoint (runs tick (ps.flatMap Piece.content)) → Cut tick ps →
      Cut tick (.text s :: ps)
  | span {s t : List α} {ps : List (Piece α)} : s ≠ [] → (∀ a ∈ s, tick a = true) → t ≠ [] →
      Apart tick s t → spanEnd tick s.length t = some t.length →
      Apart tick t (ps.flatMap Piece.content) → Cut tick ps → Cut tick (.span (s ++ t) :: ps)

lemma Cut.pushText {ps : List (Piece α)} (h : Cut tick ps) (hs : s ≠ [])
    (hapart : Apart tick s (ps.flatMap Piece.content)) (hnodup : (runs tick s).Nodup)
    (hdisjoint : (runs tick s).Disjoint (runs tick (ps.flatMap Piece.content))) :
    Cut tick (Spans.pushText s ps) := by
  cases h with
  | nil => exact .text hs (fun t rest h => by cases h) hapart hnodup hdisjoint .nil
  | span h₁ h₂ h₃ h₄ h₅ h₆ h₇ =>
    exact .text hs (fun t rest h => by cases h) hapart hnodup hdisjoint (.span h₁ h₂ h₃ h₄ h₅ h₆ h₇)
  | @text t ps ht hps hapart' hnodup' hdisjoint' hcut =>
    rw [flatMap_cons, Piece.content] at hapart hdisjoint
    rw [runs_append hapart', disjoint_append_right] at hdisjoint
    refine .text (append_ne_nil_of_left_ne_nil hs t) hps (hapart'.append_left ht) ?_ ?_ hcut
    · rw [runs_append hapart.left]
      exact hnodup.append hnodup' hdisjoint.1
    · rw [runs_append hapart.left]
      exact disjoint_append_left.mpr ⟨hdisjoint.2, hdisjoint'⟩

lemma cut_pieces (s : List α) : Cut tick (pieces tick s) := by
  fun_induction pieces tick s with
  | case1 => exact .nil
  | case2 a s ha close hclose ih =>
    obtain ⟨t, u, hsplit, rfl, ht, hapart, hend⟩ := exists_spanEnd hclose
    have hfirst := apart_run tick (a :: s) ((a :: s).take (run tick (a :: s)))
    rw [hsplit] at hfirst ih ⊢
    rw [drop_left' rfl] at ih ⊢
    rw [take_add, hsplit, take_left' rfl]
    exact .span (take_run_ne_nil ha s) (all_take_run tick _) ht hfirst.left
      (by rwa [length_take_run]) (by rwa [flatten_pieces]) ih
  | case3 a s ha hnone ih =>
    have hruns := runs_take_run ha s
    refine ih.pushText (take_run_ne_nil ha s) (by rw [flatten_pieces]; exact apart_run tick _ _)
      ?_ ?_
    · rw [hruns]
      exact nodup_singleton _
    · rw [hruns, flatten_pieces, singleton_disjoint]
      exact spanEnd_eq_none.mp hnone
  | case4 a s ha ih =>
    have hruns : runs tick [a] = [] := runs_eq_nil (by simpa using ha)
    refine ih.pushText (cons_ne_nil a []) ?_ ?_ ?_
    · intro b hb _ _ htick
      cases hb
      exact absurd htick ha
    · rw [hruns]
      exact nodup_nil
    · rw [hruns]
      exact disjoint_nil_left _

lemma pieces_text_append (hs : s ≠ []) (hapart : Apart tick s t) (hnodup : (runs tick s).Nodup)
    (hdisjoint : (runs tick s).Disjoint (runs tick t)) :
    pieces tick (s ++ t) = pushText s (pieces tick t) := by
  have hrest : ∀ {s : List α}, Apart tick s t → (runs tick s).Nodup →
      (runs tick s).Disjoint (runs tick t) → (s ≠ [] → Apart tick s t → (runs tick s).Nodup →
        (runs tick s).Disjoint (runs tick t) → pieces tick (s ++ t) = pushText s (pieces tick t)) →
      ∀ first, pushText first (pieces tick (s ++ t)) = pushText (first ++ s) (pieces tick t) := by
    intro s h₁ h₂ h₃ ih first
    cases s with
    | nil => rw [append_nil, nil_append]
    | cons a s => rw [ih (cons_ne_nil a s) h₁ h₂ h₃, pushText_pushText]
  fun_induction runs tick s with
  | case1 => exact absurd rfl hs
  | case2 a s ha ih =>
    have hrun := run_append hapart (cons_ne_nil a s)
    obtain ⟨hhead, htail⟩ := nodup_cons.mp hnodup
    obtain ⟨hhead', htail'⟩ := disjoint_cons_left.mp hdisjoint
    have hnone : spanEnd tick (run tick (a :: s)) ((a :: s).drop (run tick (a :: s)) ++ t) =
        none := by
      rw [spanEnd_eq_none, runs_append (hapart.drop _), mem_append, not_or]
      exact ⟨hhead, hhead'⟩
    rw [cons_append] at hrun ⊢
    rw [pieces, dif_pos ha, hrun, ← cons_append, drop_append_of_le_length (run_le_length _),
      take_append_of_le_length (run_le_length _)]
    simp only [hnone]
    rw [hrest (hapart.drop _) htail htail' ih, take_append_drop]
  | case3 a s ha ih =>
    have hapart' : Apart tick s t := hapart.drop 1
    rw [cons_append, pieces, dif_neg ha, hrest hapart' hnodup hdisjoint ih]
    rfl

lemma pieces_of_cut {ps : List (Piece α)} (h : Cut tick ps) :
    pieces tick (ps.flatMap Piece.content) = ps := by
  induction h with
  | nil => rw [flatMap_nil, pieces]
  | @text s ps hs hps hapart hnodup hdisjoint _ ih =>
    rw [flatMap_cons, Piece.content, pieces_text_append hs hapart hnodup hdisjoint, ih]
    unfold pushText
    split
    · exact absurd rfl (hps _ _)
    · rfl
  | @span s t ps hs hall ht hapart hend hapart' _ ih =>
    have hrun : run tick (s ++ (t ++ ps.flatMap Piece.content)) = s.length := by
      rw [run_append (hapart.append_right ht) hs, run_all hall]
    obtain ⟨a, s, rfl⟩ := exists_cons_of_ne_nil hs
    rw [flatMap_cons, Piece.content, append_assoc]
    rw [cons_append] at hrun ⊢
    rw [pieces, dif_pos (hall a mem_cons_self), hrun, ← cons_append, drop_left' rfl,
      spanEnd_append hapart', hend]
    simp only [Option.some_or]
    rw [drop_left' rfl, ih, ← append_assoc, take_left' (length_append)]

/-! ### Substitution -/

/-- An element rendered anew where it stands: it makes no run of ticks, and joins none. -/
structure Fits (tick : α → Bool) (render render' : β → List α) (pre : List β) (b : β)
    (post : List β) : Prop where
  ne_nil : render' b ≠ []
  runs : runs tick (render' b) <+ runs tick (render b)
  before : Apart tick (pre.flatMap render) (render b)
  behind : Apart tick (render b) (post.flatMap render)
  before' : Apart tick (pre.flatMap render') (render' b)
  behind' : Apart tick (render' b) (post.flatMap render')

section

variable {render render' : β → List α} {front cs rest : List β}

/-- Whatever is written anew in `cs` fits where it stands, between `front` and `rest`. -/
def Substitutes (tick : α → Bool) (render render' : β → List α) (front cs rest : List β) : Prop :=
  ∀ pre b post, cs = pre ++ b :: post → render b ≠ [] ∧
    (render' b = render b ∨ Fits tick render render' (front ++ pre) b (post ++ rest))

lemma Fits.mono {pre post : List β} {b : β}
    (h : Fits tick render render' (front ++ pre) b (post ++ rest)) :
    Fits tick render render' pre b post := by
  obtain ⟨hne, hruns, hbefore, hbehind, hbefore', hbehind'⟩ := h
  rw [flatMap_append] at hbefore hbehind hbefore' hbehind'
  exact ⟨hne, hruns, hbefore.right, hbehind.left, hbefore'.right, hbehind'.left⟩

lemma Substitutes.head {ds : List β} (h : Substitutes tick render render' front (cs ++ ds) rest) :
    Substitutes tick render render' front cs (ds ++ rest) := by
  rintro pre b post rfl
  have hfits := h pre b (post ++ ds) (by rw [append_assoc, cons_append])
  rwa [append_assoc] at hfits

lemma Substitutes.tail {ds : List β} (h : Substitutes tick render render' front (cs ++ ds) rest) :
    Substitutes tick render render' (front ++ cs) ds rest := by
  rintro pre b post rfl
  have hfits := h (cs ++ pre) b post (append_assoc ..).symm
  rwa [← append_assoc] at hfits

lemma Substitutes.ne_nil (h : Substitutes tick render render' front cs rest) {b : β}
    (hb : b ∈ cs) : render' b ≠ [] := by
  obtain ⟨pre, post, rfl⟩ := append_of_mem hb
  obtain ⟨hne, hsame | hfits⟩ := h pre b post rfl
  · rwa [hsame]
  · exact hfits.ne_nil

lemma Substitutes.runs (h : Substitutes tick render render' front cs rest) :
    runs tick (cs.flatMap render') <+ runs tick (cs.flatMap render) := by
  -- what stays, up to the first element that is written anew
  have hkept : ∀ kept : List β, (∀ b ∈ kept, render' b = render b) →
      (∀ pre b post, cs = pre ++ b :: post → render b ≠ [] ∧
        (render' b = render b ∨ Fits tick render render' (kept ++ pre) b post)) →
      Spans.runs tick ((kept ++ cs).flatMap render') <+
        Spans.runs tick ((kept ++ cs).flatMap render) := by
    clear h
    induction cs with
    | nil =>
      intro kept hkept _
      rw [append_nil, flatMap_congr hkept]
    | cons b cs ih =>
      intro kept hkept h
      have hrest := fun pre c post hcs => h (b :: pre) c post (congrArg (b :: ·) hcs)
      obtain ⟨hne, hsame | hfits⟩ := h [] b cs rfl
      · have hlist := ih (kept ++ [b]) (forall_mem_append.mpr ⟨hkept, by simpa using hsame⟩)
          fun pre c post hcs => by simpa using hrest pre c post hcs
        rwa [append_assoc] at hlist
      · have hlist := ih [] (fun b hb => by cases hb) fun pre c post hcs =>
          (hrest pre c post hcs).imp_right fun hfits => hfits.imp_right fun hfits =>
            (by simpa using hfits : Fits tick render render' (kept ++ [b] ++ pre) c (post ++ [])).mono
        rw [append_nil] at hfits
        rw [flatMap_append, flatMap_append, flatMap_cons, flatMap_cons,
          runs_append (hfits.before'.append_right hfits.ne_nil), runs_append hfits.behind',
          runs_append (hfits.before.append_right hne), runs_append hfits.behind,
          flatMap_congr hkept]
        exact (Sublist.refl _).append (hfits.runs.append hlist)
  refine hkept [] (fun b hb => by cases hb) fun pre b post hcs => ?_
  exact (h pre b post hcs).imp_right fun hfits => hfits.imp_right Fits.mono

lemma Substitutes.apart {ds : List β} (h : Substitutes tick render render' front (cs ++ ds) rest)
    (hapart : Apart tick (cs.flatMap render) (ds.flatMap render)) :
    Apart tick (cs.flatMap render') (ds.flatMap render') := by
  intro a ha b hb
  rcases eq_nil_or_concat cs with rfl | ⟨init, c, rfl⟩
  · cases ha
  · rw [concat_eq_append] at h ha hapart
    cases ds with
    | nil => cases hb
    | cons d ds =>
      obtain ⟨hc, hcfits⟩ := h.head init c [] rfl
      obtain ⟨hd, hdfits⟩ := h.tail [] d ds rfl
      have hc' : render' c ≠ [] := h.ne_nil (by simp)
      have hd' : render' d ≠ [] := h.ne_nil (by simp)
      rw [flatMap_append, flatMap_singleton] at ha hapart
      rw [flatMap_cons] at hb hapart
      rw [getLast?_append_of_ne_nil _ hc'] at ha
      rw [head?_append_of_ne_nil _ hd'] at hb
      rcases hcfits with hcsame | hcfits
      · rcases hdfits with hdsame | hdfits
        · rw [hcsame] at ha
          rw [hdsame] at hb
          exact hapart.right.left a ha b hb
        · have hbefore := hdfits.before'
          rw [append_nil, ← append_assoc, flatMap_append,
            flatMap_singleton] at hbefore
          exact hbefore.right a ha b hb
      · have hbehind := hcfits.behind'
        rw [nil_append, cons_append, flatMap_cons] at hbehind
        exact hbehind.left a ha b hb

lemma flatMap_content_map (ps : List (Piece β)) (render : β → List α) :
    (ps.map (Piece.map (·.flatMap render))).flatMap Piece.content =
      (ps.flatMap Piece.content).flatMap render := by
  rw [flatMap_map, flatMap_assoc]
  refine flatMap_congr fun p _ => ?_
  cases p <;> rfl

/-- What is written anew between the spans keeps the cut when it makes no run of ticks, and joins
none. -/
theorem Cut.substitute {ps : List (Piece β)} (hcut : Cut tick (ps.map (Piece.map (·.flatMap render))))
    (h : Substitutes tick render render' front (ps.flatMap Piece.content) [])
    (hspans : ∀ xs, .span xs ∈ ps → xs.flatMap render' = xs.flatMap render) :
    Cut tick (ps.map (Piece.map (·.flatMap render'))) := by
  induction ps generalizing front with
  | nil => exact .nil
  | cons p ps ih =>
    rw [flatMap_cons] at h
    have hspans' := fun xs hxs => hspans xs (mem_cons_of_mem p hxs)
    rw [map_cons] at hcut ⊢
    cases p with
    | text xs =>
      rw [Piece.map] at hcut ⊢
      obtain _ | ⟨hne, hshape, hapart, hnodup, hdisjoint, hrest⟩ := hcut
      rw [flatMap_content_map] at hapart hdisjoint
      have hruns : runs tick (xs.flatMap render') <+ runs tick (xs.flatMap render) := h.head.runs
      refine .text ?_ ?_ ?_ (hnodup.sublist hruns) ?_ (ih hrest h.tail hspans')
      · refine fun hnil => hne (flatMap_eq_nil_iff.mpr fun b hb => ?_)
        exact absurd (flatMap_eq_nil_iff.mp hnil b hb) (h.ne_nil (mem_append_left _ hb))
      · cases ps with
        | nil => exact fun t rest heq => by cases heq
        | cons p ps =>
          cases p with
          | text ys => exact absurd rfl (hshape _ _)
          | span ys => exact fun t rest heq => by cases heq
      · rw [flatMap_content_map]
        exact h.apart hapart
      · rw [flatMap_content_map]
        intro n hn hn'
        exact hdisjoint (hruns.subset hn) (h.tail.runs.subset hn')
    | span xs =>
      have hsame := hspans xs mem_cons_self
      have hapart : Apart tick (xs.flatMap render) ((ps.flatMap Piece.content).flatMap render) →
        Apart tick (xs.flatMap render') ((ps.flatMap Piece.content).flatMap render') := h.apart
      rw [Piece.map] at hcut ⊢
      rw [hsame] at hapart ⊢
      generalize xs.flatMap render = w at hcut hapart ⊢
      obtain _ | _ | ⟨h₁, h₂, h₃, h₄, h₅, h₆, h₇⟩ := hcut
      refine .span h₁ h₂ h₃ h₄ h₅ ?_ (ih h₇ h.tail hspans')
      rw [flatMap_content_map] at h₆ ⊢
      exact (hapart (h₆.append_left h₃)).right

end

end Spans
