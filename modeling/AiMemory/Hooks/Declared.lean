/-
What a pattern matches, said without the table.

The table reads a pattern character by character and has no entry inside a `**`.  A pattern
whose stars are single or paired is a sequence of tokens, and every other entry says whether the
tokens up to there match what was read.

* `globStatesMatch_iff` — the last of them.
-/
import AiMemory.Lib.Globs
import AiMemory.Hooks.Matching

open Strings Globs List

namespace Capture

def token (c : Char) : Token Char := if c = '*' then .run else if c = '?' then .one else .lit c

def tokens : Text → List (Token Char)
  | [] => []
  | '*' :: '*' :: rest => .deep :: tokens rest
  | c :: rest => token c :: tokens rest

lemma tokens_cons {c : Char} {s : Text} (h : c ≠ '*' ∨ s.head? ≠ some '*') :
    tokens (c :: s) = token c :: tokens s := by
  rw [tokens]
  rintro rest rfl rfl
  rcases h with h | h
  · exact h rfl
  · exact h rfl

lemma getLast?_ne_of_cons {a c : Char} {s : Text} (h : (a :: s).getLast? ≠ some c) :
    s.getLast? ≠ some c := by
  cases s with
  | nil => exact fun heq => nomatch heq
  | cons b s => rwa [getLast?_cons_cons] at h

lemma tokens_append {a b : Text} (h : a.getLast? ≠ some '*' ∨ b.head? ≠ some '*') :
    tokens (a ++ b) = tokens a ++ tokens b := by
  fun_induction tokens a with
  | case1 => rfl
  | case2 rest ih =>
    have hrest := h.imp_left fun hlast => getLast?_ne_of_cons (getLast?_ne_of_cons hlast)
    rw [cons_append, cons_append, tokens, ih hrest]
    rfl
  | case3 c rest hdouble ih =>
    have hcut : c ≠ '*' ∨ (rest ++ b).head? ≠ some '*' := by
      by_cases hc : c = '*'
      · right
        cases rest with
        | nil => exact h.resolve_left fun hlast => hlast (by rw [hc]; rfl)
        | cons d rest => exact fun hd => hdouble rest hc (by rw [Option.some.inj hd])
      · exact .inl hc
    rw [cons_append, tokens_cons hcut, ih (h.imp_left getLast?_ne_of_cons)]
    rfl

/-- The text matches the pattern, token by token. -/
def MatchesText (insensitive : Bool) (pattern text : Text) : Prop :=
  Matches '/' (fun expected c => charEqual expected c insensitive = true) (tokens pattern) text

/-! ### The table -/

def NoTriple (pattern : Text) : Prop := ¬['*', '*', '*'] <:+: pattern

/-- The place between the two stars of a `**`. -/
def InsideStars (pattern : Text) (index : ℕ) : Prop :=
  (pattern.take index).getLast? = some '*' ∧ pattern[index]? = some '*'

section
variable {pattern text : Text} {insensitive : Bool}

lemma take_succ_getElem? {index : ℕ} {c : Char} (h : pattern[index]? = some c) :
    pattern.take (index + 1) = pattern.take index ++ [c] := by
  rw [take_add_one, h]
  rfl

lemma getLast?_take_succ {index : ℕ} {c : Char} (h : pattern[index]? = some c) :
    (pattern.take (index + 1)).getLast? = some c := by
  rw [take_succ_getElem? h, getLast?_append]
  rfl

lemma not_insideStars {index : ℕ} (hpattern : NoTriple pattern)
    (hfirst : pattern[index]? = some '*') (hsecond : pattern[index + 1]? = some '*') :
    ¬InsideStars pattern index := by
  rintro ⟨hlast, -⟩
  obtain ⟨front, hfront⟩ := getLast?_eq_some_iff.mp hlast
  refine hpattern ⟨front, pattern.drop (index + 2), ?_⟩
  have hwhole := take_append_drop (index + 2) pattern
  rw [take_succ_getElem? hsecond, take_succ_getElem? hfirst, hfront] at hwhole
  simpa using hwhole

lemma not_insideStars_succ {index : ℕ} {c : Char} (hget : pattern[index]? = some c)
    (hc : c ≠ '*') : ¬InsideStars pattern (index + 1) := by
  rintro ⟨hlast, -⟩
  rw [getLast?_take_succ hget] at hlast
  exact hc (Option.some.inj hlast)

lemma tokens_take_succ {index : ℕ} {c : Char} (hget : pattern[index]? = some c)
    (hcut : (pattern.take index).getLast? ≠ some '*' ∨ c ≠ '*') :
    tokens (pattern.take (index + 1)) = tokens (pattern.take index) ++ [token c] := by
  have hsingle : tokens [c] = [token c] := tokens_cons (.inr fun heq => nomatch heq)
  rw [take_succ_getElem? hget, tokens_append, hsingle]
  exact hcut.imp_right fun hne heq => hne (Option.some.inj heq)

lemma tokens_take_double {index : ℕ} (hpattern : NoTriple pattern)
    (hfirst : pattern[index]? = some '*') (hsecond : pattern[index + 1]? = some '*') :
    tokens (pattern.take (index + 2)) = tokens (pattern.take index) ++ [.deep] := by
  have hcut : (pattern.take index).getLast? ≠ some '*' := fun hlast =>
    not_insideStars hpattern hfirst hsecond ⟨hlast, hfirst⟩
  rw [take_succ_getElem? hsecond, take_succ_getElem? hfirst, append_assoc,
    tokens_append (.inl hcut)]
  rfl

lemma matches_nil {glob : Text} (hglob : glob.head? ≠ some '*')
    (h : MatchesText insensitive glob []) : glob = [] := by
  cases glob with
  | nil => rfl
  | cons c glob =>
    have hc : c ≠ '*' := fun heq => hglob (congrArg some heq)
    rw [MatchesText, tokens_cons (.inl hc), token, if_neg hc] at h
    split at h
    · cases h
    · cases h

variable {index : ℕ} {c : Char} {previous : ℕ → Bool}

lemma nextRow_mark (hget : pattern[index]? = some '?') :
    nextRow pattern insensitive c previous (index + 1) = (c ≠ '/' && previous index) := by
  cases index with
  | zero | succ index =>
    rw [nextRow, hget]
    rfl

lemma nextRow_inside (hfirst : pattern[index]? = some '*')
    (hsecond : pattern[index + 1]? = some '*') :
    nextRow pattern insensitive c previous (index + 1) = false := by
  cases index with
  | zero | succ index =>
    rw [nextRow, hfirst]
    exact if_pos hsecond

lemma nextRow_run (hstar : pattern[index + 1]? = some '*') (hbefore : pattern[index]? ≠ some '*')
    (hbehind : pattern[index + 2]? ≠ some '*') :
    nextRow pattern insensitive c previous (index + 2) =
      (nextRow pattern insensitive c previous (index + 1) ||
        (c ≠ '/' && previous (index + 2))) := by
  rw [nextRow, hstar]
  exact (if_neg hbehind).trans (if_neg hbefore)

lemma nextRow_deep (hfirst : pattern[index]? = some '*') (hsecond : pattern[index + 1]? = some '*')
    (hbehind : pattern[index + 2]? ≠ some '*') :
    nextRow pattern insensitive c previous (index + 2) =
      (nextRow pattern insensitive c previous index || previous (index + 2)) := by
  rw [nextRow, hsecond]
  exact (if_neg hbehind).trans (if_pos hfirst)

lemma firstRow_succ (hhead : pattern.head? ≠ some '*') (index : ℕ) :
    firstRow pattern (index + 1) = false := by
  induction index with
  | zero =>
    rw [firstRow]
    split
    · rename_i hget
      exact absurd (head?_eq_getElem?.trans hget) hhead
    · rfl
  | succ index ih =>
    rw [firstRow, ih]
    split
    · split
      · rfl
      · rfl
    · rfl

lemma globStates_iff (hpattern : NoTriple pattern) (hhead : pattern.head? ≠ some '*')
    (hindex : index ≤ pattern.length) :
    globStates pattern text insensitive index ↔
      ¬InsideStars pattern index ∧ MatchesText insensitive (pattern.take index) text := by
  induction text using List.reverseRecOn generalizing index with
  | nil =>
    change firstRow pattern index = true ↔ _
    cases index with
    | zero =>
      refine iff_of_true rfl ⟨fun h => ?_, .nil⟩
      have hlast := h.1
      cases hlast
    | succ index =>
      rw [firstRow_succ hhead]
      refine iff_of_false Bool.false_ne_true fun h => ?_
      have hne : pattern ≠ [] := by
        rintro rfl
        cases hindex
      have hempty := matches_nil (by rwa [head?_take, if_neg (Nat.succ_ne_zero _)]) h.2
      exact (take_eq_nil_iff.mp hempty).elim (Nat.succ_ne_zero _) hne
  | append_singleton text c ih =>
    rw [globStates_snoc]
    induction index using Nat.strong_induction_on with
    | _ index ihrow =>
      cases index with
      | zero =>
        rw [nextRow]
        refine iff_of_false Bool.false_ne_true fun h => ?_
        have hempty := matches_nil_iff.mp h.2
        simp at hempty
      | succ index =>
        obtain ⟨expected, hget⟩ : ∃ expected, pattern[index]? = some expected :=
          ⟨_, getElem?_eq_getElem hindex⟩
        have hbefore := Nat.le_of_succ_le hindex
        by_cases hstar : expected = '*'
        · subst hstar
          by_cases hsecond : pattern[index + 1]? = some '*'
          · -- inside a `**`
            rw [nextRow_inside hget hsecond]
            refine iff_of_false Bool.false_ne_true fun h => h.1 ⟨?_, hsecond⟩
            exact getLast?_take_succ hget
          have houtside : ¬InsideStars pattern (index + 1) := fun h => hsecond h.2
          cases index with
          | zero => exact absurd (head?_eq_getElem?.trans hget) hhead
          | succ index =>
            by_cases hfirst : pattern[index]? = some '*'
            · -- the second star of a `**`
              have hdeep := tokens_take_double hpattern hfirst hget
              have hrow := ihrow index (by omega) (by omega)
              have hinside := not_insideStars hpattern hfirst hget
              rw [nextRow_deep hfirst hget hsecond, Bool.or_eq_true_iff, hrow, ih hindex, MatchesText,
                MatchesText, MatchesText, hdeep, matches_snoc_deep]
              simp only [hinside, houtside, not_false_eq_true, true_and]
            · have hlast : (pattern.take (index + 1)).getLast? ≠ some '*' := by
                rwa [getLast?_take, if_neg (Nat.succ_ne_zero _), Nat.add_sub_cancel,
                  getElem?_eq_getElem hbefore, Option.some_or,
                  ← getElem?_eq_getElem hbefore]
              have hrun := tokens_take_succ hget (.inl hlast)
              have hrow := ihrow (index + 1) (Nat.lt_succ_self _) hbefore
              have hinside : ¬InsideStars pattern (index + 1) := fun h => hlast h.1
              rw [nextRow_run hget hfirst hsecond, Bool.or_eq_true_iff, hrow, Bool.and_eq_true_iff,
                ih hindex, MatchesText, MatchesText, MatchesText, hrun, token, if_pos rfl,
                matches_snoc_run]
              simp only [hinside, houtside, not_false_eq_true, true_and, decide_eq_true_eq]
        · have houtside := not_insideStars_succ hget hstar
          have hinside : ¬InsideStars pattern index := fun h =>
            hstar (Option.some.inj (hget.symm.trans h.2))
          have htokens := tokens_take_succ hget (.inr hstar)
          by_cases hmark : expected = '?'
          · subst hmark
            rw [nextRow_mark hget, Bool.and_eq_true_iff, ih hbefore, MatchesText, MatchesText, htokens,
              token, if_neg hstar, if_pos rfl, matches_snoc_one]
            simp only [hinside, houtside, not_false_eq_true, true_and, decide_eq_true_eq]
          · have hfree : isGlobChar expected = false := by simp [isGlobChar, hstar, hmark]
            rw [nextRow_literal hget hfree, Bool.and_eq_true_iff, ih hbefore, MatchesText, MatchesText,
              htokens, token, if_neg hstar, if_neg hmark, matches_snoc_lit]
            simp only [hinside, houtside, not_false_eq_true, true_and]

lemma globStatesMatch_iff (hpattern : NoTriple pattern) (hhead : pattern.head? ≠ some '*') :
    globStatesMatch pattern text insensitive ↔ MatchesText insensitive pattern text := by
  have hend : ¬InsideStars pattern pattern.length := by
    rintro ⟨-, hnext⟩
    rw [getElem?_eq_none le_rfl] at hnext
    cases hnext
  have hrow : globStates pattern text insensitive pattern.length ↔ _ :=
    globStates_iff hpattern hhead le_rfl
  rw [take_length] at hrow
  exact hrow.trans (and_iff_right hend)

end

end Capture
