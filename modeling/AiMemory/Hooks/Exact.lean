/-
Candidates against patterns, and what the patterns declare.

A candidate without globs is compared with the whole pattern, once it starts with the pattern's
literal prefix.  The prefix of a `dir:/**` keeps the separator behind the colon, so there the
directory itself is lost, and nothing else is.

* `testsOf_literal`, `testsOf_directory` — the candidates without globs.
-/
import AiMemory.Hooks.Compiled

open Strings Globs Fallible List

namespace Capture

/-- A pattern matches a text, or names it as the directory of a `dir/**`. -/
def Declares (insensitive : Bool) (pattern text : Text) : Prop :=
  MatchesText insensitive pattern text ∨
    ∃ dir, dir ≠ [] ∧ pattern = dir ++ everything ∧ MatchesText insensitive dir text

/-- A directory without globs that ends in a colon: the literal prefix of its `dir/**` keeps the
separator. -/
def LosesDirectory (insensitive : Bool) (pattern text : Text) : Prop :=
  ∃ dir, GlobFree dir ∧ dir.getLast? = some ':' ∧ pattern = dir ++ everything ∧
    SameText insensitive dir text

section
variable {pattern : CompiledPattern} {text : Text} {insensitive : Bool}

lemma CompiledPattern.Sound.globStatesMatch (h : pattern.Sound) :
    globStatesMatch pattern.path text insensitive ↔
      MatchesText insensitive pattern.path text :=
  globStatesMatch_iff h.noTriple h.rooted.head

lemma CompiledPattern.Sound.directoryMatch (h : pattern.Sound) {dir more : Text}
    (hne : dir ≠ []) (hpath : pattern.path = dir ++ more) :
    Capture.globStatesMatch dir text insensitive ↔ MatchesText insensitive dir text := by
  have hbegin : dir <+: pattern.path := ⟨more, hpath.symm⟩
  refine globStatesMatch_iff (h.noTriple.of_infix hbegin.isInfix) fun hhead => h.rooted.head ?_
  rw [hpath, head?_append_of_ne_nil _ hne]
  exact hhead

lemma globMatch_iff (h : pattern.Sound) :
    globMatch pattern.path text pattern.directoryBase insensitive ↔
      Declares insensitive pattern.path text := by
  rw [globMatch, Bool.or_eq_true_iff, h.globStatesMatch]
  constructor
  · rintro (hbase | hpath)
    · obtain ⟨dir, hdir, hmatch⟩ := (Option.any_eq_true _ _).mp hbase
      have hne := h.named dir hdir
      rcases h.directory dir hdir with hpath | ⟨rfl, hpath⟩
      · exact .inr ⟨dir, hne, hpath, (h.directoryMatch hne hpath).mp hmatch⟩
      · -- the root is a text of `/**`
        left
        have hroot : ['/', '*', '*'] = ['/'] ++ ['*', '*'] := rfl
        have hdirectory := (h.directoryMatch hne (hpath.trans hroot)).mp hmatch
        rw [hpath, MatchesText, hroot, tokens_append (.inl (by decide))]
        have hnone : Matches '/' (fun expected c => charEqual expected c insensitive = true)
            [.deep] [] := matches_deep []
        have happend := hdirectory.append hnone
        rwa [append_nil] at happend
    · exact .inl hpath
  · rintro (hmatch | ⟨dir, hne, hpath, hmatch⟩)
    · exact .inr hmatch
    · left
      rw [h.base dir hne hpath]
      exact (h.directoryMatch hne hpath).mpr hmatch

lemma RootedPath.lead {path : Text} (h : RootedPath path) :
    GlobFree path ∨ ∃ lead rest, GlobFree lead ∧ path = lead ++ '/' :: rest := by
  have hcut : ∀ lead parts, GlobFree lead → path.splitOn '/' = lead :: parts →
      GlobFree path ∨ ∃ lead rest, GlobFree lead ∧ path = lead ++ '/' :: rest := by
    intro lead parts hlead hsplit
    have hpath : ['/'].intercalate (path.splitOn '/') = path := intercalate_splitOn '/'
    rw [hsplit] at hpath
    cases parts with
    | nil =>
      rw [intercalate_singleton] at hpath
      exact .inl (hpath ▸ hlead)
    | cons second parts =>
      rw [intercalate_cons_cons, append_assoc] at hpath
      exact .inr ⟨lead, _, hlead, hpath.symm⟩
  have hnil : GlobFree [] := fun _ hc => nomatch hc
  rcases h with h | ⟨lead, hlead, hsplit⟩
  · generalize hsplit : path.splitOn '/' = parts at h
    cases h with
    | posix _ | share _ => exact hcut _ _ hnil hsplit
    | drive _ hfree _ => exact hcut _ _ hfree hsplit
  · exact hcut lead _ hlead hsplit

lemma RootedPath.literalPrefix_ne_nil {path : Text} (h : RootedPath path) (hne : path ≠ []) :
    literalPrefix path ≠ [] := by
  rw [literalPrefix]
  split
  · rename_i hglob
    have hslash : (path.takeWhile fun c => !isGlobChar c).contains '/' := by
      rcases h.lead with hfree | ⟨lead, rest, hfree, hpath⟩
      · obtain ⟨c, hc, hc'⟩ := any_eq_true.mp hglob
        rw [hfree c hc] at hc'
        cases hc'
      · have hall : ∀ c ∈ lead, (!isGlobChar c) = true := fun c hc => by rw [hfree c hc]; rfl
        rw [hpath, takeWhile_append_of_pos hall]
        simp [isGlobChar]
    dsimp only
    rw [if_pos hslash]
    split
    · rename_i htrim
      exact htrim.1
    · exact append_ne_nil_of_right_ne_nil _ (cons_ne_nil _ _)
  · exact hne

lemma anchors_of_matches {glob : Text} (hrooted : RootedPath glob)
    (h : globStatesMatch glob text insensitive) :
    Anchors insensitive (literalPrefix glob) text := by
  refine anchors_of_match (fun hnil => ?_) h
  by_cases hne : glob = []
  · subst hne
    have hempty : GlobFree [] := fun _ hc => nomatch hc
    cases (globStatesMatch_literal hempty).mp h
    exact .inl rfl
  · exact absurd hnil (hrooted.literalPrefix_ne_nil hne)

lemma anchors_of_declares (h : pattern.Sound) (hdeclares : Declares insensitive pattern.path text)
    (hlost : ¬LosesDirectory insensitive pattern.path text) :
    Anchors insensitive pattern.literalPrefix text := by
  rw [h.literalPrefix]
  rcases hdeclares with hmatch | ⟨dir, hne, hpath, hmatch⟩
  · exact anchors_of_matches h.rooted (h.globStatesMatch.mpr hmatch)
  · have htable := (h.directoryMatch hne hpath).mpr hmatch
    have hcolon : GlobFree dir → dir.getLast? ≠ some ':' := by
      intro hfree hlast
      exact hlost ⟨dir, hfree, hlast, hpath, (globStatesMatch_literal hfree).mp htable⟩
    have hbegin : literalPrefix pattern.path = literalPrefix dir := by
      rw [hpath]
      exact literalPrefix_directory hne hcolon
    have hsome := h.rooted.literalPrefix_ne_nil (by rw [hpath]; simp [everything])
    rw [hbegin] at hsome ⊢
    exact anchors_of_match (fun hnil => absurd hnil hsome) htable

lemma anchors_trimmed (h : pattern.Sound) (hdeclares : Declares insensitive pattern.path text) :
    Anchors insensitive (trimEndBy (· = '/') pattern.literalPrefix) text := by
  by_cases hlost : LosesDirectory insensitive pattern.path text
  · obtain ⟨dir, hfree, hcolon, hpath, hsame⟩ := hlost
    have hbegin : pattern.literalPrefix = dir ++ ['/'] := by
      rw [h.literalPrefix, hpath]
      exact literalPrefix_colon hfree hcolon
    have htrim : trimEndBy (· = '/') (dir ++ ['/']) = dir := by
      obtain ⟨front, rfl⟩ := getLast?_eq_some_iff.mp hcolon
      simp [trimEndBy]
    rw [hbegin, htrim]
    exact ⟨text, [], (append_nil _).symm, hsame, .inl rfl⟩
  · exact (anchors_of_declares h hdeclares hlost).trimEnd

def testsOf (toolGlob : Bool) (pattern : CompiledPattern) (text : Text) (insensitive : Bool) :
    Bool :=
  (startsWithChars text pattern.literalPrefix insensitive &&
      globMatch pattern.path text pattern.directoryBase insensitive) ||
    (text.any isGlobChar && globstarReaches text pattern.literalPrefix insensitive) ||
    (toolGlob && !text.any isGlobChar && globMatchesBelow pattern.path text insensitive)

lemma CapturePolicy.matchPattern_run {toolGlob foldCase result : Bool} {candidate : Normalized}
    {patterns : List CompiledPattern} {work work' : ℕ}
    (h : (matchPattern toolGlob foldCase candidate patterns).run work = some (result, work')) :
    result = patterns.any fun pattern =>
      testsOf toolGlob pattern candidate.path
        (toolGlob || candidate.flavor = .windows || foldCase) := by
  induction patterns generalizing work with
  | nil => exact (Prod.mk.inj (Option.some.inj h)).1.symm
  | cons pattern patterns ih =>
    rw [matchPattern] at h
    rw [any_cons, testsOf]
    split at h
    · -- nothing of a pattern that the candidate cannot be under is tested
      rename_i hskip
      simp only [Bool.and_eq_true, Bool.not_eq_true', Bool.and_eq_false_iff] at hskip
      obtain ⟨⟨hunder, hglob⟩, hdirectory⟩ := hskip
      rw [ih h, hunder, hglob]
      rcases hdirectory with htool | hno
      · rw [htool]
        rfl
      · rw [hglob] at hno
        cases hno
    · obtain ⟨-, work₁, -, h⟩ := run_bind_eq_some.mp h
      split at h
      · rename_i htest
        rw [htest]
        exact (Prod.mk.inj (Option.some.inj h)).1.symm
      · rename_i htest
        rw [(Bool.not_eq_true _).mp htest, Bool.false_or]
        exact ih h

/-! ### Candidates without globs -/

theorem any_isGlobChar_eq_false (hfree : GlobFree text) : text.any isGlobChar = false := by
  rw [any_eq_false]
  intro c hc
  rw [hfree c hc]
  exact Bool.false_ne_true

lemma length_of_startsWithChars {start : Text}
    (h : startsWithChars text start insensitive) : start.length ≤ text.length := by
  induction start generalizing text with
  | nil => exact Nat.zero_le _
  | cons expected start ih =>
    cases text with
    | nil =>
      rw [startsWithChars] at h
      cases h
    | cons c text =>
      rw [startsWithChars, Bool.and_eq_true_iff] at h
      exact Nat.succ_le_succ (ih h.2)

lemma testsOf_literal (h : pattern.Sound) (hfree : GlobFree text) :
    testsOf false pattern text insensitive ↔
      Declares insensitive pattern.path text ∧ ¬LosesDirectory insensitive pattern.path text := by
  have htest : testsOf false pattern text insensitive =
      (startsWithChars text pattern.literalPrefix insensitive &&
        globMatch pattern.path text pattern.directoryBase insensitive) := by
    rw [testsOf, any_isGlobChar_eq_false hfree]
    simp
  rw [htest, Bool.and_eq_true_iff, globMatch_iff h]
  constructor
  · rintro ⟨hstarts, hdeclares⟩
    refine ⟨hdeclares, ?_⟩
    rintro ⟨dir, hdir, hcolon, hpath, hsame⟩
    -- the separator of the prefix is missing
    rw [h.literalPrefix, hpath, everything, literalPrefix_colon hdir hcolon] at hstarts
    have hlong : (dir ++ ['/']).length ≤ text.length := length_of_startsWithChars hstarts
    rw [length_append, hsame.length_eq, length_singleton] at hlong
    omega
  · rintro ⟨hdeclares, hlost⟩
    exact ⟨startsWithChars_of_anchors (anchors_of_declares h hdeclares hlost), hdeclares⟩

lemma exists_of_nextRow {glob : Text} {c : Char} {previous : ℕ → Bool} {index : ℕ}
    (hindex : index ≤ glob.length) (h : nextRow glob insensitive c previous index) :
    ∃ earlier ≤ glob.length, previous earlier = true := by
  induction index using Nat.strong_induction_on with
  | _ index ih =>
    cases index with
    | zero =>
      rw [nextRow] at h
      cases h
    | succ index =>
      rcases nextRow_inv h with hprev | hprev | ⟨earlier, hearlier, -, hrow⟩
      · exact ⟨index, Nat.le_of_succ_le hindex, hprev⟩
      · exact ⟨index + 1, hindex, hprev⟩
      · exact ih earlier (Nat.lt_succ_of_le hearlier) (by omega) hrow

lemma exists_of_globStates {glob more : Text} {index : ℕ} (hindex : index ≤ glob.length)
    (h : globStates glob (text ++ more) insensitive index) :
    ∃ earlier ≤ glob.length, globStates glob text insensitive earlier = true := by
  induction more using List.reverseRecOn generalizing index with
  | nil =>
    rw [append_nil] at h
    exact ⟨index, hindex, h⟩
  | append_singleton more c ih =>
    rw [← append_assoc, globStates_snoc] at h
    obtain ⟨earlier, hearlier, hrow⟩ := exists_of_nextRow hindex h
    exact ih hearlier hrow

/-- The path lies below the directory. -/
def Below (directory path : Text) : Prop :=
  ∃ rest, path = (if directory.getLast? = some '/' then directory else directory ++ ['/']) ++ rest

lemma globMatchesBelow_of_alive {glob : Text} {index : ℕ} (hindex : index ≤ glob.length)
    (h : globStates glob (if text.getLast? = some '/' then text else text ++ ['/']) insensitive
      index) : globMatchesBelow glob text insensitive :=
  any_eq_true.mpr ⟨index, mem_range.mpr (Nat.lt_succ_of_le hindex), h⟩

lemma CompiledPattern.Sound.directoryEntry (h : pattern.Sound) {dir : Text}
    (hpath : pattern.path = dir ++ everything) (hmatch : MatchesText insensitive dir text) :
    dir.length ≤ pattern.path.length ∧
      globStates pattern.path text insensitive dir.length := by
  have hlength : dir.length ≤ pattern.path.length := by
    rw [hpath, length_append]
    exact Nat.le_add_right ..
  refine ⟨hlength, (globStates_iff h.noTriple h.rooted.head hlength).mpr ⟨?_, ?_⟩⟩
  · rintro ⟨-, hnext⟩
    rw [hpath, getElem?_append_right le_rfl, Nat.sub_self] at hnext
    cases hnext
  · rw [hpath, take_left]
    exact hmatch

lemma testsOf_directory (h : pattern.Sound) (hfree : GlobFree text) {path : Text}
    (hpath : path = text ∨ Below text path) (hdeclares : Declares insensitive pattern.path path) :
    testsOf true pattern text insensitive := by
  have htest : testsOf true pattern text insensitive =
      (startsWithChars text pattern.literalPrefix insensitive &&
        globMatch pattern.path text pattern.directoryBase insensitive ||
          globMatchesBelow pattern.path text insensitive) := by
    rw [testsOf, any_isGlobChar_eq_false hfree]
    simp
  rw [htest, Bool.or_eq_true_iff, Bool.and_eq_true_iff]
  rcases hpath with rfl | ⟨rest, rfl⟩
  · rcases hdeclares with hmatch | ⟨dir, hne, hpath, hmatch⟩
    · left
      have hanchor := anchors_of_matches h.rooted (h.globStatesMatch.mpr hmatch)
      rw [← h.literalPrefix] at hanchor
      exact ⟨startsWithChars_of_anchors hanchor, (globMatch_iff h).mpr (.inl hmatch)⟩
    · right
      obtain ⟨hlength, hrow⟩ := h.directoryEntry hpath hmatch
      by_cases hlast : path.getLast? = some '/'
      · exact globMatchesBelow_of_alive hlength (by rwa [if_pos hlast])
      · -- the separator behind the directory is the next entry
        have hget : pattern.path[dir.length]? = some '/' := by
          rw [hpath, getElem?_append_right le_rfl, Nat.sub_self]
          rfl
        have hnext : dir.length + 1 ≤ pattern.path.length := by
          rw [hpath, everything, length_append]
          exact Nat.add_le_add_left (by decide) _
        refine globMatchesBelow_of_alive hnext ?_
        rw [if_neg hlast, globStates_snoc, nextRow_literal hget rfl, charEqual_refl, hrow]
        rfl
  · right
    -- an entry of the whole path comes from one at the directory
    obtain ⟨index, hindex, hrow⟩ : ∃ index ≤ pattern.path.length, globStates pattern.path
          ((if text.getLast? = some '/' then text else text ++ ['/']) ++ rest) insensitive index =
            true := by
      rcases hdeclares with hmatch | ⟨dir, -, hpath, hmatch⟩
      · exact ⟨_, le_rfl, h.globStatesMatch.mpr hmatch⟩
      · exact ⟨_, h.directoryEntry hpath hmatch⟩
    obtain ⟨earlier, hearlier, halive⟩ := exists_of_globStates hindex hrow
    exact globMatchesBelow_of_alive hearlier halive

end

end Capture
