/-
Saved tool outputs (`ai-memory-hooks`, `capture_policy.rs`).

Two globs are compared by a table that lets the left star take what faces it, whatever that is;
no common text is lost, for a star that ends early may take nothing.  A path is then searched
for the directories of a saved output, with what lies behind a directory computed once.
-/
import AiMemory.Hooks.Globs
import AiMemory.Lib.Fallible
import AiMemory.Lib.Globs
import Mathlib

open Strings Globs Fallible List

namespace Capture

open Bool (and_eq_true or_eq_true false_ne_true)

variable {c d : Char} {left right text segment : Text}

/-! ### One segment -/

def segmentToken (c : Char) : Token Char :=
  if c = '*' then .run else if c = '?' then .one else .lit c

def SegmentMatches (glob text : Text) : Prop :=
  Matches '/' (· = ·) (glob.map segmentToken) text

/-- Some segment matches both globs. -/
def Common (left right : Text) : Prop :=
  ∃ text, SegmentMatches left text ∧ SegmentMatches right text

def Takes (c d : Char) : Prop := if c = '?' then d ≠ '/' else c = d

lemma segmentMatches_nil : SegmentMatches [] text ↔ text = [] := matches_nil_iff

lemma segmentMatches_cons (hc : c ≠ '*') : SegmentMatches (c :: left) text ↔
    ∃ d rest, text = d :: rest ∧ Takes c d ∧ SegmentMatches left rest := by
  rw [SegmentMatches, map_cons, segmentToken, if_neg hc]
  by_cases hone : c = '?'
  · simp only [Takes, if_pos hone]
    constructor
    · rintro (_ | _ | ⟨hsep, h⟩)
      exact ⟨_, _, rfl, hsep, h⟩
    · rintro ⟨d, rest, rfl, hsep, h⟩
      exact .one hsep h
  · simp only [Takes, if_neg hone]
    constructor
    · rintro (_ | ⟨hsame, h⟩)
      exact ⟨_, _, rfl, hsame, h⟩
    · rintro ⟨d, rest, rfl, hsame, h⟩
      exact .lit hsame h

lemma segmentMatches_star : SegmentMatches ('*' :: left) text ↔ SegmentMatches left text ∨
    ∃ d rest, text = d :: rest ∧ d ≠ '/' ∧ SegmentMatches ('*' :: left) rest := by
  have htoken : segmentToken '*' = .run := rfl
  simp only [SegmentMatches, map_cons, htoken]
  constructor
  · intro h
    cases h with
    | @run skipped _ rest hsep h =>
      cases skipped with
      | nil => exact .inl h
      | cons d skipped =>
        obtain ⟨hd, hskipped⟩ := not_or.mp fun hmem => hsep (mem_cons.mpr hmem)
        exact .inr ⟨d, _, rfl, fun heq => hd heq.symm, .run hskipped h⟩
  · rintro (h | ⟨d, rest, rfl, hd, h⟩)
    · have hrun : Matches '/' (· = ·) (.run :: left.map segmentToken) ([] ++ text) := .run not_mem_nil h
      exact hrun
    · cases h with
      | @run skipped _ rest hsep h =>
        have hmem : '/' ∉ d :: skipped := not_mem_cons_of_ne_of_not_mem (Ne.symm hd) hsep
        exact .run hmem h

lemma segmentMatches_stars : SegmentMatches left [] ↔ left.all (· = '*') := by
  induction left with
  | nil => simp [segmentMatches_nil]
  | cons c left ih =>
    by_cases hc : c = '*'
    · subst hc
      rw [segmentMatches_star, ih]
      simp
    · rw [segmentMatches_cons hc]
      simp [hc]

lemma globsIntersect_of_common (hleft : SegmentMatches left text)
    (hright : SegmentMatches right text) : globsIntersect left right := by
  induction hsize : left.length + right.length + text.length using Nat.strong_induction_on
    generalizing left right text with
  | _ n ih =>
    have hnext : ∀ {l r t : Text}, l.length + r.length + t.length < n → SegmentMatches l t →
        SegmentMatches r t → globsIntersect l r :=
      fun hlt hl hr => ih _ hlt hl hr rfl
    cases left with
    | nil =>
      rw [segmentMatches_nil] at hleft
      subst hleft
      exact segmentMatches_stars.mp hright
    | cons l left =>
      cases right with
      | nil =>
        rw [segmentMatches_nil] at hright
        subst hright
        have hall := segmentMatches_stars.mp hleft
        rw [all_cons, and_eq_true] at hall
        have hrest : globsIntersect left [] := by
          refine hnext ?_ (segmentMatches_stars.mpr hall.2) (segmentMatches_nil.mpr rfl)
          simp only [length_cons, length_nil] at hsize ⊢
          omega
        rw [globsIntersect, intersectRow, hall.1, hrest]
        rfl
      | cons r right =>
        simp only [length_cons] at hsize
        rw [globsIntersect, intersectRow]
        by_cases hl : l = '*'
        · subst hl
          rw [if_pos rfl, or_eq_true]
          rcases segmentMatches_star.mp hleft with hdone | ⟨d, rest, rfl, -, hgoes⟩
          · exact .inl (hnext (by simp; omega) hdone hright)
          rw [length_cons] at hsize
          by_cases hr : r = '*'
          · subst hr
            rcases segmentMatches_star.mp hright with hdone | ⟨d', rest', heq, -, hgoes'⟩
            · exact .inr (hnext (by simp; omega) hleft hdone)
            · -- both stars take the character, and the table stays where it is
              cases heq
              have hsame := hnext (by simp; omega) hgoes hgoes'
              rwa [globsIntersect, intersectRow, if_pos rfl, or_eq_true] at hsame
          · obtain ⟨d', rest', heq, -, hgoes'⟩ := (segmentMatches_cons hr).mp hright
            cases heq
            exact .inr (hnext (by simp; omega) hgoes hgoes')
        · rw [if_neg hl]
          obtain ⟨d, rest, rfl, htakes, hgoes⟩ := (segmentMatches_cons hl).mp hleft
          rw [length_cons] at hsize
          by_cases hr : r = '*'
          · subst hr
            rw [if_pos rfl, or_eq_true]
            rcases segmentMatches_star.mp hright with hdone | ⟨d', rest', heq, -, hgoes'⟩
            · exact .inl (hnext (by simp; omega) hleft hdone)
            · cases heq
              exact .inr (hnext (by simp; omega) hgoes hgoes')
          · rw [if_neg hr]
            obtain ⟨d', rest', heq, htakes', hgoes'⟩ := (segmentMatches_cons hr).mp hright
            cases heq
            rw [and_eq_true]
            refine ⟨?_, hnext (by omega) hgoes hgoes'⟩
            simp only [Takes] at htakes htakes'
            split at htakes
            · simp [*]
            · split at htakes'
              · simp [*]
              · simp [htakes, htakes']

def taken (c : Char) : Char := if c = '?' then 'a' else c

lemma takes_taken (hc : c ≠ '/') : Takes c (taken c) ∧ taken c ≠ '/' := by
  unfold Takes taken
  split
  · exact ⟨by decide, by decide⟩
  · exact ⟨rfl, hc⟩

lemma common_of_globsIntersect (hleft : '/' ∉ left) (hright : '/' ∉ right)
    (h : globsIntersect left right) : Common left right := by
  induction left generalizing right with
  | nil => exact ⟨[], segmentMatches_nil.mpr rfl, segmentMatches_stars.mpr h⟩
  | cons l left ih =>
    obtain ⟨hl, hleft'⟩ := not_or.mp fun hmem => hleft (mem_cons.mpr hmem)
    rw [globsIntersect] at h
    induction right with
    | nil =>
      rw [intersectRow, and_eq_true, decide_eq_true_eq] at h
      obtain ⟨rfl, hbelow⟩ := h
      obtain ⟨text, hmatch, hnil⟩ := ih hleft' hright hbelow
      exact ⟨text, segmentMatches_star.mpr (.inl hmatch), hnil⟩
    | cons r right ihr =>
      obtain ⟨hr, hright'⟩ := not_or.mp fun hmem => hright (mem_cons.mpr hmem)
      obtain ⟨htakes, htaken⟩ := takes_taken (Ne.symm hr)
      rw [intersectRow] at h
      split at h
      · rename_i hstar
        subst hstar
        rw [or_eq_true] at h
        rcases h with h | h
        · obtain ⟨text, hmatch, hmatch'⟩ := ih hleft' hright h
          exact ⟨text, segmentMatches_star.mpr (.inl hmatch), hmatch'⟩
        · obtain ⟨text, hmatch, hmatch'⟩ := ihr hright' h
          by_cases hrstar : r = '*'
          · subst hrstar
            exact ⟨text, hmatch, segmentMatches_star.mpr (.inl hmatch')⟩
          · exact ⟨taken r :: text, segmentMatches_star.mpr (.inr ⟨_, _, rfl, htaken, hmatch⟩),
              (segmentMatches_cons hrstar).mpr ⟨_, _, rfl, htakes, hmatch'⟩⟩
      · rename_i hlstar
        obtain ⟨hltakes, hltaken⟩ := takes_taken (Ne.symm hl)
        split at h
        · rename_i hrstar
          subst hrstar
          rw [or_eq_true] at h
          rcases h with h | h
          · obtain ⟨text, hmatch, hmatch'⟩ := ihr hright' h
            exact ⟨text, hmatch, segmentMatches_star.mpr (.inl hmatch')⟩
          · obtain ⟨text, hmatch, hmatch'⟩ := ih hleft' hright h
            exact ⟨taken l :: text, (segmentMatches_cons hlstar).mpr ⟨_, _, rfl, hltakes, hmatch⟩,
              segmentMatches_star.mpr (.inr ⟨_, _, rfl, hltaken, hmatch'⟩)⟩
        · rename_i hrstar
          rw [and_eq_true] at h
          obtain ⟨hsame, hbelow⟩ := h
          obtain ⟨text, hmatch, hmatch'⟩ := ih hleft' hright' hbelow
          -- the character that is no question mark, if there is one
          obtain ⟨d, hd, hd'⟩ : ∃ d, Takes l d ∧ Takes r d := by
            simp only [or_eq_true, decide_eq_true_eq] at hsame
            rcases hsame with (rfl | rfl) | rfl
            · exact ⟨taken r, by simpa [Takes] using htaken, htakes⟩
            · exact ⟨taken l, hltakes, by simpa [Takes] using hltaken⟩
            · exact ⟨taken l, hltakes, hltakes⟩
          exact ⟨d :: text, (segmentMatches_cons hlstar).mpr ⟨_, _, rfl, hd, hmatch⟩,
            (segmentMatches_cons hrstar).mpr ⟨_, _, rfl, hd', hmatch'⟩⟩

lemma globsIntersect_iff (hleft : '/' ∉ left) (hright : '/' ∉ right) :
    globsIntersect left right ↔ Common left right :=
  ⟨common_of_globsIntersect hleft hright, fun ⟨_, hmatch, hmatch'⟩ =>
    globsIntersect_of_common hmatch hmatch'⟩

def Fits (segment : Text) (shape : String) : Prop := Common segment shape.toList

/-- Literal text between wildcards shares three characters in a row with the word, or all of a
shorter one. -/
def Spelled (segment : Text) (word : String) : Prop :=
  ∃ piece, piece.length = min word.toList.length 3 ∧ piece <:+: word.toList ∧
    piece <:+: segment ∧ '*' ∉ piece ∧ '?' ∉ piece

/-- `<..claude..>/projects/../tool-results/..`, one of the three spelled. -/
def ClaudeResults (directories : List Text) : Prop :=
  ∃ front claude projects behind results, directories = front ++ claude :: projects :: behind ∧
    results ∈ behind ∧ Fits claude "*claude*" ∧ Fits projects "projects" ∧
    Fits results "tool-results" ∧
    (Spelled claude "claude" ∨ Spelled projects "projects" ∨ Spelled results "tool-results")

/-- `<claude..>/../tasks/<id>.output` -/
def ClaudeTask (directories : List Text) (file : Text) : Prop :=
  ∃ parent claude, directories.getLast? = some parent ∧ claude ∈ directories ∧
    Fits parent "tasks" ∧ Fits file "*.output" ∧ Fits claude "claude*" ∧
    (Spelled parent "tasks" ∨ Spelled file ".output" ∨ Spelled claude "claude")

/-- `../opencode/tool-output/<id>` -/
def OpencodeOutput (directories : List Text) : Prop :=
  ∃ front data output, directories = front ++ [data, output] ∧ Fits data "opencode" ∧
    Fits output "tool-output" ∧ (Spelled data "opencode" ∨ Spelled output "tool-output")

def PiLog (file : Text) : Prop := Fits file "pi-bash-*.log" ∧ Spelled file "pi-bash-"

variable (path : Text)

def loweredSegments : List Text :=
  ((path.splitOn '/').filter (· ≠ [])).map fun s => s.map Char.toLower

/-- A path that a harness saved a tool's output to, or a glob that could expand to one. -/
def SavedOutput : Prop :=
  ∃ directories file, loweredSegments path = directories ++ [file] ∧
    (ClaudeResults directories ∨ ClaudeTask directories file ∨ OpencodeOutput directories ∨
      PiLog file)

/-! ### Literal text between wildcards -/

theorem mem_windowsOf {size : ℕ} {piece : Text} (hsize : 0 < size) :
    piece ∈ windowsOf size text ↔ piece.length = size ∧ piece <:+: text := by
  induction text with
  | nil =>
    rw [windowsOf, infix_nil]
    exact iff_of_false not_mem_nil fun ⟨hlength, hnil⟩ => by
      rw [hnil, length_nil] at hlength
      omega
  | cons c text ih =>
    have hshort : ∀ {l : Text}, l.length < size → ¬(piece.length = size ∧ piece <:+: l) :=
      fun hlt ⟨hlength, h⟩ => by
        have := h.length_le
        omega
    rw [windowsOf]
    split
    · rename_i hle
      rw [mem_cons, ih, infix_cons_iff]
      constructor
      · rintro (rfl | ⟨hlength, h⟩)
        · exact ⟨by rw [length_take]; omega, .inl ( take_prefix _ _)⟩
        · exact ⟨hlength, .inr h⟩
      · rintro ⟨hlength, h | h⟩
        · exact .inl (by rw [← hlength]; exact prefix_iff_eq_take.mp h)
        · exact .inr ⟨hlength, h⟩
    · rename_i hlt
      exact iff_of_false not_mem_nil (hshort (by omega))

/-- A text without separators lies in a part of a split text if it lies in the text. -/
theorem infix_splitOnP {p : Char → Bool} {piece : Text} (hpiece : piece ≠ []) :
    (∃ run ∈ text.splitOnP p, piece <:+: run) ↔ piece <:+: text ∧ ∀ c ∈ piece, p c = false := by
  -- of the first part also its beginnings, for a text may start there and go on
  suffices h : ∃ first rest, text.splitOnP p = first :: rest ∧
      (∀ piece, piece <+: first ↔ piece <+: text ∧ ∀ c ∈ piece, p c = false) ∧
      ((∃ run ∈ text.splitOnP p, piece <:+: run) ↔ piece <:+: text ∧ ∀ c ∈ piece, p c = false) by
    obtain ⟨-, -, -, -, h⟩ := h
    exact h
  induction text with
  | nil => exact ⟨[], [], rfl, by simp [prefix_nil], by simp [infix_nil, hpiece]⟩
  | cons c text ih =>
    obtain ⟨first, rest, hsplit, hfirst, hparts⟩ := ih
    rw [splitOnP_cons_eq_if_modifyHead]
    rw [hsplit] at hparts ⊢
    by_cases hc : p c
    · rw [if_pos hc]
      have hnot : ∀ {piece : Text}, piece ≠ [] → piece <+: c :: text →
          ¬∀ c ∈ piece, p c = false := by
        intro piece hne hprefix hclean
        obtain ⟨a, piece, rfl⟩ := exists_cons_of_ne_nil hne
        obtain ⟨rfl, -⟩ := cons_prefix_cons.mp hprefix
        rw [hclean a mem_cons_self] at hc
        cases hc
      refine ⟨[], first :: rest, rfl, fun other => ?_, ?_⟩
      · rw [prefix_nil]
        constructor
        · rintro rfl
          exact ⟨ nil_prefix, by simp⟩
        · rintro ⟨hpre, hclean⟩
          exact by_contra fun hne => hnot hne hpre hclean
      · rw [exists_mem_cons_iff, hparts, infix_nil, infix_cons_iff, or_and_right]
        exact or_congr (iff_of_false hpiece fun h => hnot hpiece h.1 h.2) Iff.rfl
    · have hclean : p c = false := by simpa using hc
      rw [if_neg hc, modifyHead_cons]
      have hhead : ∀ other, other <+: c :: first ↔
          other <+: c :: text ∧ ∀ a ∈ other, p a = false := by
        intro other
        cases other with
        | nil => simp
        | cons a other =>
          rw [cons_prefix_cons, cons_prefix_cons, hfirst, forall_mem_cons]
          constructor
          · rintro ⟨rfl, hprefix, hother⟩
            exact ⟨⟨rfl, hprefix⟩, hclean, hother⟩
          · rintro ⟨⟨rfl, hprefix⟩, -, hother⟩
            exact ⟨rfl, hprefix, hother⟩
      refine ⟨c :: first, rest, rfl, hhead, ?_⟩
      rw [exists_mem_cons_iff] at hparts ⊢
      rw [infix_cons_iff, infix_cons_iff, or_assoc, hparts, hhead, or_and_right]

lemma spells_iff {word : String} (hword : word.toList ≠ []) :
    spells segment word ↔ Spelled segment word := by
  have hneeded : 0 < min word.toList.length 3 := by
    have := length_pos_of_ne_nil hword
    omega
  have hclean : ∀ piece : Text, (∀ c ∈ piece, isGlobChar c = false) ↔ '*' ∉ piece ∧ '?' ∉ piece := by
    intro piece
    simp only [isGlobChar, Bool.or_eq_false_iff, decide_eq_false_iff_not]
    exact ⟨fun h => ⟨fun hmem => (h _ hmem).1 rfl, fun hmem => (h _ hmem).2 rfl⟩, fun h c hc =>
      ⟨fun heq => h.1 (heq ▸ hc), fun heq => h.2 (heq ▸ hc)⟩⟩
  simp only [spells, any_eq_true, contains_iff_mem, mem_windowsOf hneeded]
  constructor
  · rintro ⟨run, hrun, piece, ⟨hlength, hin⟩, -, hfrom⟩
    have hne : piece ≠ [] := ne_nil_of_length_pos (by omega)
    obtain ⟨hsegment, hplain⟩ := (infix_splitOnP hne).mp ⟨run, hrun, hin⟩
    exact ⟨piece, hlength, hfrom, hsegment, (hclean piece).mp hplain⟩
  · rintro ⟨piece, hlength, hfrom, hsegment, hplain⟩
    have hne : piece ≠ [] := ne_nil_of_length_pos (by omega)
    obtain ⟨run, hrun, hin⟩ := (infix_splitOnP hne).mpr ⟨hsegment, (hclean piece).mpr hplain⟩
    exact ⟨run, hrun, piece, ⟨hlength, hin⟩, hlength, hfrom⟩

/-! ### The search in one pass -/

variable {directories : List Text} {file : Text} {shape : String}

def Segments (l : List Text) : Prop := ∀ s ∈ l, '/' ∉ s

lemma fits_returns (hsegment : '/' ∉ segment) (hshape : '/' ∉ shape.toList) :
    Returns (fits segment shape) fun b => b = true ↔ Fits segment shape := by
  refine Returns.bind (P := fun _ => True) (fun _ _ _ _ => trivial) fun _ _ => .pure ?_
  exact globsIntersect_iff hsegment hshape

def Seen (rest : List Text) (seen : Bool × Bool) : Prop :=
  (seen.1 = true ↔ ∃ results ∈ rest, Fits results "tool-results") ∧
    (seen.2 = true ↔ ∃ results ∈ rest, Fits results "tool-results" ∧ Spelled results "tool-results")

lemma resultsAfter_returns (h : Segments directories) :
    Returns (resultsAfter directories) fun out => Seen directories out.2 ∧
      ∀ i < directories.length, ∃ seen, out.1[i]? = some seen ∧ Seen (directories.drop (i + 1)) seen := by
  induction directories with
  | nil => exact .pure ⟨⟨by simp, by simp⟩, fun i hi => absurd hi (Nat.not_lt_zero i)⟩
  | cons results rest ih =>
    obtain ⟨hresults, hrest⟩ := forall_mem_cons.mp h
    refine (ih hrest).bind fun out hout => ?_
    obtain ⟨suffix, seen⟩ := out
    obtain ⟨hseen, htable⟩ := hout
    refine (fits_returns hresults (by decide)).bind fun fit hfit => .pure ⟨?_, ?_⟩
    · dsimp only
      split
      · rename_i hyes
        refine ⟨iff_of_true rfl ⟨results, mem_cons_self, hfit.mp hyes⟩, ?_⟩
        rw [or_eq_true, hseen.2, spells_iff (by decide)]
        simp [hfit.mp hyes, or_comm]
      · rename_i hno
        have hnot : ¬ Fits results "tool-results" := fun hyes => hno (hfit.mpr hyes)
        simpa [Seen, hnot] using hseen
    · intro i hi
      cases i with
      | zero => exact ⟨seen, rfl, hseen⟩
      | succ i => exact htable i (by simpa using hi)

lemma claudeResults_cons {claude projects : Text} {behind : List Text} :
    ClaudeResults (claude :: projects :: behind) ↔
      (∃ results ∈ behind, Fits claude "*claude*" ∧ Fits projects "projects" ∧
        Fits results "tool-results" ∧
        (Spelled claude "claude" ∨ Spelled projects "projects" ∨ Spelled results "tool-results")) ∨
      ClaudeResults (projects :: behind) := by
  constructor
  · rintro ⟨front, c, p, b, r, heq, hr, hrest⟩
    cases front with
    | nil =>
      cases heq
      exact .inl ⟨r, hr, hrest⟩
    | cons f front => exact .inr ⟨front, c, p, b, r, (List.cons.inj heq).2, hr, hrest⟩
  · rintro (⟨r, hr, hrest⟩ | ⟨front, c, p, b, r, heq, hr, hrest⟩)
    · exact ⟨[], claude, projects, behind, r, rfl, hr, hrest⟩
    · exact ⟨claude :: front, c, p, b, r, by rw [heq]; rfl, hr, hrest⟩

lemma not_claudeResults_short {l : List Text} (h : l.length ≤ 1) : ¬ ClaudeResults l := by
  rintro ⟨front, c, p, b, r, rfl, -⟩
  simp at h
  omega

def TableOf (directories : List Text) (table : List (Bool × Bool)) : Prop :=
  ∀ i < directories.length, ∃ seen, table[i]? = some seen ∧ Seen (directories.drop (i + 1)) seen

lemma claudeResults_returns (h : Segments directories) {rest : List Text} {index : ℕ}
    (hrest : directories.drop index = rest) {after : Option (List (Bool × Bool))}
    (hafter : ∀ table ∈ after, TableOf directories table) :
    Returns (claudeResults directories (index + 1) after rest) fun b =>
      b = true ↔ ClaudeResults rest := by
  induction rest generalizing index after with
  | nil => exact .pure (iff_of_false false_ne_true (not_claudeResults_short (by simp)))
  | cons claude rest ih =>
    cases rest with
    | nil => exact .pure (iff_of_false false_ne_true (not_claudeResults_short (by simp)))
    | cons projects behind =>
      have hmem : Segments (claude :: projects :: behind) := fun s hs =>
        h s (mem_of_mem_drop (hrest ▸ hs))
      obtain ⟨hclaude, hmem⟩ := forall_mem_cons.mp hmem
      obtain ⟨hprojects, -⟩ := forall_mem_cons.mp hmem
      have hnext : directories.drop (index + 1) = projects :: behind := by
        rw [← drop_drop, hrest]
        rfl
      have hbehind : directories.drop (index + 1 + 1) = behind := by
        rw [← drop_drop, hnext]
        rfl
      -- without one of the two directories here, the search goes on
      have hskip : ¬(Fits claude "*claude*" ∧ Fits projects "projects") →
          Returns (claudeResults directories (index + 1 + 1) after (projects :: behind)) fun b =>
            b = true ↔ ClaudeResults (claude :: projects :: behind) := by
        intro hnot
        have hhere : ¬ ∃ results ∈ behind, Fits claude "*claude*" ∧ Fits projects "projects" ∧
            Fits results "tool-results" ∧ (Spelled claude "claude" ∨ Spelled projects "projects" ∨
              Spelled results "tool-results") := fun hex =>
          hex.elim fun _ hr => hnot ⟨hr.2.1, hr.2.2.1⟩
        rw [claudeResults_cons, or_iff_right hhere]
        exact ih hnext hafter
      rw [claudeResults]
      refine (fits_returns hclaude (by decide)).bind fun fitsClaude hfitsClaude => ?_
      cases fitsClaude with
      | false => exact hskip fun hboth => false_ne_true (hfitsClaude.mpr hboth.1)
      | true =>
        refine (fits_returns hprojects (by decide)).bind fun fitsProjects hfitsProjects => ?_
        cases fitsProjects with
        | false => exact hskip fun hboth => false_ne_true (hfitsProjects.mpr hboth.2)
        | true =>
          have hlt : index + 1 < directories.length := by
            have hlen := congrArg List.length hnext
            rw [length_drop, length_cons] at hlen
            omega
          have hcont : ∀ table, TableOf directories table → Returns
              (if (table.getD (index + 1) (false, false)).2 ||
                  ((table.getD (index + 1) (false, false)).1 &&
                    (spells claude "claude" || spells projects "projects")) then pure true
                else claudeResults directories (index + 1 + 1) (some table) (projects :: behind))
              fun b => b = true ↔ ClaudeResults (claude :: projects :: behind) := by
            intro table htable
            obtain ⟨seen, hget, hfitting, hspelled⟩ := htable (index + 1) hlt
            rw [hbehind] at hfitting hspelled
            rw [getD_eq_getElem?_getD, hget, Option.getD_some]
            have hfound : (seen.2 || (seen.1 && (spells claude "claude" ||
                spells projects "projects"))) ↔
                ∃ results ∈ behind, Fits claude "*claude*" ∧ Fits projects "projects" ∧
                  Fits results "tool-results" ∧ (Spelled claude "claude" ∨
                    Spelled projects "projects" ∨ Spelled results "tool-results") := by
              have hboth := And.intro (hfitsClaude.mp rfl) (hfitsProjects.mp rfl)
              simp (disch := decide) only [or_eq_true, and_eq_true, hfitting, hspelled,
                spells_iff]
              constructor
              · rintro (⟨r, hr, hfit, hword⟩ | ⟨⟨r, hr, hfit⟩, hword⟩)
                · exact ⟨r, hr, hboth.1, hboth.2, hfit, .inr (.inr hword)⟩
                · exact ⟨r, hr, hboth.1, hboth.2, hfit, or_assoc.mp (.inl hword)⟩
              · rintro ⟨r, hr, -, -, hfit, hword | hword | hword⟩
                · exact .inr ⟨⟨r, hr, hfit⟩, .inl hword⟩
                · exact .inr ⟨⟨r, hr, hfit⟩, .inr hword⟩
                · exact .inl ⟨r, hr, hfit, hword⟩
            rw [claudeResults_cons]
            split
            · rename_i hyes
              exact .pure (iff_of_true rfl (.inl (hfound.mp hyes)))
            · rename_i hno
              rw [or_iff_right fun hex => hno (hfound.mpr hex)]
              exact ih hnext fun t ht => Option.some.inj ht ▸ htable
          cases after with
          | some table => exact hcont table (hafter table rfl)
          | none =>
            have htable : Returns (Prod.fst <$> resultsAfter directories) (TableOf directories) := by
              rw [← bind_pure_comp]
              exact (resultsAfter_returns h).bind fun out hout => .pure hout.2
            exact htable.bind hcont

lemma claudeDirectory_returns (named : Bool) (h : Segments directories) :
    Returns (claudeDirectory named directories) fun b => b = true ↔
      ∃ claude ∈ directories, Fits claude "claude*" ∧ (named ∨ Spelled claude "claude") := by
  induction directories with
  | nil => exact .pure (by simp)
  | cons claude rest ih =>
    obtain ⟨hclaude, hrest⟩ := forall_mem_cons.mp h
    refine (fits_returns hclaude (by decide)).bind fun fit hfit => ?_
    split
    · rename_i hyes
      rw [and_eq_true, or_eq_true, spells_iff (by decide)] at hyes
      exact .pure (iff_of_true rfl ⟨claude, mem_cons_self, hfit.mp hyes.1, hyes.2⟩)
    · rename_i hno
      have hhere : ¬(Fits claude "claude*" ∧ (named ∨ Spelled claude "claude")) := by
        rintro ⟨hfits, hword⟩
        refine hno ?_
        rw [and_eq_true, or_eq_true, spells_iff (by decide)]
        exact ⟨hfit.mpr hfits, hword⟩
      simp only [mem_cons, exists_eq_or_imp, or_iff_right hhere]
      exact ih hrest

lemma claudeTask_returns (h : Segments directories) (hfile : '/' ∉ file) :
    Returns (claudeTask directories file) fun b => b = true ↔ ClaudeTask directories file := by
  rw [claudeTask]
  cases hlast : directories.getLast? with
  | none => exact .pure (iff_of_false false_ne_true (by simp [ClaudeTask, hlast]))
  | some parent =>
    have hparent := h parent (mem_of_getLast? hlast)
    refine (fits_returns hparent (by decide)).bind fun fit hfit => ?_
    cases fit with
    | false =>
      refine .pure (iff_of_false false_ne_true ?_)
      rintro ⟨parent', claude, hlast', -, hfits, -⟩
      obtain rfl := Option.some.inj (hlast.symm.trans hlast')
      exact false_ne_true (hfit.mpr hfits)
    | true =>
      refine (fits_returns hfile (by decide)).bind fun fit' hfit' => ?_
      cases fit' with
      | false =>
        refine .pure (iff_of_false false_ne_true ?_)
        rintro ⟨parent', claude, -, -, -, hfits, -⟩
        exact false_ne_true (hfit'.mpr hfits)
      | true =>
        intro s b s' hrun
        refine (claudeDirectory_returns (spells parent "tasks" || spells file ".output") h
          s b s' hrun).trans ?_
        constructor
        · rintro ⟨claude, hmem, hfits, hword⟩
          rw [or_eq_true, or_assoc, spells_iff (by decide), spells_iff (by decide)] at hword
          exact ⟨parent, claude, hlast, hmem, hfit.mp rfl, hfit'.mp rfl, hfits, hword⟩
        · rintro ⟨parent', claude, hlast', hmem, -, -, hfits, hword⟩
          obtain rfl := Option.some.inj (hlast.symm.trans hlast')
          refine ⟨claude, hmem, hfits, ?_⟩
          rwa [or_eq_true, or_assoc, spells_iff (by decide), spells_iff (by decide)]

lemma opencodeOutput_returns (h : Segments directories) :
    Returns (opencodeOutput directories) fun b => b = true ↔ OpencodeOutput directories := by
  have hshort : directories.length ≤ 1 → ¬ OpencodeOutput directories := by
    rintro hlen ⟨front, data, output, rfl, -⟩
    simp at hlen
  rw [opencodeOutput]
  rcases hreverse : directories.reverse with _ | ⟨output, _ | ⟨data, more⟩⟩
  · exact .pure (iff_of_false false_ne_true (hshort (by rw [← length_reverse, hreverse]; simp)))
  · exact .pure (iff_of_false false_ne_true (hshort (by rw [← length_reverse, hreverse]; simp)))
  have hdirectories : directories = more.reverse ++ [data, output] := by
    rw [← reverse_reverse directories, hreverse]
    simp
  have hdata := h data (by rw [hdirectories]; simp)
  have houtput := h output (by rw [hdirectories]; simp)
  have hiff : OpencodeOutput directories ↔ Fits data "opencode" ∧ Fits output "tool-output" ∧
      (Spelled data "opencode" ∨ Spelled output "tool-output") := by
    constructor
    · rintro ⟨front, data', output', heq, hrest⟩
      rw [hdirectories] at heq
      obtain ⟨-, htail⟩ := append_inj' heq rfl
      cases htail
      exact hrest
    · exact fun hrest => ⟨more.reverse, data, output, hdirectories, hrest⟩
  rw [hiff]
  refine (fits_returns hdata (by decide)).bind fun fit hfit => ?_
  cases fit with
  | false => exact .pure (iff_of_false false_ne_true fun hall => false_ne_true (hfit.mpr hall.1))
  | true =>
    refine (fits_returns houtput (by decide)).bind fun fit' hfit' => ?_
    cases fit' with
    | false =>
      exact .pure (iff_of_false false_ne_true fun hall => false_ne_true (hfit'.mpr hall.2.1))
    | true =>
      refine .pure ?_
      rw [or_eq_true, spells_iff (by decide), spells_iff (by decide),
        and_iff_right (hfit.mp rfl), and_iff_right (hfit'.mp rfl)]

lemma notMem_loweredSegments {path : Text} : Segments (loweredSegments path) := by
  intro s hs hmem
  obtain ⟨part, hpart, rfl⟩ := mem_map.mp hs
  obtain ⟨c, hc, hlower⟩ := mem_map.mp hmem
  by_cases hupper : c.isUpper
  · have halpha : c.toLower.isAlpha := by simp [Char.isAlpha, hupper]
    rw [hlower] at halpha
    cases halpha
  · rw [Char.toLower_eq_of_not_isUpper hupper] at hlower
    exact notMem_segment (mem_filter.mp hpart).1 (hlower ▸ hc)

lemma outputSpool_returns :
    Returns (outputSpool path) fun b => b = true ↔ SavedOutput path := by
  have hsegments : Segments (loweredSegments path) := notMem_loweredSegments
  rw [outputSpool, ← loweredSegments]
  cases hlast : (loweredSegments path).getLast? with
  | none =>
    refine .pure (iff_of_false false_ne_true ?_)
    rintro ⟨directories, file, hpath, -⟩
    rw [hpath, getLast?_concat] at hlast
    cases hlast
  | some file =>
    have hpath : loweredSegments path = (loweredSegments path).dropLast ++ [file] := by
      exact (dropLast_append_getLast? file hlast).symm
    generalize (loweredSegments path).dropLast = directories at hpath
    have hdirectories : Segments directories := fun s hs =>
      hsegments s (by rw [hpath]; exact mem_append_left _ hs)
    have hfile : '/' ∉ file := hsegments file (by rw [hpath]; simp)
    have hiff : SavedOutput path ↔ ClaudeResults directories ∨ ClaudeTask directories file ∨
        OpencodeOutput directories ∨ PiLog file := by
      constructor
      · rintro ⟨directories', file', hpath', hrest⟩
        obtain ⟨rfl, hfiles⟩ := append_inj' (hpath.symm.trans hpath') rfl
        obtain rfl := singleton_inj.mp hfiles
        exact hrest
      · exact fun hrest => ⟨directories, file, hpath, hrest⟩
    rw [hiff]
    have hclaude : Returns (claudeResults directories 1 none directories) fun b =>
        b = true ↔ ClaudeResults directories :=
      claudeResults_returns hdirectories drop_zero fun _ h => by cases h
    refine hclaude.bind fun results hresults => ?_
    refine (claudeTask_returns hdirectories hfile).bind fun task htask => ?_
    refine (opencodeOutput_returns hdirectories).bind fun opencode hopencode => ?_
    refine (fits_returns hfile (by decide)).bind fun pi hpi => .pure ?_
    rw [or_eq_true, or_eq_true, or_eq_true, and_eq_true, hresults, htask,
      hopencode, hpi, spells_iff (by decide), or_assoc, or_assoc, PiLog]

/-- The table is exact on globs of one segment, and a search within the budget answers what the
plain one does. -/
theorem outputSpool_exact :
    (∀ left right, '/' ∉ left → '/' ∉ right →
      (globsIntersect left right = true ↔ Common left right)) ∧
    ∀ path work saved work', (outputSpool path).run work = some (saved, work') →
      (saved = true ↔ SavedOutput path) :=
  ⟨fun _ _ hleft hright => globsIntersect_iff hleft hright, fun path => outputSpool_returns path⟩

theorem outputSpool_exact_tasks : Common "t*".toList "tasks".toList ∧
    SavedOutput "/tmp/pi-bash-7.log".toList ∧ ¬ SavedOutput "/tmp/notes.log".toList := by
  refine ⟨(outputSpool_exact.1 _ _ (by decide) (by decide)).mp (by decide), ?_, fun h => ?_⟩
  · exact (outputSpool_exact.2 "/tmp/pi-bash-7.log".toList 0 true 220 (by decide +kernel)).mp rfl
  · exact Bool.false_ne_true
      ((outputSpool_exact.2 "/tmp/notes.log".toList 0 false 164
        (by decide +kernel)).mpr h)

end Capture
