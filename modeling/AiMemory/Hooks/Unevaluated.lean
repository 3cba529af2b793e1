/-
Brace expansions a command scan notices.

The scan for unevaluated syntax keeps one flag for the brace it is in, and another brace
inside clears it.  So it notices a brace with a comma or dots of its own only when no brace
stands in between, while the expansion pairs nested braces.
-/
import AiMemory.Hooks.Braces
import AiMemory.Hooks.Words

open List

namespace Capture

open Strings (isWhitespace)

/-- A character of a word that has no meaning to the scan but as a brace or a bracket. -/
def isBare (c : Char) : Bool :=
  !isWhitespace c && !isOperator c && c ≠ '\'' && c ≠ '"' && c ≠ '\\' && c ≠ '$'

variable (word : Text)

def Expands : Prop :=
  ∀ words, braceAlternatives word = some words → 2 ≤ words.length

/-- Braces with a comma or a `..` in them and no braces inside. -/
def FlatBrace : Prop :=
  ∃ a x b, word = a ++ '{' :: (x ++ '}' :: b) ∧ '{' ∉ x ∧ '}' ∉ x ∧
    (',' ∈ x ∨ ['.', '.'] <:+: x)

/-- The characters that count as members of a class: not the braces, nor in a brace its
commas and doubled dots. -/
def classText : Bool → Option Char → Text → Text
  | _, _, [] => []
  | inBrace, previous, c :: rest =>
    if c = '{' then classText true (some c) rest
    else if inBrace ∧ (c = ',' ∨ c = '.' ∧ previous = some '.') then classText true (some c) rest
    else if inBrace ∧ c = '}' then classText false (some c) rest
    else c :: classText inBrace (some c) rest

lemma classText_cons (inBrace : Bool) (previous : Option Char) (c : Char) (rest : Text) :
    classText inBrace previous (c :: rest) = if c = '{' then classText true (some c) rest
      else if inBrace ∧ (c = ',' ∨ c = '.' ∧ previous = some '.') then classText true (some c) rest
      else if inBrace ∧ c = '}' then classText false (some c) rest
      else c :: classText inBrace (some c) rest := rfl

def BracketClass (text : Text) : Prop := ∃ a x b, text = a ++ '[' :: (x ++ ']' :: b) ∧ x ≠ []

/-- The word shows an expansion: flat braces or a bracket class. -/
def Noticed : Prop := FlatBrace word ∨ BracketClass (classText false none word)

/-! ### Behind an open brace or bracket -/

/-- The brace that is open closes around a comma or two dots; `seen` tells of one already. -/
def OpenBrace (seen : Bool) (previous : Option Char) (word : Text) : Prop :=
  ∃ x b, word = x ++ '}' :: b ∧ '{' ∉ x ∧ '}' ∉ x ∧
    (seen = true ∨ ',' ∈ x ∨ ['.', '.'] <:+: previous.toList ++ x)

/-- The class that is open closes, `n` members behind its bracket. -/
def OpenClass (n : ℕ) (text : Text) : Prop := ∃ x b, text = x ++ ']' :: b ∧ (0 < n ∨ x ≠ [])

lemma dots_cons {p c : Char} {x : Text} :
    ['.', '.'] <:+: p :: c :: x ↔ (p = '.' ∧ c = '.') ∨ ['.', '.'] <:+: c :: x := by
  rw [infix_cons_iff]
  simp [eq_comm]

lemma not_dots_single {p : Char} : ¬ ['.', '.'] <:+: [p] := by
  intro h
  have := h.length_le
  simp at this

variable {c : Char} {w l : Text} {previous : Option Char} {seen : Bool} {n : ℕ} {s : ExpansionScan}

lemma dots_toList {p : Option Char} {x : Text} :
    ['.', '.'] <:+: p.toList ++ c :: x ↔ (p = some '.' ∧ c = '.') ∨ ['.', '.'] <:+: c :: x := by
  cases p with
  | none => simp
  | some p => simpa using dots_cons

lemma flatBrace_nil : ¬ FlatBrace [] := by
  rintro ⟨a, x, b, h, -⟩
  simp at h

lemma flatBrace_cons :
    FlatBrace (c :: w) ↔ FlatBrace w ∨ c = '{' ∧ OpenBrace false none w := by
  constructor
  · rintro ⟨a, x, b, h, hx⟩
    cases a with
    | nil =>
      obtain ⟨rfl, rfl⟩ := cons_eq_cons.mp h
      exact .inr ⟨rfl, x, b, rfl, hx.1, hx.2.1, .inr hx.2.2⟩
    | cons d a =>
      obtain ⟨-, rfl⟩ := cons_eq_cons.mp h
      exact .inl ⟨a, x, b, rfl, hx⟩
  · rintro (⟨a, x, b, rfl, hx⟩ | ⟨rfl, x, b, rfl, hopen, hclose, hx⟩)
    · exact ⟨c :: a, x, b, rfl, hx⟩
    · exact ⟨[], x, b, rfl, hopen, hclose, by simpa using hx⟩

lemma openBrace_nil : ¬ OpenBrace seen previous [] := by
  rintro ⟨x, b, h, -⟩
  simp at h

lemma openBrace_cons_open :
    ¬ OpenBrace seen previous ('{' :: w) := by
  rintro ⟨x, b, h, hopen, -⟩
  cases x with
  | nil => simp at h
  | cons d x =>
    obtain ⟨rfl, -⟩ := cons_eq_cons.mp h
    exact hopen mem_cons_self

lemma openBrace_cons_close :
    OpenBrace seen previous ('}' :: w) ↔ seen := by
  constructor
  · rintro ⟨x, b, h, -, hclose, hx⟩
    cases x with
    | nil =>
      rcases hx with hseen | hx | hx
      · exact hseen
      · cases hx
      · rw [append_nil] at hx
        cases previous with
        | none => simp at hx
        | some p => exact absurd hx not_dots_single
    | cons d x =>
      obtain ⟨rfl, -⟩ := cons_eq_cons.mp h
      exact absurd mem_cons_self hclose
  · intro hseen
    exact ⟨[], w, rfl, not_mem_nil, not_mem_nil, .inl hseen⟩

lemma openBrace_cons (hopen : c ≠ '{') (hclose : c ≠ '}') : OpenBrace seen previous (c :: w) ↔
      OpenBrace (seen || decide (c = ',') || decide (c = '.' ∧ previous = some '.')) (some c) w := by
  constructor
  · rintro ⟨x, b, h, hx, hx', hseen⟩
    cases x with
    | nil => exact absurd (cons_eq_cons.mp h).1 hclose
    | cons d x =>
      obtain ⟨rfl, rfl⟩ := cons_eq_cons.mp h
      refine ⟨x, b, rfl, fun hm => hx (mem_cons_of_mem _ hm),
        fun hm => hx' (mem_cons_of_mem _ hm), ?_⟩
      rcases hseen with hseen | hcomma | hdots
      · exact .inl (by simp [hseen])
      · rcases mem_cons.mp hcomma with rfl | hcomma
        · exact .inl (by simp)
        · exact .inr (.inl hcomma)
      · rcases dots_toList.mp hdots with ⟨hp, hc⟩ | hdots
        · exact .inl (by simp [hp, hc])
        · exact .inr (.inr hdots)
  · rintro ⟨x, b, rfl, hx, hx', hseen⟩
    refine ⟨c :: x, b, rfl, ?_, ?_, ?_⟩
    · simpa using ⟨fun h => hopen h.symm, hx⟩
    · simpa using ⟨fun h => hclose h.symm, hx'⟩
    · rcases hseen with hseen | hcomma | hdots
      · simp only [Bool.or_eq_true, decide_eq_true_eq] at hseen
        rcases hseen with (hseen | rfl) | ⟨hc, hp⟩
        · exact .inl hseen
        · exact .inr (.inl mem_cons_self)
        · exact .inr (.inr (dots_toList.mpr (.inl ⟨hp, hc⟩)))
      · exact .inr (.inl (mem_cons_of_mem _ hcomma))
      · exact .inr (.inr (dots_toList.mpr (.inr hdots)))

lemma openBrace_previous (hc : c ≠ '.') :
    OpenBrace seen (some c) w ↔ OpenBrace seen none w := by
  have hdots : ∀ x, ['.', '.'] <:+: c :: x ↔ ['.', '.'] <:+: x := by
    intro x
    cases x with
    | nil =>
      refine iff_of_false not_dots_single ?_
      simp
    | cons d x => rw [dots_cons]; simp [hc]
  simp [OpenBrace, hdots]

lemma bracketClass_nil : ¬ BracketClass [] := by
  rintro ⟨a, x, b, h, -⟩
  simp at h

lemma bracketClass_cons :
    BracketClass (c :: l) ↔ BracketClass l ∨ c = '[' ∧ OpenClass 0 l := by
  constructor
  · rintro ⟨a, x, b, h, hx⟩
    cases a with
    | nil =>
      obtain ⟨rfl, rfl⟩ := cons_eq_cons.mp h
      exact .inr ⟨rfl, x, b, rfl, .inr hx⟩
    | cons d a =>
      obtain ⟨-, rfl⟩ := cons_eq_cons.mp h
      exact .inl ⟨a, x, b, rfl, hx⟩
  · rintro (⟨a, x, b, rfl, hx⟩ | ⟨rfl, x, b, rfl, hx⟩)
    · exact ⟨c :: a, x, b, rfl, hx⟩
    · exact ⟨[], x, b, rfl, hx.resolve_left (by omega)⟩

lemma OpenClass.mono {m n : ℕ} (h : OpenClass m l) (hle : m ≤ n) :
    OpenClass n l := by
  obtain ⟨x, b, rfl, hx⟩ := h
  exact ⟨x, b, rfl, hx.imp_left (by omega)⟩

lemma openClass_nil : ¬ OpenClass n [] := by
  rintro ⟨x, b, h, -⟩
  simp at h

lemma openClass_cons_close :
    OpenClass n (']' :: l) ↔ 0 < n ∨ OpenClass 1 l := by
  constructor
  · rintro ⟨x, b, h, hx⟩
    cases x with
    | nil => exact .inl (hx.resolve_right (by simp))
    | cons d x =>
      obtain ⟨-, rfl⟩ := cons_eq_cons.mp h
      exact .inr ⟨x, b, rfl, .inl (by omega)⟩
  · rintro (hn | ⟨x, b, rfl, -⟩)
    · exact ⟨[], l, rfl, .inl hn⟩
    · exact ⟨']' :: x, b, rfl, .inr (by simp)⟩

lemma openClass_cons (hc : c ≠ ']') :
    OpenClass n (c :: l) ↔ OpenClass (n + 1) l := by
  constructor
  · rintro ⟨x, b, h, hx⟩
    cases x with
    | nil => exact absurd (cons_eq_cons.mp h).1 hc
    | cons d x =>
      obtain ⟨-, rfl⟩ := cons_eq_cons.mp h
      exact ⟨x, b, rfl, .inl (by omega)⟩
  · rintro ⟨x, b, rfl, -⟩
    exact ⟨c :: x, b, rfl, .inr (by simp)⟩

/-! ### One character of the scan -/

def BraceFrom (brace : Option Bool) (previous : Option Char) (word : Text) : Prop :=
  FlatBrace word ∨ ∃ seen, brace = some seen ∧ OpenBrace seen previous word

def ClassFrom (cls : Option ℕ) (text : Text) : Prop :=
  BracketClass text ∨ ∃ n, cls = some n ∧ OpenClass n text

def Found (s : ExpansionScan) (word : Text) : Prop :=
  BraceFrom s.brace s.previous word ∨ ClassFrom s.cls (classText s.brace.isSome s.previous word)

lemma not_found_nil (s : ExpansionScan) : ¬ Found s [] := by
  rintro ((h | ⟨_, -, h⟩) | h | ⟨_, -, h⟩)
  · exact flatBrace_nil h
  · exact openBrace_nil h
  · exact bracketClass_nil h
  · exact openClass_nil h

lemma braceFrom_open {brace : Option Bool} :
    BraceFrom brace previous ('{' :: w) ↔ BraceFrom (some false) (some '{') w := by
  unfold BraceFrom
  rw [flatBrace_cons]
  simp [openBrace_cons_open, openBrace_previous]

lemma braceFrom_cons {brace : Option Bool}
    (hopen : c ≠ '{') (hclose : c ≠ '}' ∨ brace = none) : BraceFrom brace previous (c :: w) ↔
      BraceFrom (brace.map fun seen =>
        seen || decide (c = ',') || decide (c = '.' ∧ previous = some '.')) (some c) w := by
  unfold BraceFrom
  rw [flatBrace_cons]
  simp only [hopen, false_and, or_false]
  cases brace with
  | none => simp
  | some seen => simp [openBrace_cons hopen (hclose.resolve_right (by simp))]

lemma classFrom_bracket :
    ClassFrom none ('[' :: w) ↔ ClassFrom (some 0) w := by
  unfold ClassFrom
  rw [bracketClass_cons]
  simp

lemma classFrom_end :
    ClassFrom (some n) (']' :: w) ↔ 0 < n ∨ ClassFrom (some 1) w := by
  unfold ClassFrom
  rw [bracketClass_cons]
  simp only [Option.some.injEq, exists_eq_left']
  rw [openClass_cons_close]
  simp
  tauto

lemma classFrom_cons (w : Text) {cls : Option ℕ}
    (hopen : c ≠ '[' ∨ cls ≠ none) (hclose : c ≠ ']' ∨ cls = none) :
    ClassFrom cls (c :: w) ↔ ClassFrom (cls.map (· + 1)) w := by
  unfold ClassFrom
  rw [bracketClass_cons]
  cases cls with
  | none => simp [hopen.resolve_right (by simp)]
  | some n =>
    have hc : c ≠ ']' := hclose.resolve_right (by simp)
    simp only [Option.some.injEq, exists_eq_left', Option.map_some, openClass_cons hc]
    constructor
    · rintro ((h | ⟨-, h⟩) | h)
      · exact .inl h
      · exact .inr (h.mono (by omega))
      · exact .inr h
    · tauto

lemma braceFrom_close :
    BraceFrom (some seen) previous ('}' :: w) ↔ seen ∨ BraceFrom none (some '}') w := by
  unfold BraceFrom
  rw [flatBrace_cons]
  simp [openBrace_cons_close, or_comm]

lemma found_step (s : ExpansionScan) (c : Char) (w : Text) :
    Found s (c :: w) ↔
      ∀ s', s.wordChar c = some s' → Found { s' with inWord := true, previous := some c } w := by
  obtain ⟨quote, previous, inWord, parameter, brace, cls, groups, skip⟩ := s
  unfold Found ExpansionScan.wordChar
  rw [classText_cons]
  simp only
  by_cases hopen : c = '{'
  · subst hopen
    simp [braceFrom_open]
  simp only [hopen, if_false]
  by_cases hmark : brace.isSome ∧ (c = ',' ∨ c = '.' ∧ previous = some '.')
  · -- a comma or a second dot in a brace is no member of a class
    obtain ⟨hbrace, hmark⟩ := hmark
    obtain ⟨seen, rfl⟩ := Option.isSome_iff_exists.mp hbrace
    have hclose : c ≠ '}' := by rintro rfl; simp at hmark
    rw [braceFrom_cons hopen (.inl hclose)]
    rcases hmark with rfl | ⟨rfl, rfl⟩ <;> simp
  have hcomma : ¬ (decide (c = ',') && brace.isSome) := by
    simp only [Bool.and_eq_true, decide_eq_true_eq]
    tauto
  have hdots : ¬ (decide (c = '.') && brace.isSome && decide (previous = some '.')) := by
    simp only [Bool.and_eq_true, decide_eq_true_eq]
    tauto
  rw [if_neg hmark, if_neg hcomma, if_neg hdots]
  by_cases hclose : brace.isSome ∧ c = '}'
  · rw [if_pos hclose]
    obtain ⟨hbrace, rfl⟩ := hclose
    obtain ⟨seen, rfl⟩ := Option.isSome_iff_exists.mp hbrace
    rw [braceFrom_close]
    cases seen <;> simp
  have hother : c ≠ '}' ∨ brace = none := by
    by_cases hc : c = '}'
    · exact .inr (by simpa [hc] using hclose)
    · exact .inl hc
  have hsame : (brace.map fun seen =>
      seen || decide (c = ',') || decide (c = '.' ∧ previous = some '.')) = brace := by
    cases brace with
    | none => rfl
    | some seen =>
      have : ¬ (c = ',' ∨ c = '.' ∧ previous = some '.') := by simpa using hmark
      simp only [not_or] at this
      simp [this.1, this.2]
  have hclose' : ¬ (decide (c = '}') && brace.isSome) = true := by
    simp only [Bool.and_eq_true, decide_eq_true_eq]
    tauto
  rw [if_neg hclose, if_neg hclose', braceFrom_cons hopen hother, hsame]
  by_cases hbracket : c = '[' ∧ cls = none
  · obtain ⟨rfl, rfl⟩ := hbracket
    simp [classFrom_bracket]
  rw [if_neg (by simpa using hbracket)]
  by_cases hend : c = ']' ∧ cls ≠ none
  · obtain ⟨rfl, hcls⟩ := hend
    obtain ⟨n, rfl⟩ := Option.ne_none_iff_exists'.mp hcls
    rw [classFrom_end]
    cases n with
    | zero | succ n => simp
  have hmember := classFrom_cons (classText brace.isSome (some c) w)
    (show c ≠ '[' ∨ cls ≠ none by tauto) (show c ≠ ']' ∨ cls = none by tauto)
  have hfirst : ¬ (decide (c = ']') && decide (cls = some 0)) = true := by
    simp only [Bool.and_eq_true, decide_eq_true_eq]
    rintro ⟨rfl, rfl⟩
    exact hend ⟨rfl, by simp⟩
  rw [hmember, if_neg hfirst, if_neg (by simpa [Option.isSome_iff_ne_none] using hend)]
  simp

/-! ### A command -/

structure Bare (s : ExpansionScan) : Prop where
  quote : s.quote = none
  skip : s.skip = 0
  parameter : s.parameter = false
  previous : s.previous ≠ some '$'

lemma bare_wordChar {s s' : ExpansionScan} (hs : Bare s) (h : s.wordChar c = some s')
    (hc : c ≠ '$') : Bare { s' with inWord := true, previous := some c } := by
  have hkeep : s'.quote = s.quote ∧ s'.skip = s.skip ∧ s'.parameter = s.parameter := by
    unfold ExpansionScan.wordChar at h
    grind
  exact ⟨hkeep.1.trans hs.quote, hkeep.2.1.trans hs.skip, hkeep.2.2.trans hs.parameter,
    by simpa using hc⟩

lemma scan_unquoted (hs : Bare s) (c : Char) (rest : Text) :
    s.scan (c :: rest) = (s.scanChar c rest).bind fun s => s.scan rest := by
  rw [ExpansionScan.scan, if_pos hs.skip]

lemma scanChar_bare (hs : Bare s) (hc : isBare c) (rest : Text) : s.scanChar c rest =
      (s.wordChar c).map fun s => { s with inWord := true, previous := some c } := by
  simp only [isBare, Bool.and_eq_true, Bool.not_eq_true', decide_eq_true_eq] at hc
  obtain ⟨⟨⟨⟨⟨hblank, hop⟩, hsingle⟩, hdouble⟩, hback⟩, hdollar⟩ := hc
  have hgroup : c ≠ '(' ∧ c ≠ ')' ∧ c ≠ '|' := by
    refine ⟨?_, ?_, ?_⟩ <;> rintro rfl <;> cases hop
  have hword : s.bareChar c rest = s.wordChar c := by
    simp [ExpansionScan.bareChar, hsingle, hdouble, hgroup, hblank, hop, hs.parameter, hs.previous]
  unfold ExpansionScan.scanChar
  rw [hs.quote]
  simp only [hback, if_false, hword, hblank, hop]
  simp

lemma scanChar_blank (hs : Bare s) (hc : isWhitespace c) (rest : Text) :
    s.scanChar c rest = some { s.reset with previous := some c } := by
  have hne : c ≠ '\\' ∧ c ≠ '\'' ∧ c ≠ '"' ∧ c ≠ '(' ∧ c ≠ ')' ∧ c ≠ '|' := by
    refine ⟨?_, ?_, ?_, ?_, ?_, ?_⟩ <;> rintro rfl <;> cases hc
  unfold ExpansionScan.scanChar ExpansionScan.bareChar
  rw [hs.quote]
  simp [hne, hc, ExpansionScan.reset]

lemma classText_outside (p q : Option Char) (w : Text) :
    classText false p w = classText false q w := by
  cases w with
  | nil => rfl
  | cons c w => rw [classText_cons, classText_cons]; simp

lemma found_reset (s : ExpansionScan) (c : Char) (w : Text) :
    Found { s.reset with previous := some c } w ↔ Noticed w := by
  simp [Found, BraceFrom, ClassFrom, Noticed, ExpansionScan.reset, classText_outside (some c) none]

lemma splitOnP_cons_blank (hc : isWhitespace c) (rest : Text) :
    (c :: rest).splitOnP isWhitespace = [] :: rest.splitOnP isWhitespace := by
  rw [splitOnP_cons_eq_if_modifyHead, if_pos hc]

lemma scan_run (hs : Bare s) {command word : Text}
    {later : List Text} (hchars : ∀ c ∈ command, isWhitespace c = true ∨ isBare c)
    (hwords : command.splitOnP isWhitespace = word :: later) :
    s.scan command = none ↔ Found s word ∨ ∃ w ∈ later, Noticed w := by
  induction command generalizing s word later with
  | nil =>
    obtain ⟨rfl, rfl⟩ := cons_eq_cons.mp ((splitOnP_nil ..).symm.trans hwords)
    simp [ExpansionScan.scan, not_found_nil]
  | cons c rest ih =>
    have hrest := fun d hd => hchars d (mem_cons_of_mem c hd)
    obtain ⟨first, others, hfirst⟩ :=
      exists_cons_of_ne_nil (splitOnP_ne_nil isWhitespace rest)
    rw [scan_unquoted hs]
    by_cases hblank : isWhitespace c
    · rw [splitOnP_cons_blank hblank, hfirst] at hwords
      obtain ⟨rfl, rfl⟩ := cons_eq_cons.mp hwords
      have hdollar : c ≠ '$' := by rintro rfl; cases hblank
      have hreset : Bare { s.reset with previous := some c } :=
        ⟨hs.quote, hs.skip, rfl, by simpa using hdollar⟩
      rw [scanChar_blank hs hblank, Option.bind_some, ih hreset hrest hfirst, found_reset]
      simp [not_found_nil]
    · have hbare := (hchars c mem_cons_self).resolve_left hblank
      have hdollar : c ≠ '$' := by rintro rfl; cases hbare
      rw [splitOnP_cons_eq_if_modifyHead, if_neg hblank, hfirst, modifyHead_cons] at hwords
      obtain ⟨rfl, rfl⟩ := cons_eq_cons.mp hwords
      rw [scanChar_bare hs hbare, found_step]
      cases hstep : s.wordChar c with
      | none => simp
      | some s' =>
        rw [Option.map_some, Option.bind_some, ih (bare_wordChar hs hstep hdollar) hrest hfirst]
        simp

lemma hasUnevaluatedExpansion_iff {command : Text}
    (hchars : ∀ c ∈ command, isWhitespace c = true ∨ isBare c) :
    hasUnevaluatedExpansion command ↔
      ∃ word ∈ command.splitOnP isWhitespace, Noticed word := by
  obtain ⟨word, later, hwords⟩ :=
    exists_cons_of_ne_nil (splitOnP_ne_nil isWhitespace command)
  have hstart : Bare .start := ⟨rfl, rfl, rfl, by simp [ExpansionScan.start]⟩
  have hfound : Found .start word ↔ Noticed word := by
    simp [Found, BraceFrom, ClassFrom, Noticed, ExpansionScan.start]
  unfold hasUnevaluatedExpansion
  rw [Option.isNone_iff_eq_none, scan_run hstart hchars hwords, hfound, hwords]
  simp

/-- A command with a word that stands for several is noticed exactly when one of its words has
a brace around a comma or two dots with no brace in between, or a bracket class. -/
theorem expansion_noticed_iff (command : Text)
    (hchars : ∀ c ∈ command, isWhitespace c = true ∨ isBare c = true) :
    (∀ word ∈ command.splitOnP isWhitespace, Expands word →
      hasUnevaluatedExpansion command = true) ↔
    ∀ word ∈ command.splitOnP isWhitespace, Expands word →
      ∃ other ∈ command.splitOnP isWhitespace, Noticed other := by
  rw [hasUnevaluatedExpansion_iff hchars]

/-- The words of `cat {a,b}`. -/
theorem expansion_noticed_iff_list : hasUnevaluatedExpansion "cat {a,b}".toList = true := by
  refine (expansion_noticed_iff "cat {a,b}".toList
    (all_iff_forall_prop.mp (by decide +kernel))).mpr ?_
    "{a,b}".toList (by decide +kernel) ?_
  · intro _ _ _
    exact ⟨"{a,b}".toList, by decide +kernel, .inl ⟨[], "a,b".toList, [], rfl, by decide +kernel,
      by decide +kernel, .inl (by decide +kernel)⟩⟩
  · intro words hwords
    obtain rfl : ["a".toList, "b".toList] = words :=
      Option.some.inj ((by decide +kernel : some ["a".toList, "b".toList] = _).trans hwords)
    decide

/-- The brace inside `{a,{b}}` clears the flag: two words, and nothing is noticed. -/
theorem nested_brace_not_noticed :
    (∀ c ∈ "cat {a,{b}}".toList, isWhitespace c = true ∨ isBare c = true) ∧
    "{a,{b}}".toList ∈ "cat {a,{b}}".toList.splitOnP isWhitespace ∧ Expands "{a,{b}}".toList ∧
    hasUnevaluatedExpansion "{a,{b}}".toList = false ∧
    hasUnevaluatedExpansion "cat {a,{b}}".toList = false := by
  refine ⟨all_iff_forall_prop.mp (by decide +kernel), by decide +kernel, ?_,
    by decide +kernel, by decide +kernel⟩
  intro words hwords
  obtain rfl : ["a".toList, "{b}".toList] = words :=
    Option.some.inj ((by decide +kernel : some ["a".toList, "{b}".toList] = _).trans hwords)
  decide

end Capture
