/-
Shell words as they are written, and the splitter on them.

A word is a sequence of pieces: quoted, escaped or plain.  The splitter keeps a backslash
before a character that the shell does not treat specially, so what it reads is the word with
some backslashes added.  Such a text splits like the text itself, which carries over to scripts
that are quoted again and again.
-/
import AiMemory.Hooks.Words
import Mathlib.Data.List.Chain

open List

namespace Capture

open Strings (isWhitespace)
open Scan (isEscapable isDoubleEscapable)

/-! ### Written words -/

inductive Piece
  | single (text : Text)
  | double (text : Text)
  | escaped (c : Char)
  | plain (c : Char)
  deriving DecidableEq

def doubleWritten (text : Text) : Text :=
  text.flatMap fun c => if isDoubleEscapable c then ['\\', c] else [c]

namespace Piece

def text : Piece → Text
  | single text => text
  | double text => text
  | escaped c => [c]
  | plain c => [c]

def written : Piece → Text
  | single text => '\'' :: text ++ ['\'']
  | double text => '"' :: doubleWritten text ++ ['"']
  | escaped c => ['\\', c]
  | plain c => [c]

def isQuoted : Piece → Bool
  | single _ => true
  | double _ => true
  | _ => false

end Piece

def shellPlain (c : Char) : Bool :=
  !([' ', '\t', '\n', '\'', '"', '\\', '$'].contains c) && !isOperator c

def Piece.Ok : Piece → Prop
  | .single text => '\'' ∉ text
  | .double _ => True
  | .escaped c => c ≠ '\n'
  | .plain c => shellPlain c = true

def wordText (pieces : List Piece) : Text := pieces.flatMap Piece.text

def wordWritten (pieces : List Piece) : Text := pieces.flatMap Piece.written

structure WellWritten (pieces : List Piece) : Prop where
  ne_nil : pieces ≠ []
  ok : ∀ piece ∈ pieces, piece.Ok

/-- What the splitter reads like the shell: no escaped `$` stands before a quote, and no white
space of another script is left outside quotes. -/
structure Splittable (pieces : List Piece) : Prop where
  dollars : pieces.IsChain fun a b => ¬(a = .escaped '$' ∧ b.isQuoted = true)
  blanks : ∀ c, Piece.plain c ∈ pieces → isWhitespace c = false

def Blanks (s : Text) : Prop := s ≠ [] ∧ ∀ c ∈ s, c = ' ' ∨ c = '\t'

inductive LineOf : List (List Piece) → Text → Prop
  | last (pieces : List Piece) : LineOf [pieces] (wordWritten pieces)
  | more {words : List (List Piece)} {line blanks : Text} (pieces : List Piece)
    (hblanks : Blanks blanks) (h : LineOf words line) :
    LineOf (pieces :: words) (wordWritten pieces ++ blanks ++ line)

/-- A line with a word in it, or one quoted as the script of `bash -c`, any number of times; what
is written up to the word has the property `P`. -/
inductive Nested (P : List Piece → Prop) (word : Text) : ℕ → Text → Prop
  | line {front behind : List (List Piece)} {pieces : List Piece} {line : Text}
    (h : LineOf (front ++ pieces :: behind) line) (hword : wordText pieces = word)
    (hread : ∀ written ∈ front ++ [pieces], P written)
    (hwritten : ∀ written ∈ behind, WellWritten written) : Nested P word 0 line
  | again {n : ℕ} {line : Text} {pieces : List Piece} (h : Nested P word n line)
    (hpieces : wordText pieces = line) (hwritten : P pieces) :
    Nested P word (n + 1) ("bash -c ".toList ++ wordWritten pieces)

/-- `Noise t s`: `t` is `s` with backslashes before some ordinary characters. -/
inductive Noise : Text → Text → Prop
  | nil : Noise [] []
  | same {t s : Text} (c : Char) (h : Noise t s) : Noise (c :: t) (c :: s)
  | extra {t s : Text} {c : Char} (hc : isEscapable c = false) (h : Noise t s) :
    Noise ('\\' :: c :: t) (c :: s)

lemma Noise.refl (s : Text) : Noise s s := by
  induction s with
  | nil => exact .nil
  | cons c s ih => exact .same c ih

variable {t line : Text} {pieces : List Piece}

lemma Noise.append {s t' s' : Text} (h : Noise t s) (h' : Noise t' s') :
    Noise (t ++ t') (s ++ s') := by
  induction h with
  | nil => exact h'
  | same c _ ih => exact .same c ih
  | extra hc _ ih => exact .extra hc ih

lemma Noise.append_inv {a b : Text} (h : Noise t (a ++ b)) :
    ∃ t₁ t₂, t = t₁ ++ t₂ ∧ Noise t₁ a ∧ Noise t₂ b := by
  induction a generalizing t with
  | nil => exact ⟨[], t, rfl, .nil, h⟩
  | cons c a ih =>
    cases h with
    | same _ h =>
      obtain ⟨t₁, t₂, rfl, h₁, h₂⟩ := ih h
      exact ⟨c :: t₁, t₂, rfl, .same c h₁, h₂⟩
    | extra hc h =>
      obtain ⟨t₁, t₂, rfl, h₁, h₂⟩ := ih h
      exact ⟨'\\' :: c :: t₁, t₂, rfl, .extra hc h₁, h₂⟩

lemma Noise.cons_inv {s : Text} {c : Char} (hc : isEscapable c) (h : Noise t (c :: s)) :
    ∃ t', t = c :: t' ∧ Noise t' s := by
  cases h with
  | same _ h => exact ⟨_, rfl, h⟩
  | extra hno _ =>
    rw [hno] at hc
    cases hc

lemma Noise.notMem {s : Text} {c : Char} (h : Noise t s) (hc : c ≠ '\\') (hs : c ∉ s) :
    c ∉ t := by
  induction h with
  | nil => exact hs
  | same d _ ih =>
    obtain ⟨hd, hrest⟩ := ne_and_not_mem_of_not_mem_cons hs
    exact not_mem_cons_of_ne_of_not_mem hd (ih hrest)
  | extra _ _ ih =>
    obtain ⟨hd, hrest⟩ := ne_and_not_mem_of_not_mem_cons hs
    exact not_mem_cons_of_ne_of_not_mem hc (not_mem_cons_of_ne_of_not_mem hd (ih hrest))

lemma Noise.withoutBackslashEscapes {s : Text} (h : Noise t s) (hs : '\\' ∉ s) :
    withoutBackslashEscapes t = s := by
  have hcons : ∀ c t, c ≠ '\\' → Capture.withoutBackslashEscapes (c :: t) =
      c :: Capture.withoutBackslashEscapes t := by
    intro c t hc
    cases t with
    | nil | cons d t => simp [Capture.withoutBackslashEscapes, withoutEscapes, hc]
  induction h with
  | nil => rfl
  | @same t s c _ ih =>
    obtain ⟨hc, hrest⟩ := ne_and_not_mem_of_not_mem_cons hs
    rw [hcons c t hc.symm, ih hrest]
  | @extra t s c _ _ ih =>
    obtain ⟨-, hrest⟩ := ne_and_not_mem_of_not_mem_cons hs
    have hstep : Capture.withoutBackslashEscapes ('\\' :: c :: t) =
        c :: Capture.withoutBackslashEscapes t := by
      simp [Capture.withoutBackslashEscapes, withoutEscapes]
    rw [hstep, ih hrest]

lemma Noise.eq_of_notMem {s : Text} (h : Noise t s) (ht : '\\' ∉ t) : t = s := by
  induction h with
  | nil => rfl
  | same c _ ih => rw [ih (ne_and_not_mem_of_not_mem_cons ht).2]
  | extra _ _ _ => exact absurd mem_cons_self ht

/-! ### One character -/

def Scan.grow (s : Scan) (text : Text) : Scan := { s.push text with inWord := true }

def Scan.opened (s : Scan) (quote : Quote) : Scan := { s with quote := some quote, inWord := true }

section
variable {s : Scan} {c : Char} {rest : Text}

lemma scan_cons (h : s.skip = 0) :
    scan false false s (c :: rest) = scan false false (scanChar false false s c rest) rest := by
  rw [scan, if_pos h]

lemma scan_skip {n : ℕ} (h : s.skip = n + 1) :
    scan false false s (c :: rest) = scan false false { s with skip := n } rest := by
  rw [scan, if_neg (by omega), h]
  rfl

structure Ready (s : Scan) : Prop where
  quote : s.quote = none
  skip : s.skip = 0

lemma scan_bare (h : Ready s) :
    scan false false s (c :: rest) = scan false false (s.bareChar false false c rest) rest := by
  rw [scan_cons h.skip, scanChar, h.quote]

lemma ordinary_iff : isEscapable c = false ↔ isWhitespace c = false ∧ isOperator c = false ∧
    c ≠ '\'' ∧ c ≠ '"' ∧ c ≠ '\\' := by
  simp [isEscapable, and_assoc]

lemma scan_plain (h : Ready s) (hc : isEscapable c = false)
    (hdollar : c = '$' → rest.head? ≠ some '\'' ∧ rest.head? ≠ some '"') :
    scan false false s (c :: rest) = scan false false (s.plainChar c) rest := by
  obtain ⟨hblank, hoperator, hsingle, hdouble, hback⟩ := ordinary_iff.mp hc
  have hansi : (decide (c = '$') && decide (rest.head? = some '\'')) = false := by
    rw [Bool.and_eq_false_iff, decide_eq_false_iff_not, decide_eq_false_iff_not]
    exact or_iff_not_imp_left.mpr fun heq => (hdollar (not_not.mp heq)).1
  have hlocale : (decide (c = '$') && decide (rest.head? = some '"')) = false := by
    rw [Bool.and_eq_false_iff, decide_eq_false_iff_not, decide_eq_false_iff_not]
    exact or_iff_not_imp_left.mpr fun heq => (hdollar (not_not.mp heq)).2
  rw [scan_bare h, Scan.bareChar, if_neg hback, if_neg hsingle, if_neg hdouble, hansi, hlocale]
  simp [hblank, hoperator]

lemma scan_backslash_ordinary (h : Ready s) (hc : isEscapable c = false) :
    scan false false s ('\\' :: c :: rest) = scan false false (s.plainChar '\\') (c :: rest) := by
  have hnewline : c ≠ '\n' := by
    rintro rfl
    cases hc
  rw [scan_bare h, Scan.bareChar, if_pos rfl, Scan.bareBackslash]
  simp [hnewline, hc]

lemma scan_backslash_escapable (h : Ready s) (hc : isEscapable c) (hnewline : c ≠ '\n') :
    scan false false s ('\\' :: c :: rest) = scan false false (s.grow [c]) rest := by
  rw [scan_bare h, Scan.bareChar, if_pos rfl, Scan.bareBackslash]
  simp only [Bool.not_false, Bool.true_and, hnewline, decide_false, Bool.false_eq_true, if_false, hc,
    if_true]
  rw [scan_skip rfl]
  have hskip := h.skip
  obtain ⟨words, word, marks, inWord, quote, skip⟩ := s
  obtain rfl : skip = 0 := hskip
  rfl

end

/-! ### Quotes -/

theorem scan_single {s : Scan} {text rest : Text} (hquote : s.quote = some .single)
    (hskip : s.skip = 0) (htext : '\'' ∉ text) :
    scan false false s (text ++ '\'' :: rest) =
      scan false false { s with word := s.word ++ text, quote := none } rest := by
  induction text generalizing s with
  | nil =>
    rw [nil_append, scan_cons hskip, scanChar, hquote]
    simp
  | cons c text ih =>
    obtain ⟨hc, hrest⟩ := ne_and_not_mem_of_not_mem_cons htext
    have hpush : (s.push [c]).quote = some .single := hquote
    rw [cons_append, scan_cons hskip, scanChar, hquote]
    simp only [if_neg hc.symm]
    rw [ih hpush hskip hrest]
    simp [Scan.push]

section
variable {s : Scan} {c : Char} {rest : Text}

structure InDouble (s : Scan) : Prop where
  quote : s.quote = some .double
  skip : s.skip = 0

lemma InDouble.push (h : InDouble s) (text : Text) : InDouble (s.push text) :=
  ⟨h.quote, h.skip⟩

lemma scan_double_close (h : InDouble s) :
    scan false false s ('"' :: rest) = scan false false { s with quote := none } rest := by
  rw [scan_cons h.skip, scanChar, h.quote]
  simp [Scan.doubleChar]

lemma scan_double_char (h : InDouble s) (hclose : c ≠ '"') (hback : c ≠ '\\') :
    scan false false s (c :: rest) = scan false false (s.push [c]) rest := by
  rw [scan_cons h.skip, scanChar, h.quote]
  simp [Scan.doubleChar, hclose, hback]

lemma scan_double_escape (h : InDouble s) (hc : isDoubleEscapable c) :
    scan false false s ('\\' :: c :: rest) = scan false false (s.push [c]) rest := by
  have hnewline : c ≠ '\n' := by
    rintro rfl
    cases hc
  rw [scan_cons h.skip, scanChar, h.quote]
  simp only [Scan.doubleChar, hnewline, hc, decide_true, Bool.not_false, Bool.and_self, if_true,
    if_false, Char.reduceEq]
  rw [scan_skip rfl]
  have hskip := h.skip
  obtain ⟨words, word, marks, inWord, quote, skip⟩ := s
  obtain rfl : skip = 0 := hskip
  rfl

lemma scan_double_kept (h : InDouble s) (hc : isDoubleEscapable c = false) (hnewline : c ≠ '\n') :
    scan false false s ('\\' :: c :: rest) = scan false false (s.push ['\\', c]) rest := by
  have hclose : c ≠ '"' := by
    rintro rfl
    cases hc
  have hback : c ≠ '\\' := by
    rintro rfl
    cases hc
  have hfirst : scan false false s ('\\' :: c :: rest) =
      scan false false (s.push ['\\']) (c :: rest) := by
    rw [scan_cons h.skip, scanChar, h.quote]
    simp [Scan.doubleChar, hnewline, hc]
  rw [hfirst, scan_double_char (h.push _) hclose hback]
  simp [Scan.push]

end

lemma scan_double {s : Scan} {text rest : Text} (h : InDouble s)
    (ht : Noise t (doubleWritten text)) :
    ∃ word, Noise word text ∧ scan false false s (t ++ '"' :: rest) =
      scan false false { s with word := s.word ++ word, quote := none } rest := by
  induction text generalizing s t with
  | nil =>
    cases ht
    refine ⟨[], .nil, ?_⟩
    rw [nil_append, scan_double_close h, append_nil]
  | cons c text ih =>
    -- what the character adds to the word, and what is left to read
    obtain ⟨added, t', hadded, ht', hscan⟩ : ∃ added t', Noise added [c] ∧
        Noise t' (doubleWritten text) ∧ scan false false s (t ++ '"' :: rest) =
          scan false false (s.push added) (t' ++ '"' :: rest) := by
      by_cases hc : isDoubleEscapable c
      · have hwritten : doubleWritten (c :: text) = '\\' :: c :: doubleWritten text := by
          simp [doubleWritten, hc]
        rw [hwritten] at ht
        obtain ⟨t₁, rfl, ht₁⟩ := ht.cons_inv rfl
        cases ht₁ with
        | @same t' _ _ ht' =>
          exact ⟨[c], t', .refl _, ht', scan_double_escape h hc⟩
        | @extra t' _ _ hordinary ht' =>
          -- only `$` has a backslash added here: the first two backslashes are one
          have hclose : c ≠ '"' := (ordinary_iff.mp hordinary).2.2.2.1
          have hback : c ≠ '\\' := (ordinary_iff.mp hordinary).2.2.2.2
          refine ⟨['\\', c], t', .extra hordinary .nil, ht', ?_⟩
          rw [cons_append, cons_append, cons_append, scan_double_escape h rfl,
            scan_double_char (h.push _) hclose hback]
          simp [Scan.push]
      · rw [Bool.not_eq_true] at hc
        have hwritten : doubleWritten (c :: text) = c :: doubleWritten text := by
          simp [doubleWritten, hc]
        rw [hwritten] at ht
        cases ht with
        | @same t' _ _ ht' =>
          have hclose : c ≠ '"' := by
            rintro rfl
            cases hc
          have hback : c ≠ '\\' := by
            rintro rfl
            cases hc
          exact ⟨[c], t', .refl _, ht', scan_double_char h hclose hback⟩
        | @extra t' _ _ hordinary ht' =>
          have hnewline : c ≠ '\n' := by
            rintro rfl
            cases hordinary
          exact ⟨['\\', c], t', .extra hordinary .nil, ht', scan_double_kept h hc hnewline⟩
    obtain ⟨word, hword, hrest⟩ := ih (h.push added) ht'
    refine ⟨added ++ word, hadded.append hword, ?_⟩
    rw [hscan, hrest]
    simp [Scan.push]

/-- The scan `s'` has read `word` more than `s`. -/
structure Grown (s s' : Scan) (word : Text) : Prop where
  words : s'.words = s.words
  word : s'.word = s.word ++ word
  inWord : s'.inWord = true
  ready : Ready s'

lemma scan_piece {s : Scan} {piece : Piece} {rest : Text} (h : Ready s) (hok : piece.Ok)
    (hblank : ∀ c, piece = .plain c → isWhitespace c = false)
    (hdollar : piece = .escaped '$' → rest.head? ≠ some '\'' ∧ rest.head? ≠ some '"')
    (ht : Noise t piece.written) : ∃ s' word, Noise word piece.text ∧ Grown s s' word ∧
      scan false false s (t ++ rest) = scan false false s' rest := by
  have hquote := h.quote
  have hskip := h.skip
  cases piece with
  | single text =>
    obtain ⟨t₁, rfl, ht₁⟩ := ht.cons_inv rfl
    obtain ⟨word, close, rfl, hword, hclose⟩ := ht₁.append_inv
    obtain ⟨t₂, rfl, ht₂⟩ := hclose.cons_inv rfl
    cases ht₂
    refine ⟨{ s with word := s.word ++ word, quote := none, inWord := true }, word, hword,
      ⟨rfl, rfl, rfl, rfl, hskip⟩, ?_⟩
    have hopen : ∀ tail, scan false false s ('\'' :: tail) =
        scan false false (s.opened .single) tail := by
      intro tail
      rw [scan_bare h]
      simp [Scan.bareChar, Scan.opened]
    have hopened : (s.opened .single).quote = some .single := rfl
    rw [cons_append, hopen, append_assoc, singleton_append,
      scan_single hopened hskip (hword.notMem (by decide) hok)]
    rfl
  | double text =>
    obtain ⟨t₁, rfl, ht₁⟩ := ht.cons_inv rfl
    obtain ⟨inner, close, rfl, hinner, hclose⟩ := ht₁.append_inv
    obtain ⟨t₂, rfl, ht₂⟩ := hclose.cons_inv rfl
    cases ht₂
    have hopen : ∀ tail, scan false false s ('"' :: tail) =
        scan false false (s.opened .double) tail := by
      intro tail
      rw [scan_bare h]
      simp [Scan.bareChar, Scan.opened]
    have hopened : InDouble (s.opened .double) := ⟨rfl, hskip⟩
    obtain ⟨word, hword, hscan⟩ := scan_double hopened hinner
    refine ⟨{ s with word := s.word ++ word, quote := none, inWord := true }, word, hword,
      ⟨rfl, rfl, rfl, rfl, hskip⟩, ?_⟩
    rw [cons_append, hopen, append_assoc, singleton_append, hscan]
    rfl
  | escaped c =>
    obtain ⟨t₁, rfl, ht₁⟩ := ht.cons_inv rfl
    by_cases hc : isEscapable c
    · obtain ⟨t₂, rfl, ht₂⟩ := ht₁.cons_inv hc
      cases ht₂
      refine ⟨s.grow [c], [c], .refl _, ⟨rfl, rfl, rfl, hquote, hskip⟩, ?_⟩
      exact scan_backslash_escapable h hc hok
    · rw [Bool.not_eq_true] at hc
      have hsafe : c = '$' → rest.head? ≠ some '\'' ∧ rest.head? ≠ some '"' := by
        rintro rfl
        exact hdollar rfl
      cases ht₁ with
      | same _ hnil =>
        cases hnil
        refine ⟨(s.plainChar '\\').plainChar c, ['\\', c], .extra hc .nil,
          ⟨rfl, by simp [Scan.plainChar], rfl, rfl, rfl⟩, ?_⟩
        rw [cons_append, cons_append, nil_append, scan_backslash_ordinary h hc,
          scan_plain ⟨rfl, rfl⟩ hc hsafe]
      | extra _ hnil =>
        cases hnil
        refine ⟨(s.grow ['\\']).plainChar c, ['\\', c], .extra hc .nil,
          ⟨rfl, by simp [Scan.plainChar, Scan.grow, Scan.push], rfl, rfl, rfl⟩, ?_⟩
        have hready : Ready (s.grow ['\\']) := ⟨hquote, hskip⟩
        rw [cons_append, cons_append, cons_append, nil_append,
          scan_backslash_escapable h rfl (by decide), scan_plain hready hc hsafe]
  | plain c =>
    have hc : isEscapable c = false := by
      have hplain : shellPlain c := hok
      have hwhite := hblank c rfl
      simp only [shellPlain, contains_cons, contains_nil, Bool.or_false, Bool.and_eq_true,
        Bool.not_eq_true', Bool.or_eq_false_iff, beq_eq_false_iff_ne] at hplain
      exact ordinary_iff.mpr ⟨hwhite, hplain.2, hplain.1.2.2.2.1, hplain.1.2.2.2.2.1,
        hplain.1.2.2.2.2.2.1⟩
    have hdollar : c ≠ '$' := by
      have hplain : shellPlain c := hok
      rintro rfl
      cases hplain
    cases ht with
    | same _ hnil =>
      cases hnil
      refine ⟨s.plainChar c, [c], .refl _, ⟨rfl, rfl, rfl, rfl, rfl⟩, ?_⟩
      exact scan_plain h hc fun heq => absurd heq hdollar
    | extra _ hnil =>
      cases hnil
      refine ⟨(s.plainChar '\\').plainChar c, ['\\', c], .extra hc .nil,
        ⟨rfl, by simp [Scan.plainChar], rfl, rfl, rfl⟩, ?_⟩
      rw [cons_append, cons_append, nil_append, scan_backslash_ordinary h hc,
        scan_plain ⟨rfl, rfl⟩ hc fun heq => absurd heq hdollar]

lemma Noise.head_unquoted {rest : Text} {piece : Piece} (hok : piece.Ok)
    (hquoted : piece.isQuoted = false) (h : Noise t (piece.written ++ rest)) :
    t.head? ≠ some '\'' ∧ t.head? ≠ some '"' := by
  cases piece with
  | single _ | double _ => cases hquoted
  | escaped c =>
    obtain ⟨t', rfl, -⟩ := h.cons_inv rfl
    exact ⟨by simp, by simp⟩
  | plain c =>
    have hsingle : c ≠ '\'' := by
      rintro rfl
      cases hok
    have hdouble : c ≠ '"' := by
      rintro rfl
      cases hok
    cases h with
    | same _ _ => exact ⟨by simp [hsingle], by simp [hdouble]⟩
    | extra _ _ => exact ⟨by simp, by simp⟩

lemma scan_word {s : Scan} {rest : Text} (h : Ready s) (hwell : WellWritten pieces)
    (hsplit : Splittable pieces) (hrest : rest.head? ≠ some '\'' ∧ rest.head? ≠ some '"')
    (ht : Noise t (wordWritten pieces)) :
    ∃ s' word, Noise word (wordText pieces) ∧ Grown s s' word ∧
      scan false false s (t ++ rest) = scan false false s' rest := by
  obtain ⟨hne, hok⟩ := hwell
  induction pieces generalizing s t with
  | nil => exact absurd rfl hne
  | cons piece pieces ih =>
    obtain ⟨hpiece, hpieces⟩ := forall_mem_cons.mp hok
    have hwritten : wordWritten (piece :: pieces) = piece.written ++ wordWritten pieces := rfl
    have htext : wordText (piece :: pieces) = piece.text ++ wordText pieces := rfl
    rw [hwritten] at ht
    obtain ⟨t₁, t₂, rfl, ht₁, ht₂⟩ := ht.append_inv
    have hblank : ∀ c, piece = .plain c → isWhitespace c = false := by
      rintro c rfl
      exact hsplit.blanks c mem_cons_self
    cases hcase : pieces with
    | nil =>
      subst hcase
      cases ht₂
      obtain ⟨s', word, hword, hgrown, hscan⟩ := scan_piece h hpiece hblank (fun _ => hrest) ht₁
      refine ⟨s', word, ?_, hgrown, ?_⟩
      · rw [htext]
        simpa [wordText] using hword
      · rwa [append_nil]
    | cons next others =>
      rw [← hcase]
      have hdollar : piece = .escaped '$' →
          (t₂ ++ rest).head? ≠ some '\'' ∧ (t₂ ++ rest).head? ≠ some '"' := by
        intro heq
        have hquoted : next.isQuoted = false := by
          have hchain := hsplit.dollars
          rw [hcase, isChain_cons_cons] at hchain
          cases hq : next.isQuoted with
          | false => rfl
          | true => exact absurd ⟨heq, hq⟩ hchain.1
        have hnext : next.Ok := hpieces next (hcase ▸ mem_cons_self)
        have ht₂' : Noise t₂ (next.written ++ wordWritten others) := by
          rw [hcase] at ht₂
          exact ht₂
        have hhead := ht₂'.head_unquoted hnext hquoted
        have hne : t₂ ≠ [] := by
          rintro rfl
          cases next <;> cases ht₂'
        rwa [head?_append_of_ne_nil t₂ hne]
      obtain ⟨s₁, first, hfirst, hgrown₁, hscan₁⟩ := scan_piece h hpiece hblank hdollar ht₁
      have hsplit' : Splittable pieces :=
        ⟨hsplit.dollars.tail, fun c hc => hsplit.blanks c (mem_cons_of_mem _ hc)⟩
      obtain ⟨s₂, more, hmore, hgrown₂, hscan₂⟩ := ih hgrown₁.ready hsplit' ht₂ (by simp [hcase]) hpieces
      refine ⟨s₂, first ++ more, hfirst.append hmore, ?_, ?_⟩
      · refine ⟨hgrown₂.words.trans hgrown₁.words, ?_, hgrown₂.inWord, hgrown₂.ready⟩
        rw [hgrown₂.word, hgrown₁.word, append_assoc]
      · rw [append_assoc, hscan₁, hscan₂]

/-! ### Lines -/

structure Between (s : Scan) : Prop where
  word : s.word = []
  inWord : s.inWord = false
  ready : Ready s

lemma scan_blank {s : Scan} {c : Char} {rest : Text} (h : Ready s) (hc : c = ' ' ∨ c = '\t') :
    scan false false s (c :: rest) = scan false false s.flush rest := by
  rw [scan_bare h]
  rcases hc with rfl | rfl <;> rfl

lemma between_flush {s : Scan} (h : Ready s) (hword : s.inWord) :
    Between s.flush ∧ s.flush.words = s.words ++ [(s.word, s.marks)] := by
  rw [Scan.flush, if_pos hword]
  exact ⟨⟨rfl, rfl, h.quote, h.skip⟩, rfl⟩

lemma scan_blanks {s : Scan} {blanks rest : Text} (h : Ready s) (hword : s.inWord)
    (hblanks : Blanks blanks) :
    scan false false s (blanks ++ rest) = scan false false s.flush rest := by
  have hmore : ∀ (s : Scan), Between s → ∀ blanks : Text, (∀ c ∈ blanks, c = ' ' ∨ c = '\t') →
      scan false false s (blanks ++ rest) = scan false false s rest := by
    intro s hs blanks hall
    have hflush : s.flush = s := by
      rw [Scan.flush, hs.inWord]
      rfl
    induction blanks with
    | nil => rfl
    | cons c blanks ih =>
      obtain ⟨hc, hrest⟩ := forall_mem_cons.mp hall
      rw [cons_append, scan_blank hs.ready hc, hflush, ih hrest]
  obtain ⟨hne, hall⟩ := hblanks
  cases blanks with
  | nil => exact absurd rfl hne
  | cons c blanks =>
    obtain ⟨hc, hrest⟩ := forall_mem_cons.mp hall
    rw [cons_append, scan_blank h hc, hmore _ (between_flush h hword).1 _ hrest]

lemma Noise.blanks {blanks rest : Text} (hblanks : ∀ c ∈ blanks, c = ' ' ∨ c = '\t')
    (h : Noise t (blanks ++ rest)) : ∃ t', t = blanks ++ t' ∧ Noise t' rest := by
  induction blanks generalizing t with
  | nil => exact ⟨t, rfl, h⟩
  | cons c blanks ih =>
    obtain ⟨hc, hall⟩ := forall_mem_cons.mp hblanks
    have hescapable : isEscapable c := by
      rcases hc with rfl | rfl <;> rfl
    obtain ⟨t₁, rfl, h₁⟩ := h.cons_inv hescapable
    obtain ⟨t', rfl, h'⟩ := ih hall h₁
    exact ⟨t', rfl, h'⟩

lemma scan_last {s : Scan} (hs : Between s) (hwell : WellWritten pieces ∧ Splittable pieces)
    (ht : Noise t (wordWritten pieces)) :
    ∃ token, (scan false false s t).flush.words = s.words ++ [token] ∧
      Noise token.1 (wordText pieces) := by
  obtain ⟨s', word, hnoise, hgrown, hscan⟩ := scan_word hs.ready hwell.1 hwell.2
    (by decide : [].head? ≠ some '\'' ∧ [].head? ≠ some '"') ht
  rw [append_nil] at hscan
  refine ⟨(s'.word, s'.marks), ?_, ?_⟩
  · rw [hscan, scan, (between_flush hgrown.ready hgrown.inWord).2, hgrown.words]
  · rw [hgrown.word, hs.word]
    exact hnoise

lemma scan_more {s : Scan} {blanks : Text} (hs : Between s)
    (hwell : WellWritten pieces ∧ Splittable pieces) (hblanks : Blanks blanks)
    (ht : Noise t (wordWritten pieces ++ blanks ++ line)) :
    ∃ s' t' token, Between s' ∧ Noise t' line ∧ scan false false s t = scan false false s' t' ∧
      s'.words = s.words ++ [token] ∧ Noise token.1 (wordText pieces) := by
  rw [append_assoc] at ht
  obtain ⟨t₁, t₂, rfl, ht₁, ht₂⟩ := ht.append_inv
  obtain ⟨t₃, rfl, ht₃⟩ := ht₂.blanks hblanks.2
  have hhead : (blanks ++ t₃).head? ≠ some '\'' ∧ (blanks ++ t₃).head? ≠ some '"' := by
    cases hcase : blanks with
    | nil => exact absurd hcase hblanks.1
    | cons c _ =>
      have hc := hblanks.2 c (hcase ▸ mem_cons_self)
      rcases hc with rfl | rfl <;> exact ⟨by simp, by simp⟩
  obtain ⟨s', word, hnoise, hgrown, hscan⟩ := scan_word hs.ready hwell.1 hwell.2 hhead ht₁
  obtain ⟨hbetween, hwords⟩ := between_flush hgrown.ready hgrown.inWord
  refine ⟨s'.flush, t₃, (s'.word, s'.marks), hbetween, ht₃, ?_, ?_, ?_⟩
  · rw [hscan, scan_blanks hgrown.ready hgrown.inWord hblanks]
  · rw [hwords, hgrown.words]
  · rw [hgrown.word, hs.word]
    exact hnoise

lemma scan_line {s : Scan} {written : List (List Piece)} (hline : LineOf written line)
    (hs : Between s) (hwell : ∀ pieces ∈ written, WellWritten pieces ∧ Splittable pieces)
    (ht : Noise t line) : ∃ tokens, (scan false false s t).flush.words = s.words ++ tokens ∧
      List.Forall₂ Noise (tokens.map Prod.fst) (written.map wordText) := by
  induction hline generalizing s t with
  | last pieces =>
    obtain ⟨token, hwords, hnoise⟩ := scan_last hs (hwell pieces (mem_singleton.mpr rfl)) ht
    exact ⟨[token], hwords, .cons hnoise .nil⟩
  | more pieces hblanks _ ih =>
    obtain ⟨hfirst, hothers⟩ := forall_mem_cons.mp hwell
    obtain ⟨s', t', token, hs', ht', hscan, hwords, hnoise⟩ := scan_more hs hfirst hblanks ht
    obtain ⟨tokens, htokens, hall⟩ := ih hs' hothers ht'
    refine ⟨token :: tokens, ?_, .cons hnoise hall⟩
    rw [hscan, htokens, hwords, append_assoc]
    rfl

lemma flush_words (s : Scan) : s.words <+: s.flush.words := by
  unfold Scan.flush
  split
  · exact prefix_append ..
  · exact prefix_refl _

/-- No word that was read is lost later on. -/
theorem scanChar_words (expand literal : Bool) (s : Scan) (c : Char) (ahead : Text) :
    s.words <+: (scanChar expand literal s c ahead).words := by
  have hbackslash : s.words <+: (s.bareBackslash literal ahead).words := by
    unfold Scan.bareBackslash
    repeat' split
    all_goals exact prefix_refl _
  have hansi : s.words <+: (s.ansiBackslash expand ahead).words := by
    unfold Scan.ansiBackslash
    repeat' split
    all_goals exact prefix_refl _
  unfold scanChar
  split
  · unfold Scan.bareChar
    dsimp only
    repeat' split
    all_goals first | exact prefix_refl _ | exact flush_words s | exact hbackslash
  · split <;> exact prefix_refl _
  · unfold Scan.doubleChar
    repeat' split
    all_goals exact prefix_refl _
  · repeat' split
    all_goals first | exact prefix_refl _ | exact hansi

lemma scan_words (expand literal : Bool) (s : Scan) (t : Text) :
    s.words <+: (scan expand literal s t).words := by
  induction t generalizing s with
  | nil => exact prefix_refl _
  | cons c t ih =>
    rw [scan]
    refine .trans ?_ (ih _)
    split
    · exact scanChar_words ..
    · exact prefix_refl _

/-- A word is read as it is written, whatever comes behind it. -/
theorem scan_named {s : Scan} {front behind : List (List Piece)}
    (hline : LineOf (front ++ pieces :: behind) line) (hs : Between s)
    (hread : ∀ written ∈ front ++ [pieces], WellWritten written ∧ Splittable written)
    (ht : Noise t line) :
    ∃ token ∈ (scan false false s t).flush.words, Noise token.1 (wordText pieces) := by
  induction front generalizing s line t with
  | nil =>
    have hpieces := hread pieces (mem_singleton.mpr rfl)
    cases hline with
    | last =>
      obtain ⟨token, hwords, hnoise⟩ := scan_last hs hpieces ht
      exact ⟨token, by rw [hwords]; exact mem_append_right _ (mem_singleton.mpr rfl), hnoise⟩
    | more _ hblanks _ =>
      obtain ⟨s', t', token, -, -, hscan, hwords, hnoise⟩ := scan_more hs hpieces hblanks ht
      have hkept := (scan_words false false s' t').trans (flush_words _)
      refine ⟨token, ?_, hnoise⟩
      rw [hscan]
      exact hkept.subset (by rw [hwords]; exact mem_append_right _ (mem_singleton.mpr rfl))
  | cons first front ih =>
    obtain ⟨hfirst, hothers⟩ := forall_mem_cons.mp hread
    obtain ⟨rest, hrest⟩ : ∃ rest, front ++ pieces :: behind = rest := ⟨_, rfl⟩
    rw [cons_append, hrest] at hline
    cases hline with
    | last => simp at hrest
    | more _ hblanks hline =>
      subst hrest
      obtain ⟨s', t', token, hs', ht', hscan, -, -⟩ := scan_more hs hfirst hblanks ht
      rw [hscan]
      exact ih hline hs' hothers ht'

/-- The words of a line. -/
theorem splitWords_line {written : List (List Piece)} (hline : LineOf written line)
    (hwell : ∀ pieces ∈ written, WellWritten pieces ∧ Splittable pieces) (ht : Noise t line) :
    List.Forall₂ Noise ((splitWords t false).map Prod.fst) (written.map wordText) := by
  obtain ⟨tokens, htokens, hall⟩ := scan_line hline (⟨rfl, rfl, rfl, rfl⟩ : Between .start) hwell ht
  rw [splitWords, tokenize, htokens]
  exact hall

lemma splitWords_named {front behind : List (List Piece)}
    (hline : LineOf (front ++ pieces :: behind) line)
    (hread : ∀ written ∈ front ++ [pieces], WellWritten written ∧ Splittable written)
    (ht : Noise t line) :
    ∃ token ∈ (splitWords t false).map Prod.fst, Noise token (wordText pieces) := by
  obtain ⟨token, hmem, hnoise⟩ := scan_named hline (⟨rfl, rfl, rfl, rfl⟩ : Between .start) hread ht
  exact ⟨token.1, mem_map_of_mem hmem, hnoise⟩

lemma plain_wellWritten {text : Text} (hne : text ≠ [])
    (h : ∀ c ∈ text, shellPlain c = true ∧ isWhitespace c = false) :
    WellWritten (text.map .plain) ∧ Splittable (text.map .plain) := by
  refine ⟨⟨by simpa using hne, ?_⟩, ?_, ?_⟩
  · intro piece hpiece
    obtain ⟨c, hc, rfl⟩ := mem_map.mp hpiece
    exact (h c hc).1
  · rw [isChain_map]
    refine isChain_iff_getElem.mpr fun i hi => ?_
    rintro ⟨heq, -⟩
    cases heq
  · intro c hc
    obtain ⟨d, hd, heq⟩ := mem_map.mp hc
    obtain rfl := Piece.plain.inj heq
    exact (h d hd).2

def bashWord : List Piece := "bash".toList.map .plain

def scriptFlag : List Piece := "-c".toList.map .plain

lemma lineOf_script (pieces : List Piece) :
    LineOf [bashWord, scriptFlag, pieces] ("bash -c ".toList ++ wordWritten pieces) := by
  have hblank : Blanks [' '] := ⟨by decide, fun c hc => .inl (mem_singleton.mp hc)⟩
  have hline := LineOf.more bashWord hblank (.more scriptFlag hblank (.last pieces))
  have hlead : wordWritten bashWord ++ [' '] ++ (wordWritten scriptFlag ++ [' ']) =
      "bash -c ".toList := by decide
  rwa [← append_assoc, hlead] at hline

lemma splitWords_script (hwell : WellWritten pieces) (hsplit : Splittable pieces)
    (ht : Noise t ("bash -c ".toList ++ wordWritten pieces)) :
    ∃ bash flag script, (splitWords t false).map Prod.fst = [bash, flag, script] ∧
      Noise script (wordText pieces) := by
  have hplain : ∀ text ∈ ["bash".toList, "-c".toList], text ≠ [] ∧
      (text.all fun c => shellPlain c && !isWhitespace c) := by decide
  have hword : ∀ text ∈ ["bash".toList, "-c".toList],
      WellWritten (text.map .plain) ∧ Splittable (text.map .plain) := by
    intro text htext
    refine plain_wellWritten (hplain text htext).1 fun c hc => ?_
    simpa using all_eq_true.mp (hplain text htext).2 c hc
  have hall : ∀ written ∈ [bashWord, scriptFlag, pieces],
      WellWritten written ∧ Splittable written := by
    refine forall_mem_cons.mpr ⟨hword _ (by decide), forall_mem_cons.mpr
      ⟨hword _ (by decide), forall_mem_singleton.mpr ⟨hwell, hsplit⟩⟩⟩
  have htokens := splitWords_line (lineOf_script pieces) hall ht
  generalize (splitWords t false).map Prod.fst = texts at htokens
  cases htokens with
  | cons _ htokens =>
    cases htokens with
    | cons _ htokens =>
      cases htokens with
      | cons hscript hnil =>
        cases hnil
        exact ⟨_, _, _, rfl, hscript⟩

end Capture
