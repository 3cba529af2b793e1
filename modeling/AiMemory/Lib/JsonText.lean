/-
JSON texts by their grammar.

A text is a row of lexemes: white space, structural characters, literal names, numbers and
strings. An escape in a string names any UTF-16 code unit, half a surrogate pair as well.
-/
import Mathlib.Data.List.Basic
import AiMemory.Lib.Text

open List

namespace JsonText

/-! ### Strings -/

def hexValue (c : Char) : Option ℕ :=
  if '0' ≤ c ∧ c ≤ '9' then some (c.toNat - 48)
  else if 'a' ≤ c ∧ c ≤ 'f' then some (c.toNat - 87)
  else if 'A' ≤ c ∧ c ≤ 'F' then some (c.toNat - 55)
  else none

structure HexDigit where
  char : Char
  value : ℕ
  hex : hexValue char = some value

inductive StringChar
  | plain (c : Char) (h : c ≠ '"' ∧ c ≠ '\\' ∧ 0x20 ≤ c.toNat)
  | escape (c : Char) (h : c ∈ ['"', '\\', '/', 'b', 'f', 'n', 'r', 't'])
  | unit (first second third fourth : HexDigit)

namespace StringChar

def render : StringChar → Text
  | plain c _ => [c]
  | escape c _ => ['\\', c]
  | unit first second third fourth =>
    ['\\', 'u', first.char, second.char, third.char, fourth.char]

def codeUnit : StringChar → Option ℕ
  | unit first second third fourth =>
    some (16 * (16 * (16 * first.value + second.value) + third.value) + fourth.value)
  | _ => none

def isHigh (c : StringChar) : Bool := c.codeUnit.any fun u => 0xD800 ≤ u && u ≤ 0xDBFF

def isLow (c : StringChar) : Bool := c.codeUnit.any fun u => 0xDC00 ≤ u && u ≤ 0xDFFF

end StringChar

def unpaired : List StringChar → List Bool
  | [] => []
  | [c] => [c.isHigh || c.isLow]
  | c :: d :: rest =>
    if c.isHigh && d.isLow then false :: false :: unpaired rest
    else (c.isHigh || c.isLow) :: unpaired (d :: rest)

lemma unpaired_cons {c : StringChar} (h : c.isHigh = false) (rest : List StringChar) :
    unpaired (c :: rest) = c.isLow :: unpaired rest := by
  cases rest with
  | nil => simp only [unpaired, h, Bool.false_or]
  | cons d rest => rw [unpaired, h, Bool.false_and, if_neg Bool.false_ne_true, Bool.false_or]

def Digits (s : Text) : Prop := ∀ c ∈ s, '0' ≤ c ∧ c ≤ '9'

structure Number where
  sign : Text
  int : Text
  frac : Text
  exp : Text
  signed : sign = [] ∨ sign = ['-']
  integer : int = ['0'] ∨ ∃ d rest, int = d :: rest ∧ '1' ≤ d ∧ d ≤ '9' ∧ Digits rest
  fraction : frac = [] ∨ ∃ digits, frac = '.' :: digits ∧ digits ≠ [] ∧ Digits digits
  exponent : exp = [] ∨ ∃ e plus digits, exp = e :: plus ++ digits ∧ (e = 'e' ∨ e = 'E') ∧
    (plus = [] ∨ plus = ['+'] ∨ plus = ['-']) ∧ digits ≠ [] ∧ Digits digits

def Number.render (n : Number) : Text := n.sign ++ n.int ++ n.frac ++ n.exp

lemma notMem_digits {s : Text} (h : Digits s) {c : Char} (hc : '9' < c) : c ∉ s := by
  intro hmem
  exact absurd (h c hmem).2 (Char.not_le.mpr hc)

lemma Number.notMem_render (n : Number) {c : Char} (hc : '9' < c) (he : c ≠ 'e' ∧ c ≠ 'E') :
    c ∉ n.render := by
  have hsmall : ∀ d : Char, d ≤ '9' → c ≠ d := by
    rintro d hd rfl
    exact absurd hd (Char.not_le.mpr hc)
  have hsign : c ∉ n.sign := by
    rcases n.signed with h | h
    · simp [h]
    · simp [h, hsmall '-' (by decide)]
  have hint : c ∉ n.int := by
    rcases n.integer with h | ⟨d, rest, h, _, hd, hrest⟩
    · simp [h, hsmall '0' (by decide)]
    · simp [h, hsmall d hd, notMem_digits hrest hc]
  have hfrac : c ∉ n.frac := by
    rcases n.fraction with h | ⟨digits, h, _, hdigits⟩
    · simp [h]
    · simp [h, hsmall '.' (by decide), notMem_digits hdigits hc]
  have hexp : c ∉ n.exp := by
    rcases n.exponent with h | ⟨e, plus, digits, h, hletter, hplus, _, hdigits⟩
    · simp [h]
    · have hce : c ≠ e := by
        rintro rfl
        exact hletter.elim he.1 he.2
      have hcplus : c ∉ plus := by
        rcases hplus with h | h | h
        · simp [h]
        · simp [h, hsmall '+' (by decide)]
        · simp [h, hsmall '-' (by decide)]
      simp [h, hce, hcplus, notMem_digits hdigits hc]
  simp only [Number.render, mem_append, hsign, hint, hfrac, hexp, or_self, not_false_eq_true]

/-! ### Texts -/

inductive Lexeme
  | blank (c : Char) (h : c ∈ [' ', '\t', '\n', '\r'])
  | beginArray | endArray | beginObject | endObject | nameSeparator | valueSeparator
  | null | true | false
  | number (n : Number)
  | string (body : List StringChar)

namespace Lexeme

def render : Lexeme → Text
  | blank c _ => [c]
  | beginArray => ['[']
  | endArray => [']']
  | beginObject => ['{']
  | endObject => ['}']
  | nameSeparator => [':']
  | valueSeparator => [',']
  | null => "null".toList
  | true => "true".toList
  | false => "false".toList
  | number n => n.render
  | string body => '"' :: body.flatMap StringChar.render ++ ['"']

def mapString (f : List StringChar → List StringChar) : Lexeme → Lexeme
  | string body => string (f body)
  | lexeme => lexeme

lemma notMem_render {lexeme : Lexeme} (h : ∀ body, lexeme ≠ string body) :
    '\\' ∉ lexeme.render := by
  cases lexeme with
  | blank c hc =>
    have hnone : ∀ c ∈ [' ', '\t', '\n', '\r'], '\\' ∉ [c] := by simp
    exact hnone c hc
  | number n => exact n.notMem_render (by decide) (by decide)
  | string body => exact absurd rfl (h body)
  | _ => decide

end Lexeme

def Blanks (lexemes : List Lexeme) : Prop := ∀ l ∈ lexemes, ∃ c h, l = .blank c h

inductive Symbol
  | value | elements | members

/-- The grammar of JSON over lexemes. -/
inductive Derives : Symbol → List Lexeme → Prop
  | null : Derives .value [.null]
  | true : Derives .value [.true]
  | false : Derives .value [.false]
  | number (n : Number) : Derives .value [.number n]
  | string (body : List StringChar) : Derives .value [.string body]
  | emptyArray {blanks : List Lexeme} (hblanks : Blanks blanks) :
    Derives .value (.beginArray :: blanks ++ [.endArray])
  | array {items : List Lexeme} (h : Derives .elements items) :
    Derives .value (.beginArray :: items ++ [.endArray])
  | emptyObject {blanks : List Lexeme} (hblanks : Blanks blanks) :
    Derives .value (.beginObject :: blanks ++ [.endObject])
  | object {fields : List Lexeme} (h : Derives .members fields) :
    Derives .value (.beginObject :: fields ++ [.endObject])
  | element {before item after : List Lexeme} (hbefore : Blanks before) (h : Derives .value item)
    (hafter : Blanks after) : Derives .elements (before ++ item ++ after)
  | elements {before item after rest : List Lexeme} (hbefore : Blanks before)
    (h : Derives .value item) (hafter : Blanks after) (hrest : Derives .elements rest) :
    Derives .elements (before ++ item ++ after ++ .valueSeparator :: rest)
  | member {before between gap item after : List Lexeme} {name : List StringChar}
    (hbefore : Blanks before) (hbetween : Blanks between) (hgap : Blanks gap)
    (h : Derives .value item) (hafter : Blanks after) :
    Derives .members (before ++ .string name :: between ++ .nameSeparator :: gap ++ item ++ after)
  | members {before between gap item after rest : List Lexeme} {name : List StringChar}
    (hbefore : Blanks before) (hbetween : Blanks between) (hgap : Blanks gap)
    (h : Derives .value item) (hafter : Blanks after) (hrest : Derives .members rest) :
    Derives .members (before ++ .string name :: between ++ .nameSeparator :: gap ++ item ++ after ++
      .valueSeparator :: rest)

/-- A value between blanks. -/
inductive Document : List Lexeme → Prop
  | text {before value after : List Lexeme} (hbefore : Blanks before) (h : Derives .value value)
    (hafter : Blanks after) : Document (before ++ value ++ after)

def render (lexemes : List Lexeme) : Text := lexemes.flatMap Lexeme.render

variable {f : List StringChar → List StringChar}

lemma Blanks.map {blanks : List Lexeme} (h : Blanks blanks) :
    Blanks (blanks.map (Lexeme.mapString f)) := by
  intro l hl
  obtain ⟨blank, hblank, rfl⟩ := mem_map.mp hl
  obtain ⟨c, hc, rfl⟩ := h blank hblank
  exact ⟨c, hc, rfl⟩

lemma Derives.map {symbol : Symbol} {lexemes : List Lexeme} (h : Derives symbol lexemes) :
    Derives symbol (lexemes.map (Lexeme.mapString f)) := by
  induction h with
  | null => exact .null
  | true => exact .true
  | false => exact .false
  | number n => exact .number n
  | string body => exact .string (f body)
  | emptyArray hblanks =>
    rw [map_append, map_cons]
    exact .emptyArray hblanks.map
  | array _ ih =>
    rw [map_append, map_cons]
    exact .array ih
  | emptyObject hblanks =>
    rw [map_append, map_cons]
    exact .emptyObject hblanks.map
  | object _ ih =>
    rw [map_append, map_cons]
    exact .object ih
  | element hbefore _ hafter ih =>
    rw [map_append, map_append]
    exact .element hbefore.map ih hafter.map
  | elements hbefore _ hafter _ ih ihrest =>
    rw [map_append, map_append, map_append, map_cons]
    exact .elements hbefore.map ih hafter.map ihrest
  | member hbefore hbetween hgap _ hafter ih =>
    simp only [map_append, map_cons]
    exact .member hbefore.map hbetween.map hgap.map ih hafter.map
  | members hbefore hbetween hgap _ hafter _ ih ihrest =>
    simp only [map_append, map_cons]
    exact .members hbefore.map hbetween.map hgap.map ih hafter.map ihrest

/-- A text with other strings is a text. -/
theorem Document.map {lexemes : List Lexeme} (h : Document lexemes) :
    Document (lexemes.map (Lexeme.mapString f)) := by
  obtain ⟨hbefore, hvalue, hafter⟩ := h
  rw [map_append, map_append]
  exact .text hbefore.map hvalue.map hafter.map

end JsonText
