/-
JSON string literals, written compactly.

`stringLit` and `stringArray` print a string and an array of strings the way a
compact JSON serializer does: the two-character escapes for the quote, the
backslash and five control characters, `\u00xx` for the other control
characters, everything else verbatim.

`Value` is a parsed JSON text; an object's fields are in the order they
were written.
-/
import Mathlib.Data.List.Basic
import Mathlib.Tactic.IntervalCases
import AiMemory.Lib.Text

open List

namespace Json

def hexDigit (n : ℕ) : Char := if n < 10 then Char.ofNat (48 + n) else Char.ofNat (87 + n)

variable (c : Char)

def hexValue : ℕ := if c.toNat < 58 then c.toNat - 48 else c.toNat - 87

def escapeChar : Text :=
  if c = '"' then ['\\', '"']
  else if c = '\\' then ['\\', '\\']
  else if c.toNat = 8 then ['\\', 'b']
  else if c.toNat = 9 then ['\\', 't']
  else if c.toNat = 10 then ['\\', 'n']
  else if c.toNat = 12 then ['\\', 'f']
  else if c.toNat = 13 then ['\\', 'r']
  else if c.toNat < 32 then ['\\', 'u', '0', '0', hexDigit (c.toNat / 16), hexDigit (c.toNat % 16)]
  else [c]

def escape (s : Text) : Text := s.flatMap escapeChar

def litChars (s : String) : Text := '"' :: (escape s.toList ++ ['"'])

def stringLit (s : String) : String := String.ofList (litChars s)

def items : List String → Text
  | [] => []
  | s :: rest => litChars s ++ rest.flatMap fun t => ',' :: litChars t

def stringArray (l : List String) : String := String.ofList ('[' :: (items l ++ [']']))

/-! ### Values -/

inductive Value
  | null
  | bool (b : Bool)
  | number (text : String)
  | string (s : String)
  | array (items : List Value)
  | object (fields : List (String × Value))

namespace Value

/-- The field of an object, `none` for any other value. -/
def get? (v : Value) (key : String) : Option Value :=
  match v with
  | .object fields => fields.lookup key
  | _ => none

def asStr? : Value → Option String
  | .string s => some s
  | _ => none

def asArray? : Value → Option (List Value)
  | .array items => some items
  | _ => none

def asObject? : Value → Option (List (String × Value))
  | .object fields => some fields
  | _ => none

def keys : Value → List String
  | .object fields => fields.map Prod.fst
  | _ => []

mutual
def nodes : Value → ℕ
  | .array items => nodesItems items + 1
  | .object fields => nodesFields fields + 1
  | _ => 1
def nodesItems : List Value → ℕ
  | [] => 0
  | item :: items => item.nodes + nodesItems items
def nodesFields : List (String × Value) → ℕ
  | [] => 0
  | (_, value) :: fields => value.nodes + nodesFields fields
end

mutual
def height : Value → ℕ
  | .array items => heightItems items + 1
  | .object fields => heightFields fields + 1
  | _ => 0
def heightItems : List Value → ℕ
  | [] => 0
  | item :: items => max item.height (heightItems items)
def heightFields : List (String × Value) → ℕ
  | [] => 0
  | (_, value) :: fields => max value.height (heightFields fields)
end

end Value

/-- Undo `escapeChar` at the front of a text. -/
def readChar : Text → Option (Char × Text)
  | '\\' :: 'u' :: '0' :: '0' :: a :: b :: rest =>
    some (Char.ofNat (16 * hexValue a + hexValue b), rest)
  | '\\' :: 'b' :: rest => some (Char.ofNat 8, rest)
  | '\\' :: 't' :: rest => some (Char.ofNat 9, rest)
  | '\\' :: 'n' :: rest => some (Char.ofNat 10, rest)
  | '\\' :: 'f' :: rest => some (Char.ofNat 12, rest)
  | '\\' :: 'r' :: rest => some (Char.ofNat 13, rest)
  | '\\' :: c :: rest => some (c, rest)
  | c :: rest => some (c, rest)
  | [] => none

lemma char_eq_of_toNat {c : Char} {n : ℕ} (h : c.toNat = n) : c = Char.ofNat n := by
  rw [← h, Char.ofNat_toNat]

lemma readChar_escapeChar (rest : Text) :
    readChar (escapeChar c ++ rest) = some (c, rest) := by
  unfold escapeChar
  by_cases h1 : c = '"'
  · subst h1; rfl
  by_cases h2 : c = '\\'
  · subst h2; rfl
  rw [if_neg h1, if_neg h2]
  by_cases h3 : c.toNat < 32
  · obtain ⟨n, hn⟩ : ∃ n, c.toNat = n := ⟨_, rfl⟩
    obtain rfl := char_eq_of_toNat hn
    rw [hn] at h3 ⊢
    interval_cases n <;> rfl
  · rw [if_neg (by omega), if_neg (by omega), if_neg (by omega), if_neg (by omega),
      if_neg (by omega), if_neg h3]
    unfold readChar
    split <;> simp_all

lemma head_escapeChar_ne_quote (rest : Text) :
    ∃ d ds, escapeChar c ++ rest = d :: ds ∧ d ≠ '"' := by
  unfold escapeChar
  by_cases h1 : c = '"'
  · rw [if_pos h1]; exact ⟨_, _, rfl, by decide⟩
  rw [if_neg h1]
  repeat' split
  all_goals first | exact ⟨_, _, rfl, by decide⟩ | exact ⟨_, _, rfl, h1⟩

lemma escape_quote_inj : ∀ {s t r r' : Text},
    escape s ++ '"' :: r = escape t ++ '"' :: r' → s = t ∧ r = r' := by
  intro s
  induction s with
  | nil =>
    intro t r r' h
    cases t with
    | nil => exact ⟨rfl, by simpa [escape] using h⟩
    | cons d t =>
      obtain ⟨e, es, he, hne⟩ := head_escapeChar_ne_quote d (escape t ++ '"' :: r')
      rw [escape, escape, flatMap_cons, append_assoc] at h
      rw [escape] at he
      rw [he] at h
      exact absurd (List.cons.inj h).1.symm hne
  | cons c s ih =>
    intro t r r' h
    cases t with
    | nil =>
      obtain ⟨e, es, he, hne⟩ := head_escapeChar_ne_quote c (escape s ++ '"' :: r)
      rw [escape, escape, flatMap_cons, append_assoc] at h
      rw [escape] at he
      rw [he] at h
      exact absurd (List.cons.inj h).1 hne
    | cons d t =>
      rw [escape, escape, flatMap_cons, flatMap_cons, append_assoc, append_assoc] at h
      have hread := congrArg readChar h
      rw [readChar_escapeChar, readChar_escapeChar, Option.some_inj, Prod.mk.injEq] at hread
      obtain ⟨hcd, hrest⟩ := hread
      obtain ⟨hst, hr⟩ := ih hrest
      exact ⟨by rw [hcd, hst], hr⟩

lemma litChars_append_inj {s t : String} {r r' : Text}
    (h : litChars s ++ r = litChars t ++ r') : s = t ∧ r = r' := by
  rw [litChars, litChars, cons_append, cons_append, List.cons.injEq,
    append_assoc, append_assoc] at h
  obtain ⟨hst, hr⟩ := escape_quote_inj h.2
  exact ⟨String.toList_inj.mp hst, hr⟩

lemma litTail_inj : ∀ {l m : List String}, (l.flatMap fun t => ',' :: litChars t) ++ [']']
      = (m.flatMap fun t => ',' :: litChars t) ++ [']'] → l = m := by
  intro l
  induction l with
  | nil =>
    intro m h
    cases m with
    | nil => rfl
    | cons t m => cases h
  | cons s l ih =>
    intro m h
    cases m with
    | nil => cases h
    | cons t m =>
      simp only [flatMap_cons, cons_append, append_assoc, List.cons.injEq, true_and] at h
      obtain ⟨hst, hr⟩ := litChars_append_inj h
      rw [hst, ih hr]

/-- Two arrays that print alike are equal. -/
theorem stringArray_injective : Function.Injective stringArray := by
  intro l m h
  have h' : items l ++ [']'] = items m ++ [']'] := (List.cons.inj (String.ofList_inj.mp h)).2
  cases l with
  | nil =>
    cases m with
    | nil => rfl
    | cons t m => exact absurd h' (by simp [items, litChars])
  | cons s l =>
    cases m with
    | nil => exact absurd h' (by simp [items, litChars])
    | cons t m =>
      rw [items, items, append_assoc, append_assoc] at h'
      obtain ⟨hst, hr⟩ := litChars_append_inj h'
      rw [hst, litTail_inj hr]

end Json
