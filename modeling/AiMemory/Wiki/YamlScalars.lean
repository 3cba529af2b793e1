/-
Scalars of the frontmatter (`ai-memory-wiki`, `frontmatter_yaml.rs`), as `serde_yaml` 0.9 read them.
-/
import AiMemory.Lib.Fallible
import AiMemory.Lib.Json
import AiMemory.Lib.Strings
import AiMemory.Lib.Utf8
import Mathlib

open Strings

namespace Frontmatter

/-! ### Values -/

/-- A JSON value, a number as its text. The one-entry map that a local tag makes of its value is
told from a map of the document, which nothing here asks for. -/
inductive Value
  | null
  | bool (b : Bool)
  | number (text : Text)
  | string (text : Text)
  | array (items : List Value)
  | object (entries : List (Text × Value))
  | tagged (name : Text) (value : Value)

namespace Value

mutual
def json : Value → Json.Value
  | .null => .null
  | .bool b => .bool b
  | .number text => .number (String.ofList text)
  | .string text => .string (String.ofList text)
  | .array items => .array (jsonItems items)
  | .object entries => .object (jsonEntries entries)
  | .tagged name value => .object [(String.ofList name, value.json)]
def jsonItems : List Value → List Json.Value
  | [] => []
  | item :: items => item.json :: jsonItems items
def jsonEntries : List (Text × Value) → List (String × Json.Value)
  | [] => []
  | (key, value) :: entries => (String.ofList key, value.json) :: jsonEntries entries
end

mutual
def nodes : Value → ℕ
  | .array items => nodesItems items + 1
  | .object entries => nodesEntries entries + 1
  | .tagged _ value => value.nodes
  | _ => 1
def nodesItems : List Value → ℕ
  | [] => 0
  | item :: items => item.nodes + nodesItems items
def nodesEntries : List (Text × Value) → ℕ
  | [] => 0
  | (_, value) :: entries => value.nodes + nodesEntries entries
end

mutual
def height : Value → ℕ
  | .array items => heightItems items + 1
  | .object entries => heightEntries entries + 1
  | .tagged _ value => value.height
  | _ => 0
def heightItems : List Value → ℕ
  | [] => 0
  | item :: items => max item.height (heightItems items)
def heightEntries : List (Text × Value) → ℕ
  | [] => 0
  | (_, value) :: entries => max value.height (heightEntries entries)
end

mutual
/-- `Display` of a value: compact JSON. -/
def text : Value → Text
  | .null => "null".toList
  | .bool b => (toString b).toList
  | .number text => text
  | .string text => Json.litChars (String.ofList text)
  | .array items => '[' :: textItems items ++ [']']
  | .object entries => '{' :: textEntries entries ++ ['}']
  | .tagged name value => '{' :: Json.litChars (String.ofList name) ++ ':' :: value.text ++ ['}']
def textItems : List Value → Text
  | [] => []
  | [item] => item.text
  | item :: items => item.text ++ ',' :: textItems items
def textEntries : List (Text × Value) → Text
  | [] => []
  | [(key, value)] => Json.litChars (String.ofList key) ++ ':' :: value.text
  | (key, value) :: entries =>
    Json.litChars (String.ofList key) ++ ':' :: value.text ++ ',' :: textEntries entries
end

def isLeaf : Value → Bool
  | .array _ | .object _ | .tagged .. => false
  | _ => true

end Value

/-! ### Numbers -/

/-- `u64`, `i64`, `u128` or `i128`. -/
structure IntType where
  low : ℤ
  high : ℤ

def u64 : IntType := ⟨0, 2 ^ 64 - 1⟩
def i64 : IntType := ⟨-2 ^ 63, 2 ^ 63 - 1⟩
def u128 : IntType := ⟨0, 2 ^ 128 - 1⟩
def i128 : IntType := ⟨-2 ^ 127, 2 ^ 127 - 1⟩

def digitValue (radix : ℕ) (c : Char) : Option ℕ :=
  let value := if '0' ≤ c ∧ c ≤ '9' then c.toNat - 48
    else if 'a' ≤ c ∧ c ≤ 'z' then c.toNat - 87
    else if 'A' ≤ c ∧ c ≤ 'Z' then c.toNat - 55
    else radix
  if value < radix then some value else none

def digitsValue (radix : ℕ) (digits : Text) : Option ℤ :=
  if digits = [] then none
  else (digits.foldlM (fun n c => (digitValue radix c).map (radix * n + ·)) 0).map Int.ofNat

variable (type : IntType)

/-- `from_str_radix`: only a signed type reads a minus. -/
def IntType.fromStrRadix (text : Text) (radix : ℕ) : Option ℤ :=
  let value := match text with
    | '+' :: digits => digitsValue radix digits
    | '-' :: digits => if type.low < 0 then (digitsValue radix digits).map (- ·) else none
    | digits => digitsValue radix digits
  value.filter fun n => type.low ≤ n && n ≤ type.high

def parseNull (text : Text) : Bool :=
  text ∈ ["null".toList, "Null".toList, "NULL".toList, "~".toList]

def parseBool (text : Text) : Option Bool :=
  if text ∈ ["true".toList, "True".toList, "TRUE".toList] then some true
  else if text ∈ ["false".toList, "False".toList, "FALSE".toList] then some false
  else none

def stripPrefix (pre text : Text) : Option Text :=
  if pre.isPrefixOf text then some (text.drop pre.length) else none

def startsWithSign (text : Text) : Bool := text.head? = some '+' || text.head? = some '-'

def digitsButNotNumber (text : Text) : Bool :=
  let text := if startsWithSign text then text.tail else text
  match text with
  | '0' :: rest => rest ≠ [] && rest.all fun c => '0' ≤ c && c ≤ '9'
  | _ => false

def parseUnsignedInt (text : Text) : Option ℤ :=
  let unpositive := (stripPrefix ['+'] text).getD text
  let decimal := if startsWithSign unpositive || digitsButNotNumber text then none
    else type.fromStrRadix unpositive 10
  -- at most one of the prefixes is there
  match [(['0', 'x'], 16), (['0', 'o'], 8), (['0', 'b'], 2)].findSome?
      fun (pre, radix) => (stripPrefix pre unpositive).map fun rest => (rest, radix) with
  | some (rest, radix) =>
    if startsWithSign rest then none else (type.fromStrRadix rest radix).or decimal
  | none => decimal

def parseNegativeInt (text : Text) : Option ℤ :=
  let decimal := if digitsButNotNumber text then none else type.fromStrRadix text 10
  match [(['-', '0', 'x'], 16), (['-', '0', 'o'], 8), (['-', '0', 'b'], 2)].findSome?
      fun (pre, radix) => (stripPrefix pre text).map fun rest => (rest, radix) with
  | some (rest, radix) => (type.fromStrRadix ('-' :: rest) radix).or decimal
  | none => decimal

inductive ScalarFault
  | notBoolean (text : Text)
  | notInteger (text : Text)
  | notFloat (text : Text)
  | notNull (text : Text)
  | tooWide (text : Text)
  | keyNotString

def number (n : ℤ) : Value := .number (toString n).toList

def int (text : Text) : Except ScalarFault (Option Value) :=
  match parseUnsignedInt u64 text with
  | some u => .ok (some (number u))
  | none => match parseNegativeInt i64 text with
    | some i => .ok (some (number i))
    | none =>
      if (parseUnsignedInt u128 text).isSome || (parseNegativeInt i128 text).isSome then
        .error (.tooWide text)
      else .ok none

/-! ### Scalars -/

inductive ScalarStyle
  | plain | singleQuoted | doubleQuoted | literal | folded
  deriving DecidableEq

section

-- `str::parse::<f64>` of a text that reads as a finite number: the number as `serde_json` prints it
variable (parseFinite : Text → Option Text)

/-- A float, `none` for an infinity or not a number. -/
def parseF64 (text : Text) : Option (Option Text) :=
  match stripPrefix ['+'] text with
  | some rest =>
    if startsWithSign rest then none
    else if rest ∈ [".inf".toList, ".Inf".toList, ".INF".toList] then some none
    else (parseFinite rest).map some
  | none =>
    if text ∈ [".inf".toList, ".Inf".toList, ".INF".toList, "-.inf".toList, "-.Inf".toList,
      "-.INF".toList, ".nan".toList, ".NaN".toList, ".NAN".toList] then some none
    else (parseFinite text).map some

def float : Option Text → Value
  | some text => .number text
  | none => .null

def untagged (text : Text) : Except ScalarFault Value :=
  if text = [] ∨ parseNull text then .ok .null
  else match parseBool text with
  | some b => .ok (.bool b)
  | none => (int text).bind fun
    | some n => .ok n
    | none =>
      if digitsButNotNumber text then .ok (.string text)
      else match parseF64 parseFinite text with
      | some f => .ok (float f)
      | none => .ok (.string text)

def coreTagPrefix : Text := "tag:yaml.org,2002:".toList

def scalar (text : Text) (style : ScalarStyle) (tag : Option Text) :
    Except ScalarFault Value :=
  let core := tag.bind (stripPrefix coreTagPrefix)
  if core = some "bool".toList then
    match parseBool text with
    | some b => .ok (.bool b)
    | none => .error (.notBoolean text)
  else if core = some "int".toList then
    (int text).bind fun
      | some n => .ok n
      | none => .error (.notInteger text)
  else if core = some "float".toList then
    match parseF64 parseFinite text with
    | some f => .ok (float f)
    | none => .error (.notFloat text)
  else if core = some "null".toList then
    if parseNull text then .ok .null else .error (.notNull text)
  else if tag = none ∧ style = .plain then untagged parseFinite text
  else .ok (.string text)

end

def jsonKey : Value → Except ScalarFault Text
  | .string s => .ok s
  | .bool b => .ok (toString b).toList
  | .number n => .ok n
  | _ => .error .keyNotString

structure Tag where
  handle : Text
  suffix : Text
  deriving DecidableEq

def tagString (tag : Option Tag) : Option Text := tag.map fun t => t.handle ++ t.suffix

/-- The name under which a local tag wraps its value. -/
def enumTag (tag : Option Text) : Option Text :=
  match tag with
  | some ('!' :: rest) =>
    let name := if rest = [] then ['!'] else rest
    let unbanged := match name with
      | '!' :: unbanged => if unbanged = [] then name else unbanged
      | _ => name
    some ('!' :: unbanged)
  | _ => none

lemma int_leaf {text : Text} {v : Value} (h : int text = .ok (some v)) : v.isLeaf := by
  rw [int] at h
  split at h
  · cases h
    rfl
  split at h
  · cases h
    rfl
  split at h
  · cases h
  · cases h

lemma float_leaf (f : Option Text) : (float f).isLeaf := by
  cases f with
  | none => rfl
  | some text => rfl

variable {parseFinite : Text → Option Text}

lemma untagged_leaf {text : Text} {v : Value} (h : untagged parseFinite text = .ok v) :
    v.isLeaf := by
  rw [untagged] at h
  split at h
  · cases h
    rfl
  split at h
  · cases h
    rfl
  · obtain ⟨result, hint, h⟩ := Fallible.bind_eq_ok.mp h
    cases result with
    | some n =>
      cases h
      exact int_leaf hint
    | none =>
      simp only at h
      split at h
      · cases h
        rfl
      split at h
      · cases h
        exact float_leaf _
      · cases h
        rfl

lemma scalar_leaf {text : Text} {style : ScalarStyle} {tag : Option Text} {v : Value}
    (h : scalar parseFinite text style tag = .ok v) : v.isLeaf := by
  rw [scalar] at h
  split at h
  · split at h
    · cases h
      rfl
    · cases h
  split at h
  · obtain ⟨result, hint, h⟩ := Fallible.bind_eq_ok.mp h
    cases result with
    | some n =>
      cases h
      exact int_leaf hint
    | none => cases h
  split at h
  · split at h
    · cases h
      exact float_leaf _
    · cases h
  split at h
  · split at h
    · cases h
      rfl
    · cases h
  split at h
  · exact untagged_leaf h
  · cases h
    rfl

end Frontmatter
