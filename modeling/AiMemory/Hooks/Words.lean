/-
Shell words (`ai-memory-hooks`, `capture_policy.rs`).

A command line is split the way a POSIX shell would before expansion.  A backslash escapes
only a character the shell treats specially, so that a Windows path keeps its separators.

Both scanners look at the characters ahead and may consume some of them; `skip` counts the
ones consumed.
-/
import AiMemory.Store.Text
import Mathlib.Data.List.Basic

namespace Capture

open Strings (isWhitespace)

def isOperator (c : Char) : Bool := ['|', '&', ';', '<', '>', '(', ')', '\x60'].contains c

def ansiCEscape : Char → Option Char
  | 'a' => some '\x07'
  | 'b' => some '\x08'
  | 'e' => some '\x1b'
  | 'E' => some '\x1b'
  | 'f' => some '\x0c'
  | 'n' => some '\n'
  | 'r' => some '\r'
  | 't' => some '\t'
  | 'v' => some '\x0b'
  | '\\' => some '\\'
  | '\'' => some '\''
  | '"' => some '"'
  | '?' => some '?'
  | _ => none

def toDigit (radix : ℕ) (c : Char) : Option ℕ :=
  let digit :=
    if c.isDigit then some (c.toNat - 48)
    else if 'a' ≤ c ∧ c ≤ 'z' then some (c.toNat - 87)
    else if 'A' ≤ c ∧ c ≤ 'Z' then some (c.toNat - 55)
    else none
  digit.filter (· < radix)

/-- At most `most` digits: the value they spell, and how many they are. -/
def readDigits (radix : ℕ) : ℕ → ℕ → Text → ℕ × ℕ
  | 0, value, _ => (value, 0)
  | _ + 1, value, [] => (value, 0)
  | most + 1, value, c :: rest =>
    match toDigit radix c with
    | none => (value, 0)
    | some digit =>
      let found := readDigits radix most (value * radix + digit) rest
      (found.1, found.2 + 1)

/-- `char::from_u32`. -/
def charFromU32 (value : ℕ) : Option Char :=
  if value.isValidChar then some (Char.ofNat value) else none

/-- The character a numeric or control escape stands for, and how many characters behind
the escape it takes. -/
def ansiCNumericEscape (escape : Char) (rest : Text) : Option (Char × ℕ) :=
  let numeric := fun radix most value =>
    let found := readDigits radix most value rest
    if radix = 8 ∨ 0 < found.2 then (charFromU32 found.1).map fun c => (c, found.2) else none
  if escape = 'x' then numeric 16 2 0
  else if escape = 'u' then numeric 16 4 0
  else if escape = 'U' then numeric 16 8 0
  else if '0' ≤ escape ∧ escape ≤ '7' then numeric 8 2 (escape.toNat - 48)
  else if escape = 'c' then
    match rest with
    | control :: _ =>
      if control.toNat < 128 then some (Char.ofNat (control.toNat % 32), 1) else none
    | [] => none
  else none

/-- A group through its matching `)`; `none` for anything a glob group cannot hold. -/
def groupBody : ℕ → Text → Option (Text × Text)
  | _, [] => none
  | depth, c :: rest =>
    if isWhitespace c || ['\'', '"', '\\', ';', '&', '<', '>', '\x60'].contains c then none
    else if c = ')' ∧ depth ≤ 1 then some ([')'], rest)
    else
      let depth := if c = '(' then depth + 1 else if c = ')' then depth - 1 else depth
      (groupBody depth rest).map fun parts => (c :: parts.1, parts.2)

/-- The zsh glob group an unquoted `(` opens, behind it: inside a word, or at the start of
one when a word character follows the `)`. -/
def globGroup (ahead : Text) (inWord : Bool) : Option Text :=
  (groupBody 1 ahead).bind fun parts =>
    let wordFollows := parts.2.head?.any fun next => !isWhitespace next && !isOperator next
    if inWord || wordFollows then some parts.1 else none

/-! ### The splitter -/

structure Marks where
  /-- a `~` outside quotes and not after a backslash -/
  tilde : Bool
  /-- a `{` or `}` outside quotes -/
  bareBrace : Bool

def Marks.none : Marks := ⟨false, false⟩

/-- The open quote: `'`, `"` or `$'`. -/
inductive Quote
  | single | double | ansi
  deriving DecidableEq

structure Scan where
  words : List (Text × Marks)
  word : Text
  marks : Marks
  inWord : Bool
  quote : Option Quote
  skip : ℕ

namespace Scan

def start : Scan := ⟨[], [], .none, false, none, 0⟩

def push (s : Scan) (text : Text) : Scan := { s with word := s.word ++ text }

def flush (s : Scan) : Scan :=
  if s.inWord then
    { s with words := s.words ++ [(s.word, s.marks)], word := [], marks := .none, inWord := false }
  else s

def ansiBackslash (s : Scan) (expand : Bool) : Text → Scan
  | [] => s.push ['\\']
  | escape :: rest =>
    match ansiCEscape escape with
    | some decoded => { s.push [decoded] with skip := 1 }
    | none =>
      match if expand then ansiCNumericEscape escape rest else none with
      | some (decoded, digits) => { s.push [decoded] with skip := 1 + digits }
      | none => { s.push ['\\', escape] with skip := 1 }

def isEscapable (c : Char) : Bool :=
  isWhitespace c || isOperator c || c = '\'' || c = '"' || c = '\\'

def isDoubleEscapable (c : Char) : Bool := c = '"' || c = '\\' || c = '$' || c = '\x60'

def plainChar (s : Scan) (c : Char) : Scan where
  words := s.words
  word := s.word ++ [c]
  marks := ⟨s.marks.tilde || (c = '~' && s.word.getLast? ≠ some '\\'),
    s.marks.bareBrace || c = '{' || c = '}'⟩
  inWord := true
  quote := none
  skip := 0

def bareBackslash (s : Scan) (literal : Bool) (ahead : Text) : Scan :=
  match ahead with
  | next :: _ =>
    if !literal && next = '\n' then { s with skip := 1 }
    else if !literal && isEscapable next then { s.push [next] with inWord := true, skip := 1 }
    else s.plainChar '\\'
  | [] => s.plainChar '\\'

def bareChar (s : Scan) (expand literal : Bool) (c : Char) (ahead : Text) : Scan :=
  if c = '\\' then s.bareBackslash literal ahead
  else if c = '\'' then { s with quote := some .single, inWord := true }
  else if c = '"' then { s with quote := some .double, inWord := true }
  else if c = '$' && ahead.head? = some '\'' then
    { s with quote := some .ansi, inWord := true, skip := 1 }
  else if c = '$' && ahead.head? = some '"' then
    { s with quote := some .double, inWord := true, skip := 1 }
  else
    let group := if c = '(' && expand &&
        (!s.inWord || !(s.word.getLast? = some '$' || s.word.getLast? = some '=')) then
      globGroup ahead s.inWord else none
    match group with
    | some group => { s.push ('(' :: group) with inWord := true, skip := group.length }
    | none => if isWhitespace c || isOperator c then s.flush else s.plainChar c

def doubleChar (s : Scan) (literal : Bool) (c : Char) (ahead : Text) : Scan :=
  if c = '"' then { s with quote := none }
  else if c = '\\' && !literal then
    match ahead with
    | next :: _ =>
      if next = '\n' then { s with skip := 1 }
      else if isDoubleEscapable next then { s.push [next] with skip := 1 }
      else s.push ['\\']
    | [] => s.push ['\\']
  else s.push [c]

end Scan

def scanChar (expand literal : Bool) (s : Scan) (c : Char) (ahead : Text) : Scan :=
  match s.quote with
  | none => s.bareChar expand literal c ahead
  | some .single => if c = '\'' then { s with quote := none } else s.push [c]
  | some .double => s.doubleChar literal c ahead
  | some .ansi =>
    if c = '\'' then { s with quote := none }
    else if c = '\\' && !literal then s.ansiBackslash expand ahead
    else s.push [c]

def scan (expand literal : Bool) : Scan → Text → Scan
  | s, [] => s
  | s, c :: rest =>
    scan expand literal
      (if s.skip = 0 then scanChar expand literal s c rest else { s with skip := s.skip - 1 }) rest

variable (command : Text)

/-- The words of a command; `literal` reads every backslash as an ordinary character, and
`expand` keeps a glob group inside its word and decodes numeric escapes. -/
def tokenize (expand literal : Bool) : List (Text × Marks) :=
  (scan expand literal .start command).flush.words

/-- The words of a command read with POSIX quoting, or with backslashes kept as written. -/
def splitWords (literal : Bool) : List (Text × Marks) :=
  tokenize command false literal

def withoutEscapes (isEscape : Char → Bool) : Text → Text
  | [] => []
  | [c] => if isEscape c then [] else [c]
  | c :: next :: rest =>
    if isEscape c then next :: withoutEscapes isEscape rest
    else c :: withoutEscapes isEscape (next :: rest)

/-- A word as a POSIX shell reads its backslashes. -/
def withoutBackslashEscapes (word : Text) : Text := withoutEscapes (· = '\\') word

def withoutWindowsEscapes : Option Text :=
  let isEscape := fun c => c = '\x60' || c = '^'
  if command.any isEscape then some (withoutEscapes isEscape command) else none

/-! ### Unevaluated expansions -/

structure ExpansionScan where
  quote : Option Quote
  previous : Option Char
  inWord : Bool
  parameter : Bool
  brace : Option Bool
  cls : Option ℕ
  /-- for each open group, whether it starts a word -/
  groups : List Bool
  skip : ℕ

namespace ExpansionScan

def start : ExpansionScan := ⟨none, none, false, false, none, none, [], 0⟩

variable (s : ExpansionScan)

def quoted : ExpansionScan :=
  { s with cls := s.cls.map (· + 1), previous := none, inWord := true }

def reset : ExpansionScan :=
  { s with parameter := false, brace := none, cls := none, inWord := false }

def isWord (c : Option Char) : Bool := c.any fun c => !isWhitespace c && !isOperator c

/-- A character inside quotes; `none` when the expansion is found. -/
def quotedChar (quote : Quote) (c : Char) (ahead : Text) :
    Option ExpansionScan :=
  let closes : Bool := match quote with
    | .double => c = '"'
    | _ => c = '\''
  if closes then some { s.quoted with quote := none }
  else if c = '\\' then
    match quote with
    | .ansi =>
      if ahead.head?.any fun e =>
          e = 'x' || e = 'u' || e = 'U' || e = 'c' || decide ('0' ≤ e ∧ e ≤ '7') then none
      else some { s.quoted with skip := 1 }
    | .double => some { s.quoted with skip := 1 }
    | .single => some s.quoted
  else some s.quoted

def wordChar (c : Char) : Option ExpansionScan :=
  if c = '{' then some { s with brace := some false }
  else if c = ',' && s.brace.isSome then some { s with brace := some true }
  else if c = '.' && s.brace.isSome && s.previous = some '.' then some { s with brace := some true }
  else if c = '}' && s.brace.isSome then
    if s.brace = some true then none else some { s with brace := none }
  else if c = '[' && s.cls.isNone then some { s with cls := some 0 }
  else if c = ']' && s.cls = some 0 then some { s with cls := some 1 }
  else if c = ']' && s.cls.isSome then none
  else some { s with cls := s.cls.map (· + 1) }

def bareChar (c : Char) (ahead : Text) : Option ExpansionScan :=
  if c = '\'' then
    some { s with quote := some (if s.previous = some '$' then .ansi else .single) }
  else if c = '"' then some { s with quote := some .double }
  else if c = '(' then
    if s.inWord && !(s.previous = some '$' || s.previous = some '=') then none
    else
      let starts := !s.inWord && !(s.previous = some '<' || s.previous = some '>')
      some { s.reset with groups := starts :: s.groups }
  else if c = ')' then
    if s.groups.head? = some true && isWord ahead.head? then none
    else some { s.reset with groups := s.groups.drop 1 }
  else if c = '|' && s.groups.head? = some true && s.inWord && isWord ahead.head? then none
  else if isWhitespace c || isOperator c then some s.reset
  else if c = '{' && s.previous = some '$' then some { s with parameter := true }
  else if s.parameter then some { s with parameter := c ≠ '}' }
  else s.wordChar c

def scanChar (c : Char) (ahead : Text) : Option ExpansionScan :=
  match s.quote with
  | some quote => s.quotedChar quote c ahead
  | none =>
    if c = '\\' then some { s.quoted with skip := 1 }
    else (s.bareChar c ahead).map fun s =>
      { s with inWord := s.inWord || !(isWhitespace c || isOperator c), previous := some c }

/-- `none` when the expansion is found. -/
def scan : ExpansionScan → Text → Option ExpansionScan
  | s, [] => some s
  | s, c :: rest =>
    if s.skip = 0 then (s.scanChar c rest).bind fun s => scan s rest
    else scan { s with skip := s.skip - 1 } rest

end ExpansionScan

/-- Whether an unquoted word holds syntax the lexical matcher does not evaluate: a brace
expansion, a bracket class, a glob group, or a numeric ANSI-C escape. -/
def hasUnevaluatedExpansion : Bool :=
  (ExpansionScan.scan .start command).isNone

end Capture
