/-
Readings of a glob path (`ai-memory-hooks`, `capture_policy.rs`).

A `**` expands to no directory as well as to many, so a `..` behind it can step back from the
directory before it or from one it matched.  Each such `..` gives two readings of the path.

A result that may fail is an `Option`; `none` proves nothing.
-/
import AiMemory.Hooks.Paths

open Strings

namespace Capture

/-! ### Segments that can match `..` -/

/-- The Unicode tables `std` decides by, and the folding of a case-insensitive host. -/
structure Unicode where
  isAlphanumeric : Char → Bool
  isAlphabetic : Char → Bool
  isLowercase : Char → Bool
  isUppercase : Char → Bool
  /-- `fold_path`: composed, then lower-cased -/
  foldPath : Text → Text

def asciiUnicode : Unicode where
  isAlphanumeric := Char.isAlphanum
  isAlphabetic := Char.isAlpha
  isLowercase := Char.isLower
  isUppercase := Char.isUpper
  foldPath := id

inductive ClassMember
  | char (c : Char)
  | range (low high : Char)
  | named (name : Text)
  | symbol (text : Text)

def isAsciiPunctuation (c : Char) : Bool :=
  let n := c.toNat
  (0x21 ≤ n && n ≤ 0x2f) || (0x3a ≤ n && n ≤ 0x40) || (0x5b ≤ n && n ≤ 0x60) ||
    (0x7b ≤ n && n ≤ 0x7e)

def isAsciiGraphic (c : Char) : Bool := 0x21 ≤ c.toNat && c.toNat ≤ 0x7e

variable (U : Unicode)

def namedAdmits (name : String) (c : Char) : Bool :=
  match name with
  | "alnum" => U.isAlphanumeric c
  | "alpha" => U.isAlphabetic c
  | "blank" => c = ' ' || c = '\t'
  | "cntrl" => isControl c
  | "digit" => c.isDigit
  | "lower" => U.isLowercase c
  | "space" => isWhitespace c
  | "upper" => U.isUppercase c
  | "word" => U.isAlphanumeric c || c = '_'
  | "xdigit" => isAsciiHexdigit c
  | "punct" => isAsciiPunctuation c
  | "graph" => isAsciiGraphic c
  | "print" => isAsciiGraphic c || c = ' '
  | "ascii" => c.toNat < 128
  | _ => true

def ClassMember.admits (c : Char) : ClassMember → Bool
  | .char member => member = c
  | .range low high => decide (low ≤ c ∧ c ≤ high)
  | .named name => namedAdmits U (String.ofList name) c
  | .symbol [only] => only = c
  | .symbol _ => true

/-- `[:name:]`, `[=c=]` or `[.c.]`, behind its `[`. -/
def classSymbol : Text → Option (ClassMember × Text)
  | kind :: rest =>
    if kind = ':' ∨ kind = '=' ∨ kind = '.' then
      (splitOnce [kind, ']'] rest).map fun parts =>
        (if kind = ':' then .named parts.1 else .symbol parts.1, parts.2)
    else none
  | [] => none

/-- The members up to the closing `]`, and what is behind it. -/
def classMembers : ℕ → Text → Option (List ClassMember × Text)
  | 0, _ => none
  | _ + 1, [] => none
  | fuel + 1, c :: rest =>
    if c = ']' then some ([], rest)
    else
      match (if c = '[' then classSymbol rest else none), rest with
      | some (member, after), _ =>
        (classMembers fuel after).map fun found => (member :: found.1, found.2)
      | none, '-' :: high :: after =>
        if high ≠ ']' then
          (classMembers fuel after).map fun found => (.range c high :: found.1, found.2)
        else (classMembers fuel rest).map fun found => (.char c :: found.1, found.2)
      | none, _ => (classMembers fuel rest).map fun found => (.char c :: found.1, found.2)

/-- The bracket class behind its `[`: whether it is negated, its members, and what follows.
A `]` right after the opening is a member. -/
def bracketClass (body : Text) : Option (Bool × List ClassMember × Text) :=
  let negated := body.head? = some '!' || body.head? = some '^'
  let body := if negated then body.drop 1 else body
  if body.head? = some ']' then
    (classMembers body.length (body.drop 1)).map fun found =>
      (negated, .char ']' :: found.1, found.2)
  else (classMembers (body.length + 1) body).map fun found => (negated, found.1, found.2)

/-- The body of a group and what is behind its `)`, inside `depth` open groups. -/
def splitGroup : ℕ → Text → Option (Text × Text)
  | _, [] => none
  | depth, c :: rest =>
    if c = ')' ∧ depth ≤ 1 then some ([], rest)
    else
      let depth := if c = '(' then depth + 1 else if c = ')' then depth - 1 else depth
      (splitGroup depth rest).map fun parts => (c :: parts.1, parts.2)

/-- The `|`-separated alternatives of a group body, nested groups kept whole. -/
def groupAlternatives : ℕ → Text → List Text
  | _, [] => [[]]
  | depth, c :: rest =>
    if c = '|' ∧ depth = 0 then [] :: groupAlternatives depth rest
    else
      let depth := if c = '(' then depth + 1 else if c = ')' then depth - 1 else depth
      (groupAlternatives depth rest).modifyHead (c :: ·)

def repeated (once : Text → Bool) : ℕ → Text → Bool
  | 0, _ => false
  | fuel + 1, text =>
    (List.range text.length).any fun split =>
      once (text.take (split + 1)) &&
        (split + 1 = text.length || repeated once fuel (text.drop (split + 1)))

def extglobGroupMatches (kind : Char) (once : Text → Bool) (text : Text) : Bool :=
  match kind with
  | '@' => once text
  | '?' => text = [] || once text
  | '*' => text = [] || repeated once text.length text
  | '+' => repeated once text.length text
  | _ => !once text

def isGroupKind (c : Char) : Bool := c = '@' || c = '?' || c = '*' || c = '+' || c = '!'

/-- A one-segment glob over `*`, `?`, classes and extglob groups against a text. -/
def classGlobMatchesFor (U : Unicode) : ℕ → Text → Text → Bool
  | 0, _, _ => false
  | _ + 1, [], text => text = []
  | fuel + 1, c :: pattern, text =>
    let group := if isGroupKind c && pattern.head? = some '(' then splitGroup 1 (pattern.drop 1)
      else none
    match group with
    | some (body, rest) =>
      let once := fun piece => (groupAlternatives 0 body).any fun alternative =>
        classGlobMatchesFor U fuel alternative piece
      (List.range (text.length + 1)).any fun split =>
        extglobGroupMatches c once (text.take split) &&
          classGlobMatchesFor U fuel rest (text.drop split)
    | none =>
      if c = '*' then
        (List.range (text.length + 1)).any fun skip =>
          classGlobMatchesFor U fuel pattern (text.drop skip)
      else match text with
      | [] => false
      | first :: behind =>
        if c = '?' then classGlobMatchesFor U fuel pattern behind
        else
          match if c = '[' then bracketClass pattern else none with
          | some (negated, members, rest) =>
            (members.any (ClassMember.admits U first)) ≠ negated &&
              classGlobMatchesFor U fuel rest behind
          | none => first = c && classGlobMatchesFor U fuel pattern behind

def classGlobMatches (pattern text : Text) : Bool :=
  classGlobMatchesFor U (pattern.length + 1) pattern text

/-- Whether a glob segment can match `..` in a shell that lets a leading `.` match it. -/
def couldNameParent : Text → Bool
  | '.' :: rest =>
    (rest.any fun c => c = '*' || c = '?' || c = '[' || c = '(') && classGlobMatches U rest ['.']
  | _ => false

/-! ### Readings -/

def maxGlobstarReadings : ℕ := 16

/-- The segment that is the glob `**`. -/
def globstar : Text := ['*', '*']

def dotdot : Text := ['.', '.']

def holdsGlobstar (segment : Text) : Bool := (splitOnce globstar segment).isSome

def keep (readings : List (List Text)) (parts : List Text) : List (List Text) :=
  if parts ∈ readings then readings else readings ++ [parts]

def forkReading (part : Text) (parent : Bool) (next : List (List Text))
    (parts : List Text) : List (List Text) :=
  let next := if parent then keep next parts.dropLast else next
  if part ≠ dotdot then keep next (parts ++ [part])
  else if parts.getLast?.any holdsGlobstar then keep (keep next parts.dropLast.dropLast) parts
  else keep next parts.dropLast

def readSegments (U : Unicode) :
    List (List Text) → List Text → Option (List (List Text))
  | readings, [] => some readings
  | readings, part :: rest =>
    -- a directory segment an older shell can expand to `..` is read as that too
    let parent := rest ≠ [] && part ≠ dotdot && couldNameParent U part
    let next := readings.foldl (forkReading part parent) []
    if maxGlobstarReadings < next.length then none else readSegments U next rest

/-- The readings of one joined path; `some none` when it has no root. -/
def rawReadings (raw : Text) (flavor : Flavor) :
    Option (Option (List Normalized)) :=
  match splitRoot raw with
  | none => some none
  | some (root, tail) =>
    (readSegments U [[]] (tail.filter fun part => part ≠ [] ∧ part ≠ ['.'])).map fun readings =>
      some (readings.map fun parts => ⟨joinSegments root parts, flavor⟩)

def collectReadings (U : Unicode) (flavor : Flavor) :
    List Text → List Normalized → Option (Option (List Normalized))
  | [], all => some (some all)
  | raw :: raws, all =>
    match rawReadings U raw flavor with
    | none => none
    | some none => some none
    | some (some readings) =>
      if maxGlobstarReadings < (all ++ readings).length then none
      else collectReadings U flavor raws (all ++ readings)

/-- Every reading of a candidate; `some none` when it is not a usable path. -/
def normalizeReadings (candidate cwd : Text) :
    Option (Option (List Normalized)) :=
  match candidateRaw candidate cwd with
  | none => some none
  | some (raws, flavor) => collectReadings U flavor raws []

end Capture
