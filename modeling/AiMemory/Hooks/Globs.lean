/-
Glob matching of the capture policy (`ai-memory-hooks`, `capture_policy.rs`).

A pattern is matched by a table with one row for each character of the candidate: an entry
says whether a beginning of the pattern matches all of what was read.  `**` spans separators,
`*` and `?` do not.
-/
import AiMemory.Lib.Strings
import AiMemory.Lib.Text

open Strings

namespace Capture

def charEqual (left right : Char) (insensitive : Bool) : Bool :=
  if insensitive && left.toNat < 128 && right.toNat < 128 then left.toLower = right.toLower
  else left = right

def firstRow (pattern : Text) : ℕ → Bool
  | 0 => true
  | index + 1 =>
    match pattern[index]? with
    | some '*' => if pattern[index + 1]? = some '*' then false else firstRow pattern index
    | _ => false

/-- The row after one more character; of `**` only the second star has an entry. -/
def nextRow (pattern : Text) (insensitive : Bool) (character : Char) (previous : ℕ → Bool) :
    ℕ → Bool
  | 0 => false
  | 1 =>
    match pattern[0]? with
    | none => false
    | some '*' => if pattern[1]? = some '*' then false else character ≠ '/' && previous 1
    | some '?' => character ≠ '/' && previous 0
    | some expected => charEqual expected character insensitive && previous 0
  | index + 2 =>
    match pattern[index + 1]? with
    | none => false
    | some '*' =>
      if pattern[index + 2]? = some '*' then false
      else if pattern[index]? = some '*' then
        nextRow pattern insensitive character previous index || previous (index + 2)
      else nextRow pattern insensitive character previous (index + 1) ||
        (character ≠ '/' && previous (index + 2))
    | some '?' => character ≠ '/' && previous (index + 1)
    | some expected => charEqual expected character insensitive && previous (index + 1)

def globStates (pattern candidate : Text) (insensitive : Bool) : ℕ → Bool :=
  candidate.foldl (fun previous c => nextRow pattern insensitive c previous) (firstRow pattern)

def globStatesMatch (pattern candidate : Text) (insensitive : Bool) : Bool :=
  globStates pattern candidate insensitive pattern.length

/-- `dir/**` also names `dir` itself, and `dir` may hold globs. -/
def globMatch (pattern candidate : Text) (directoryBase : Option Text)
    (insensitive : Bool) : Bool :=
  directoryBase.any (fun base => globStatesMatch base candidate insensitive) ||
    globStatesMatch pattern candidate insensitive

def globMatchesBelow (pattern directory : Text) (insensitive : Bool) : Bool :=
  let directory := if directory.getLast? = some '/' then directory else directory ++ ['/']
  (List.range (pattern.length + 1)).any (globStates pattern directory insensitive)

def isGlobChar (c : Char) : Bool := c = '*' || c = '?'

variable (path : Text)

def literalPrefix : Text :=
  if path.any isGlobChar then
    let before := path.takeWhile fun c => !isGlobChar c
    if before.contains '/' then
      let trimmed := beforeLast '/' before
      -- the separator of `/` and `C:/` stays
      if trimmed ≠ [] ∧ trimmed.getLast? ≠ some ':' then trimmed else trimmed ++ ['/']
    else []
  else path

def startsWithChars (path text : Text) (insensitive : Bool) : Bool :=
  match text, path with
  | [], _ => true
  | _ :: _, [] => false
  | expected :: text, c :: path =>
    charEqual expected c insensitive && startsWithChars path text insensitive

def depthOf : ℕ := ((path.splitOn '/').filter (· ≠ [])).length

/-- The parts of a path up to the one that is the `depth`-th not empty. -/
def firstParts : ℕ → List Text → Option (List Text)
  | 0, _ => some []
  | _ + 1, [] => none
  | depth + 1, part :: rest =>
    if part = [] then (firstParts (depth + 1) rest).map (part :: ·)
    else (firstParts depth rest).map (part :: ·)

/-- The beginning of a path through its `depth`-th segment. -/
def pathHead (depth : ℕ) (path : Text) : Option Text :=
  (firstParts depth (path.splitOn '/')).map ['/'].intercalate

/-- Whether a shell glob can expand to a path at or below a prefix; only as many segments
as the prefix has are compared. -/
def globReaches (glob text : Text) (insensitive : Bool) : Bool :=
  let text := trimEndBy (· = '/') text
  if depthOf text = 0 then true
  else (pathHead (depthOf text) glob).any fun head => globMatch head text none insensitive

/-- The same for a glob whose `**` spans any number of segments. -/
def globstarReaches (glob text : Text) (insensitive : Bool) : Bool :=
  match splitOnce ['*', '*'] glob with
  | none => globReaches glob text insensitive
  | some (before, _) =>
    let head := beforeLast '/' before
    match pathHead (depthOf head) text with
    | none => globReaches glob text insensitive
    | some text => globMatch head text none insensitive

/-! ### Saved outputs -/

abbrev Budget := StateT ℕ Option

def maxMatchWork : ℕ := 1000000

def charge (cost : ℕ) : Budget Unit := fun work =>
  if maxMatchWork < work + cost then none else some ((), work + cost)

def intersectRow (l : Char) (below : Text → Bool) : Text → Bool
  | [] => l = '*' && below []
  | r :: rs =>
    if l = '*' then below (r :: rs) || intersectRow l below rs
    else if r = '*' then intersectRow l below rs || below (r :: rs)
    else (l = '?' || r = '?' || l = r) && below rs

/-- Whether two one-segment globs over `*` and `?` match a common string. -/
def globsIntersect : Text → Text → Bool
  | [] => fun right => right.all (· = '*')
  | l :: left => intersectRow l (globsIntersect left)

def windowsOf (size : ℕ) : Text → List Text
  | [] => []
  | c :: text => if size ≤ (c :: text).length then (c :: text).take size :: windowsOf size text else []

def spells (segment : Text) (word : String) : Bool :=
  let needed := min word.toList.length 3
  (segment.splitOnP isGlobChar).any fun run =>
    (windowsOf needed run).any fun piece => (windowsOf needed word.toList).contains piece

def fits (segment : Text) (shape : String) : Budget Bool := do
  charge ((segment.length + 1) * (shape.toList.length + 1))
  return globsIntersect segment shape.toList

/-- For each directory, whether a later one fits `tool-results`, and whether one that fits
spells it; then the same from the first directory on. -/
def resultsAfter : List Text → Budget (List (Bool × Bool) × (Bool × Bool))
  | [] => return ([], (false, false))
  | results :: rest => do
    let (suffix, seen) ← resultsAfter rest
    let fit ← fits results "tool-results"
    return (seen :: suffix, if fit then (true, seen.2 || spells results "tool-results") else seen)

/-- `<..claude..>/projects/../tool-results/..`, from one pair of directories on. -/
def claudeResults (directories : List Text) :
    ℕ → Option (List (Bool × Bool)) → List Text → Budget Bool
  | index, after, claude :: projects :: rest => do
    if !(← fits claude "*claude*") then claudeResults directories (index + 1) after (projects :: rest)
    else if !(← fits projects "projects") then
      claudeResults directories (index + 1) after (projects :: rest)
    else
      let table ← match after with
        | some table => pure table
        | none => Prod.fst <$> resultsAfter directories
      let (fitting, spelled) := table.getD index (false, false)
      if spelled || (fitting && (spells claude "claude" || spells projects "projects")) then
        return true
      else claudeResults directories (index + 1) (some table) (projects :: rest)
  | _, _, _ => return false

/-- Whether some directory fits `claude*`. -/
def claudeDirectory (named : Bool) : List Text → Budget Bool
  | [] => return false
  | claude :: rest => do
    if (← fits claude "claude*") && (named || spells claude "claude") then return true
    else claudeDirectory named rest

variable (directories : List Text)

def claudeTask (file : Text) : Budget Bool :=
  match directories.getLast? with
  | none => return false
  | some parent => do
    if !(← fits parent "tasks") then return false
    else if !(← fits file "*.output") then return false
    else claudeDirectory (spells parent "tasks" || spells file ".output") directories

def opencodeOutput : Budget Bool :=
  match directories.reverse with
  | output :: data :: _ => do
    if !(← fits data "opencode") then return false
    else if !(← fits output "tool-output") then return false
    else return spells data "opencode" || spells output "tool-output"
  | _ => return false

/-- Whether a path is a tool output some harness saved, charged to a budget. -/
def outputSpool : Budget Bool :=
  let segments := ((path.splitOn '/').filter (· ≠ [])).map fun s => s.map Char.toLower
  match segments.getLast? with
  | none => return false
  | some file => do
    let directories := segments.dropLast
    let claudeResults ← claudeResults directories 1 none directories
    let claudeTask ← claudeTask directories file
    let opencode ← opencodeOutput directories
    let piFits ← fits file "pi-bash-*.log"
    return claudeResults || claudeTask || opencode || (piFits && spells file "pi-bash-")

end Capture
