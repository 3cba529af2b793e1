/-
Paths as the capture policy reads them (`ai-memory-hooks`, `capture_policy.rs`).

A path is POSIX or Windows by its spelling: a drive letter, a doubled separator.  Both
separators split it, and `.` and `..` are resolved lexically.  On a Windows session every
spelling of one file is brought to one text first.
-/
import AiMemory.Lib.Strings
import AiMemory.Store.Text

open Strings

namespace Capture

inductive Flavor
  | posix | windows
  deriving DecidableEq

def maxCandidatePathChars : ℕ := 4096

def isSeparator (c : Char) : Bool := c = '/' || c = '\\'

variable (path : Text)

def separatorAt (index : ℕ) : Bool := path[index]?.elim false isSeparator

def validDrivePrefix : Text → Bool
  | letter :: ':' :: _ => letter.isAlpha
  | _ => false

def flavorOf : Flavor :=
  if ['\\', '\\'].isPrefixOf path || ['/', '/'].isPrefixOf path || validDrivePrefix path then
    .windows
  else .posix

def isAbsolute : Bool :=
  ['/'].isPrefixOf path || ['\\', '\\'].isPrefixOf path ||
    (validDrivePrefix path && separatorAt path 2)

def isDriveRelative : Bool :=
  match path with
  | first :: ':' :: _ => first.utf8Size = 1 && (!first.isAlpha || !isAbsolute path)
  | _ => false

def join (base child : Text) : Text := trimEndBy isSeparator base ++ '/' :: child

/-- A path's root (`/`, `C:/`, `//server/share`) and the segments after it. -/
def splitRoot : Option (Text × List Text) :=
  if separatorAt path 0 && separatorAt path 1 then
    match ((path.drop 2).splitOnP isSeparator).filter (· ≠ []) with
    | server :: share :: tail => some ('/' :: '/' :: server ++ '/' :: share, tail)
    | _ => none
  else if validDrivePrefix path && separatorAt path 2 then
    some ((path.take 1).map Char.toUpper ++ [':', '/'], (path.drop 3).splitOnP isSeparator)
  else if separatorAt path 0 then some (['/'], (path.drop 1).splitOnP isSeparator)
  else none

def joinSegments (output : Text) (parts : List Text) : Text :=
  if parts = [] then output
  else (if output.getLast? = some '/' then output else output ++ ['/']) ++ ['/'].intercalate parts

def resolveStep (parts : List Text) (part : Text) : List Text :=
  if part = [] ∨ part = ['.'] then parts
  else if part = ['.', '.'] then parts.dropLast
  else parts ++ [part]

/-- The segments left when `.` and `..` are resolved lexically. -/
def resolve (parts tail : List Text) : List Text := tail.foldl resolveStep parts

def normalizeSegments : Option Text :=
  (splitRoot path).map fun split => joinSegments split.1 (resolve [] split.2)

/-! ### Windows spellings -/

def holdsExpansion (segment : Text) : Bool :=
  segment.any fun c => ['*', '?', '[', ']', '{', '}', '(', ')', '|'].contains c

/-- One segment as Windows reads it; `none` when nothing is left of it. -/
def windowsSegment (segment : Text) : Option Text :=
  if holdsExpansion segment then some segment
  else
    let name := (segment.splitOn ':').headD segment
    let unspaced := trimEndBy (· = ' ') name
    if unspaced = ['.'] ∨ unspaced = ['.', '.'] then some unspaced
    else
      let name := trimEndBy (fun c => c = '.' || c = ' ') name
      if name = [] then none else some name

def startsWithIgnoreCase (text path : Text) : Bool :=
  text.isPrefixOf ((path.take text.length).map Char.toLower)

def providerPrefixes : List String :=
  ["microsoft.powershell.core\\filesystem::", "microsoft.powershell.core/filesystem::",
    "filesystem::"]

def providerOf : Option Text :=
  (providerPrefixes.map String.toList).find? fun text => startsWithIgnoreCase text path

def stripProviders : ℕ → Text → Text
  | 0, path => path
  | fuel + 1, path =>
    match providerOf path with
    | some text => stripProviders fuel (path.drop text.length)
    | none => path

def stripPowershellProvider : Text := stripProviders path.length path

def oneLetter : Text → Bool
  | [c] => c.isAlpha
  | _ => false

/-- What is behind one of the prefixes `\\?\`, `\\.\` and `\??\`. -/
def stripDevice : Text → Option Text
  | '/' :: '/' :: '?' :: '/' :: rest => some rest
  | '/' :: '/' :: '.' :: '/' :: rest => some rest
  | '/' :: '?' :: '?' :: '/' :: rest => some rest
  | _ => none

def undevice : Option Text :=
  match stripDevice path with
  | none => some path
  | some rest =>
    if startsWithIgnoreCase ['u', 'n', 'c', '/'] rest then some ('/' :: '/' :: rest.drop 4)
    else if validDrivePrefix rest then some rest
    else none

def splitSlash : Text × Text :=
  (splitOnce ['/'] path).getD (path, [])

def localShare (server share : Text) : Option Char :=
  if server.map Char.toLower = "localhost".toList ∨ server = "127.0.0.1".toList then
    match share with
    | [letter, '$'] => if letter.isAlpha then some letter else none
    | _ => none
  else none

/-- A path joined to its drive: the path, and the one a native tool reads instead of
Git Bash's `/c/x` and Cygwin's `/cygdrive/c/x`. -/
def rootedSpellings (candidate cwd path : Text) : Option (Text × Option Text) :=
  if ['/', '/'].isPrefixOf path then
    let (server, more) := splitSlash (path.drop 2)
    let (share, rest) := splitSlash more
    match localShare server share with
    | some letter => some (letter :: ':' :: '/' :: rest, none)
    | none => some (path, none)
  else if ['/'].isPrefixOf path then
    let (first, after) := splitSlash (path.drop 1)
    let (second, behind) := splitSlash after
    (splitRoot cwd).map fun split =>
      let native := trimEndBy (· = '/') split.1 ++ path
      let forward := candidate.head? = some '/'
      if forward && oneLetter first then
        (first.map Char.toUpper ++ ':' :: '/' :: after, some native)
      else if forward && first.map Char.toLower = "cygdrive".toList && oneLetter second then
        (second.map Char.toUpper ++ ':' :: '/' :: behind, some native)
      else (native, none)
  else if isAbsolute path then some (path, none)
  else some (join cwd path, none)

def windowsSegments : Option Text :=
  (splitRoot path).map fun split => joinSegments split.1 (split.2.filterMap windowsSegment)

/-- Every path Windows can open for a candidate, its `.` and `..` segments still in place. -/
def windowsSpellings (candidate cwd : Text) : Option (List Text) := do
  let path ← undevice (candidate.map fun c => if c = '\\' then '/' else c)
  let path := if validDrivePrefix path && path.length = 2 then path ++ ['/'] else path
  let (path, alternate) ← rootedSpellings candidate cwd path
  let spelling ← windowsSegments path
  match alternate with
  | none => some [spelling]
  | some native => do
    let other ← windowsSegments native
    some [spelling, other]

def windowsSpelling (candidate cwd : Text) : Option Text :=
  (windowsSpellings candidate cwd).bind List.head?

def normalizeRoot : Option Text :=
  if !isAbsolute path || isDriveRelative path then none
  else if flavorOf path = .windows then (windowsSpelling path []).bind normalizeSegments
  else normalizeSegments path

structure Normalized where
  path : Text
  flavor : Flavor
  deriving DecidableEq

/-- A candidate joined to the working directory when relative, with its flavor, before its
segments are normalized. -/
def candidateRaw (candidate cwd : Text) : Option (List Text × Flavor) :=
  if candidate.all isWhitespace || decide (maxCandidatePathChars < candidate.length) then none
  else (normalizeRoot cwd).bind fun cwd =>
    if flavorOf cwd = .windows then
      let candidate := stripPowershellProvider candidate
      if isDriveRelative candidate then none
      else (windowsSpellings candidate cwd).map fun raws => (raws, .windows)
    else if isDriveRelative candidate then none
    else
      let raw := if isAbsolute candidate then candidate else join cwd candidate
      -- a doubled separator on a POSIX host is no UNC root
      let raw := if ['/', '/'].isPrefixOf raw then '/' :: raw.dropWhile (· = '/') else raw
      some ([raw], flavorOf raw)

/-- Every normalized path a candidate can name; `none` when it is not a usable path. -/
def normalizeCandidates (candidate cwd : Text) : Option (List Normalized) :=
  (candidateRaw candidate cwd).bind fun raws =>
    raws.1.mapM fun raw => (normalizeSegments raw).map fun path => ⟨path, raws.2⟩

def normalizeCandidate (candidate cwd : Text) : Option Normalized :=
  (normalizeCandidates candidate cwd).bind List.head?

def windowsSession (cwd : Text) : Bool :=
  (normalizeRoot cwd).any fun root => flavorOf root = .windows

/-- A word of a Windows shell that names a file the matcher cannot place: drive-relative,
or a device that is no drive and no share. -/
def windowsUnplaceable (word cwd : Text) : Bool :=
  let word := stripPowershellProvider word
  (validDrivePrefix word && !separatorAt word 2) ||
    ((stripDevice (word.map fun c => if c = '\\' then '/' else c)).isSome &&
      ((normalizeRoot cwd).bind fun cwd => windowsSpellings word cwd).isNone)

def commandBase (workdir : Option Text) (cwd : Text) : Text :=
  let windows := workdir.bind fun dir => (normalizeRoot cwd).bind fun root =>
    let dir := stripPowershellProvider dir
    if flavorOf root = .windows ∧ isDriveRelative dir = false then windowsSpelling dir root
    else none
  match windows, workdir with
  | some base, _ => base
  | none, some dir =>
    if isAbsolute dir then dir else if isAbsolute cwd then join cwd dir else cwd
  | none, none => cwd

end Capture
