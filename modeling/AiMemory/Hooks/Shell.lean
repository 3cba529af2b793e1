/-
Shell commands, split into the words that may name a path (`ai-memory-hooks`,
`capture_policy.rs`).

A word that holds more than one word is a script some shell may run, so it is split again,
down to a bounded depth; what is nested deeper is opaque.
-/
import AiMemory.Hooks.Paths
import AiMemory.Hooks.Words
import Mathlib

open Strings

namespace Capture

/-! ### Programs -/

variable (word : Text)

/-- A word's program name: its last path segment, lower-cased, without `.exe`. -/
def commandName : Text :=
  let name := ((word.splitOnP isSeparator).getLastD word).map Char.toLower
  if ".exe".toList.isSuffixOf name then name.take (name.length - 4) else name

def takesShellValue (flag : Text) : Bool :=
  ["--rcfile", "--init-file", "--init-command", "-C"].any (fun value => value.toList = flag) ||
    (1 < flag.length &&
      (flag.head? = some '+' || (flag.head? = some '-' && !(['-', '-'].isPrefixOf flag))) &&
      (flag.getLast? = some 'o' || flag.getLast? = some 'O'))

def scriptShells : List String :=
  ["sh", "bash", "zsh", "dash", "ksh", "mksh", "ash", "yash", "fish", "su", "script"]

def isShellScriptAfter (scriptFlag nearest : Bool) : List Text → Bool
  | [] => false
  | word :: earlier =>
    if word.head? = some '-' then
      let flag := word.drop 1
      isShellScriptAfter (scriptFlag || (flag.head? ≠ some '-' && flag.contains 'c')) false earlier
    else if 1 < word.length && word.head? = some '+' then
      isShellScriptAfter scriptFlag false earlier
    else if earlier.head?.any takesShellValue then isShellScriptAfter scriptFlag false earlier
    else
      let name := commandName word
      (scriptFlag && scriptShells.any fun shell => shell.toList = name) ||
        (nearest && name = "eval".toList)

/-- Whether a word is a script a shell runs: the argument of `sh -c` or `eval`. -/
def isShellScript (words : List Text) (index : ℕ) : Bool :=
  isShellScriptAfter false true (words.take index).reverse

/-- The inline-code letters of an interpreter, and its options that take a value. -/
def inlineOptions (name : Text) : Option (Text × List String) :=
  let versioned := fun (text : String) => text.toList.isPrefixOf name &&
    (name.drop text.toList.length).all fun c => c.isDigit || c = '.'
  let named := fun (names : List String) => names.any fun text => text.toList = name
  if versioned "python" || versioned "pypy" || named ["py"] then
    some (['c'], ["-W", "-X", "--check-hash-based-pycs"])
  else if versioned "perl" then some (['e', 'E'], ["-I", "-M", "-m"])
  else if versioned "ruby" then some (['e'], ["-I", "-r", "-C", "-E"])
  else if named ["node", "nodejs", "bun"] then
    some (['e', 'p'], ["-r", "--require", "--import", "--loader", "--experimental-loader", "-C",
      "--conditions", "--input-type", "--title", "--env-file"])
  else if versioned "php" then some (['r'], ["-d", "-c", "-z"])
  else if named ["lua", "luajit", "rscript", "osascript"] then some (['e'], ["-l"])
  else none

def isInlineFlag (letters flag : Text) : Bool :=
  flag = "--eval".toList || flag = "--print".toList || "--eval=".toList.isPrefixOf flag ||
    "--print=".toList.isPrefixOf flag ||
    (!(['-', '-'].isPrefixOf flag) && (flag.drop 1).any (letters.contains ·))

def inlineFlags (letters : Text) (values : List String) : List Text → Bool
  | [] => false
  | flag :: rest =>
    if flag.head? ≠ some '-' then false
    else if isInlineFlag letters flag then true
    else if values.any (fun value => value.toList = flag) then
      match rest with
      | [] => false
      | _ :: rest => inlineFlags letters values rest
    else inlineFlags letters values rest

def runsInlineCode : List Text → Bool
  | [] => false
  | word :: rest =>
    (match inlineOptions (commandName word) with
      | some (letters, values) => inlineFlags letters values rest
      | none => commandName word = "deno".toList && rest.head? = some "eval".toList) ||
    runsInlineCode rest

/-- The operand up to its closing `}`, and what is behind it. -/
def operandEnd : ℕ → Text → Option (Text × Text)
  | _, [] => none
  | depth, c :: rest =>
    if c = '}' ∧ depth = 0 then some ([], rest)
    else
      let depth := if c = '{' then depth + 1 else if c = '}' then depth - 1 else depth
      (operandEnd depth rest).map fun parts => (c :: parts.1, parts.2)

def isNameChar (c : Char) : Bool := c.isAlphanum || c = '_'

/-- The operand of a parameter default behind its `${`, and what follows. -/
def parameterDefault (body : Text) : Option (Text × Text) :=
  let name := body.takeWhile isNameChar
  let after := body.dropWhile isNameChar
  let operator :=
    if [':', '-'].isPrefixOf after || [':', '='].isPrefixOf after || [':', '+'].isPrefixOf after then 2
    else if after.head? = some '-' || after.head? = some '=' || after.head? = some '+' then 1
    else 0
  if name = [] ∨ operator = 0 then none else operandEnd 0 (after.drop operator)

def replaceOperands : ℕ → Text → Text × Bool
  | 0, word => (word, false)
  | fuel + 1, word =>
    match splitOnce ['$', '{'] word with
    | none => (word, false)
    | some (before, body) =>
      match parameterDefault body with
      | some (operand, rest) => (before ++ operand ++ (replaceOperands fuel rest).1, true)
      | none =>
        let found := replaceOperands fuel body
        (before ++ ['$', '{'] ++ found.1, found.2)

def replaceParameterOperands : Option Text :=
  let found := replaceOperands word.length word
  if found.2 then some found.1 else none

def maxShellNesting : ℕ := 4

def operandRounds : ℕ → Text → Text × Bool
  | 0, word => (word, (replaceParameterOperands word).isSome)
  | rounds + 1, word =>
    match replaceParameterOperands word with
    | some next => operandRounds rounds next
    | none => (word, false)

def parameterOperands : Option (Text × Bool) :=
  (replaceParameterOperands word).map (operandRounds (maxShellNesting - 1))

/-! ### Words of a command -/

structure LiteralGroups where
  parens : Bool
  braces : Bool

def LiteralGroups.and (a b : LiteralGroups) : LiteralGroups :=
  ⟨a.parens && b.parens, a.braces && b.braces⟩

structure ShellWords where
  /-- each with whether a `~` in it names a directory -/
  words : List (Text × Bool)
  literal : List (Text × LiteralGroups)
  isOpaque : Bool
  /-- the words of opaque scripts, as the shell expands them -/
  expanded : List (Text × Bool)

namespace ShellWords

def empty : ShellWords := ⟨[], [], false, []⟩

def addLiteral (word : Text) (literal : LiteralGroups) :
    List (Text × LiteralGroups) → List (Text × LiteralGroups)
  | [] => [(word, literal)]
  | entry :: rest =>
    if entry.1 = word then (word, entry.2.and literal) :: rest
    else entry :: addLiteral word literal rest

def addWord (split : ShellWords) (word : Text) (tilde : Bool) (literal : LiteralGroups) :
    ShellWords :=
  { split with
    words := split.words ++ [(word, tilde)]
    literal := addLiteral word literal split.literal }

def pushWordReading (split : ShellWords) (word : Text) (marks : Marks) : ShellWords :=
  let literal : LiteralGroups := ⟨true, !marks.bareBrace⟩
  let split := split.addWord word marks.tilde literal
  match parameterOperands word with
  | none => split
  | some (operands, exhausted) =>
    let split := split.addWord operands marks.tilde literal
    { split with isOpaque := split.isOpaque || exhausted }

def pushWord (split : ShellWords) (word : Text) (marks : Marks) : ShellWords :=
  let split := split.pushWordReading word marks
  if word.contains '\\' && withoutBackslashEscapes word ≠ word then
    split.pushWordReading (withoutBackslashEscapes word) marks
  else split

def markOpaque (split : ShellWords) (found : Bool) : ShellWords :=
  { split with isOpaque := split.isOpaque || found }

def expandedWords (script : Text) : List (Text × Bool) :=
  (tokenize script true false).map fun token => (token.1, token.2.tilde)

def noteScript (split : ShellWords) (script : Text) : ShellWords :=
  if hasUnevaluatedExpansion script then
    { split with isOpaque := true, expanded := split.expanded ++ expandedWords script }
  else split

end ShellWords

def literalMarks (tokens : List (Text × Marks)) (script : Bool) : List (Text × Marks) :=
  if script then tokens else tokens.map fun token => (token.1, .none)

def isAtom (literal : Bool) : Bool :=
  match splitWords word literal with
  | [token] => token.1 = word
  | _ => false

def runsScript (texts : List Text) (index : ℕ) (word : Text) : Bool :=
  (splitOnce ['$', '('] word).isSome || word.contains '\x60' || isShellScript texts index

def pushNestedWords (literal : Bool) :
    ℕ → List (Text × Marks) → ShellWords → ShellWords
  | 0, words, split =>
    let texts := words.map Prod.fst
    words.foldl
      (fun split token =>
        (split.pushWord token.1 token.2).markOpaque (!isAtom token.1 literal))
      (split.markOpaque (runsInlineCode texts))
  | depth + 1, words, split =>
    let texts := words.map Prod.fst
    words.zipIdx.foldl
      (fun split entry =>
        let (word, marks) := entry.1
        let split := split.pushWord word marks
        if isAtom word literal then split
        else
          let script := runsScript texts entry.2 word
          let split := if script then split.noteScript word else split
          pushNestedWords literal depth (literalMarks (splitWords word literal) script) split)
      (split.markOpaque (runsInlineCode texts))

inductive ShellCommand
  | line (command : Text)
  | argv (items : List Text)
  deriving DecidableEq

def maxShellCommandChars : ℕ := 1024 * 1024

def maxArgvPathChars : ℕ := 256

def ShellCommand.oversized : ShellCommand → Bool
  | .line command => decide (maxShellCommandChars < command.length)
  | .argv items => decide (maxShellCommandChars < (items.map List.length).sum)

def pushArgvItem (item : Text) (script literal : Bool) (split : ShellWords) : ShellWords :=
  let tokens := splitWords item literal
  if isAtom item literal then
    split.pushWord item ⟨false, script && tokens.any fun token => token.2.bareBrace⟩
  else
    let split := if item.length ≤ maxArgvPathChars then
      split.addWord item false ⟨!script, !script⟩ else split
    pushNestedWords literal (maxShellNesting - 1) (literalMarks tokens script) split

variable (windows : Bool)

/-- The readings of one command line or argument: as written, without Windows escapes, and
each with its backslashes kept. -/
def commandReadings (text : Text) : List (Text × Bool) :=
  let texts := text :: (if windows then (withoutWindowsEscapes text).toList else [])
  texts.flatMap fun text =>
    if windows && text.contains '\\' then [(text, false), (text, true)] else [(text, false)]

/-! ### Arguments -/

def namesUnknownDirectory : Text → Bool
  | '~' :: rest =>
    let head := (rest.splitOnP isSeparator).headD rest
    head ≠ [] && head ≠ ['+']
  | _ => false

/-- A leading `~/` as the home directory, and `~+` as the working directory. -/
def expandTilde (argument : Text) (tilde : Bool) (home : Option Text)
    (cwd : Text) : Text :=
  if !tilde then argument
  else
    match argument, home with
    | '~' :: '/' :: rest, some home => join home rest
    | '~' :: '\\' :: rest, some home => join home rest
    | ['~', '+'], _ => cwd
    | '~' :: '+' :: '/' :: rest, _ => join cwd rest
    | _, _ => argument

/-- The path of a git object name such as `HEAD:docs/x.md`. -/
def gitObjectPath : Option Text :=
  if word.head? = some '-' then none
  else (splitOnce [':'] word).bind fun parts =>
    let (revision, path) := parts
    let path :=
      if revision = [] then
        match path with
        | stage :: ':' :: rest => if '0' ≤ stage ∧ stage ≤ '3' then rest else path
        | _ => path
      else path
    let shaped := revision.all fun c => c.isAlphanum ||
      ['.', '_', '-', '/', '~', '^', '@', '{', '}'].contains c
    if !oneLetter revision && shaped && !(['/', '/'].isPrefixOf path) then some path else none

def hexValue (c : Char) : Option ℕ := toDigit 16 c

def percentDecode : Text → Text
  | '%' :: high :: low :: rest =>
    match hexValue high, hexValue low with
    | some h, some l =>
      if h * 16 + l < 128 then Char.ofNat (h * 16 + l) :: percentDecode rest
      else '%' :: percentDecode (high :: low :: rest)
    | _, _ => '%' :: percentDecode (high :: low :: rest)
  | c :: rest => c :: percentDecode rest
  | [] => []

/-- The local path a `file:` URL names. -/
def fileUrlPath (argument : Text) : Option Text :=
  if startsWithIgnoreCase "file:".toList argument then
    let rest := (argument.drop 5).takeWhile fun c => c ≠ '?' && c ≠ '#'
    let path := match rest with
      | '/' :: '/' :: authority =>
        if authority.contains '/' then some (authority.dropWhile (· ≠ '/')) else none
      | _ => some rest
    path.map fun path =>
      -- `file:///C:/x` names the drive path
      match path with
      | '/' :: drive => percentDecode (if validDrivePrefix drive then drive else path)
      | _ => percentDecode path
  else none

/-- Path-like values carried by one shell word, each with whether git resolves it from the
repository root. -/
def shellArguments : List (Text × Bool) :=
  let flag := word.head? = some '-'
  let itself := if flag then [] else [(word, false)]
  let value := match splitOnce ['='] word with
    | some parts => [(parts.2, false)]
    | none => if flag then ((splitOnce [':'] word).toList.map fun parts => (parts.2, false)) else []
  let cluster := if flag && (word.drop 1).head? ≠ some '-' && (word.drop 2) ≠ [] then
    [(word.drop 2, false)] else []
  let object := (gitObjectPath word).toList.map fun path => (path, true)
  let arguments := itself ++ value ++ cluster ++ object
  let urls := (arguments.filterMap fun argument => fileUrlPath argument.1).map fun path =>
    (path, false)
  (arguments ++ urls).filter fun argument => !argument.1.all isWhitespace

def splitLine (command : Text) : ShellWords :=
  (commandReadings windows command).foldl
    (fun split reading =>
      pushNestedWords reading.2 maxShellNesting (splitWords reading.1 reading.2) split)
    (ShellWords.empty.noteScript command)

def splitArgv (items : List Text) : ShellWords :=
  let noted := items.foldl ShellWords.noteScript ShellWords.empty
  items.zipIdx.foldl
    (fun split entry =>
      (commandReadings windows entry.1).foldl
        (fun split reading => pushArgvItem reading.1 (isShellScript items entry.2) reading.2 split)
        split)
    (noted.markOpaque (runsInlineCode items))

def ShellCommand.split (command : ShellCommand) (windows : Bool) : ShellWords :=
  let split := match command with
    | .line command => splitLine windows command
    | .argv items => splitArgv windows items
  -- PowerShell resolves `~` in a path itself, quoted or not
  let words := if windows then split.words.map fun word => (word.1, true) else split.words
  { split with
    words := words
    isOpaque := split.isOpaque || words.any fun word =>
      word.2 && (shellArguments word.1).any fun argument => namesUnknownDirectory argument.1 }

end Capture
