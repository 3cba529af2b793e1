/-
Ignore patterns, compiled and matched (`ai-memory-hooks`, `capture_policy.rs`).

A marker's `ignore_paths` become absolute patterns, or the policy is invalid.  Matching is
charged to one budget per inspection; past it nothing is proven.
-/
import AiMemory.Hooks.Globs
import AiMemory.Hooks.Readings

open Strings

namespace Capture

/-! ### Patterns -/

/-- Maximum number of `ignore_paths` entries. -/
def maxIgnorePatterns : ℕ := 128

def maxIgnorePatternChars : ℕ := 1024

structure CompiledPattern where
  path : Text
  flavor : Flavor
  directoryBase : Option Text
  /-- whole segments before the first glob; a matching path must start here -/
  literalPrefix : Text
  deriving DecidableEq

inductive PatternError
  | tooMany
  | badMarker
  | noHome
  | blank (source : Text)
  | tooLong (source : Text)
  | unsupportedGlob (source : Text)
  | expansion (source : Text)
  | stars (source : Text)
  | parentSegment (source : Text)
  | otherHome (source : Text)
  | driveRelative (source : Text)
  | posixInWindows (source : Text)
  | notNormalized (source : Text)

def unsupportedGlobChars : Text := ['!', '{', '}', '[', ']', '(', ')', '|', '^', '$', '%']

def homePrefix : Text := ['~', '/']

def validateGlob (pattern : Text) : Except PatternError Unit :=
  if pattern.all isWhitespace then .error (.blank pattern)
  else if maxIgnorePatternChars < pattern.length then .error (.tooLong pattern)
  else if pattern.any (unsupportedGlobChars.contains ·) then .error (.unsupportedGlob pattern)
  else if (splitOnce ['$', '{'] pattern).isSome then .error (.expansion pattern)
  else if (splitOnce ['*', '*', '*'] pattern).isSome then .error (.stars pattern)
  else if (pattern.splitOnP isSeparator).contains dotdot then .error (.parentSegment pattern)
  else if pattern.head? = some '~' && !homePrefix.isPrefixOf pattern then
    .error (.otherHome pattern)
  else if isDriveRelative pattern then .error (.driveRelative pattern)
  else .ok ()

/-- The directory a `dir/**` pattern also names. -/
def directoryBaseOf (path : Text) : Option Text :=
  if ['/', '*', '*'].isSuffixOf path then
    let base := path.take (path.length - 3)
    some (if base = [] then ['/'] else base)
  else none

def compilePattern (marker : Text) (home : Option Text) (source : Text) :
    Except PatternError CompiledPattern := do
  validateGlob source
  let expanded ←
    if homePrefix.isPrefixOf source then
      match home with
      | none => .error .noHome
      | some home => .ok (join home (source.drop 2))
    else if isAbsolute source then .ok source
    else .ok (join marker source)
  let flavor := flavorOf expanded
  if flavor = .posix ∧ flavorOf marker = .windows then .error (.posixInWindows source)
  else
    let spelled := if flavor = .windows then windowsSpelling expanded [] else some expanded
    match spelled.bind normalizeSegments with
    | none => .error (.notNormalized source)
    | some path => .ok ⟨path, flavor, directoryBaseOf path, Capture.literalPrefix path⟩

def compile (ignorePaths : List Text) (markerDir : Text)
    (homeDir : Option Text) : Except PatternError (List CompiledPattern) :=
  if maxIgnorePatterns < ignorePaths.length then .error .tooMany
  else match normalizeRoot markerDir with
  | none => .error .badMarker
  | some marker =>
    if ignorePaths.any (homePrefix.isPrefixOf ·) then
      match homeDir.bind normalizeRoot with
      | none => .error .noHome
      | some home => ignorePaths.mapM (compilePattern marker (some home))
    else ignorePaths.mapM (compilePattern marker none)

def CompiledPattern.folded (U : Unicode) (pattern : CompiledPattern) : CompiledPattern :=
  let path := U.foldPath pattern.path
  ⟨path, pattern.flavor, pattern.directoryBase.map U.foldPath, Capture.literalPrefix path⟩

def CompiledPattern.matchCost (pattern : CompiledPattern) (candidate : Text) : ℕ :=
  (pattern.path.length + pattern.directoryBase.elim 0 List.length) * candidate.length

/-! ### Policies -/

inductive PolicyState
  | inactive | active | invalid
  deriving DecidableEq

inductive CaptureSource
  | absent
  | parsed (ignorePaths : List Text)
  | invalid

structure CapturePolicy where
  state : PolicyState
  patterns : List CompiledPattern
  home : Option Text
  /-- the marker directory, where git resolves an object name -/
  root : Option Text
  foldCase : Bool

namespace CapturePolicy

def inactive : CapturePolicy := ⟨.inactive, [], none, none, false⟩

variable (U : Unicode)

def resolveForHost (source : CaptureSource) (markerDir : Text)
    (homeDir : Option Text) (foldCase : Bool) : CapturePolicy :=
  match source with
  | .absent => inactive
  | .invalid => ⟨.invalid, [], none, none, foldCase⟩
  | .parsed ignorePaths =>
    if ignorePaths = [] then inactive
    else match compile ignorePaths markerDir homeDir with
    | .error _ => ⟨.invalid, [], none, none, foldCase⟩
    | .ok patterns =>
      ⟨.active, if foldCase then patterns.map (CompiledPattern.folded U) else patterns,
        homeDir.bind normalizeRoot, normalizeRoot markerDir, foldCase⟩

variable (policy : CapturePolicy) (candidate : Normalized)

def foldCandidate : Normalized :=
  if policy.foldCase then ⟨U.foldPath candidate.path, candidate.flavor⟩ else candidate

def patternsFor : List CompiledPattern :=
  policy.patterns.filter fun pattern => pattern.flavor = candidate.flavor

def matchLiteral (insensitive : Bool) (candidate : Normalized) :
    List CompiledPattern → Budget Bool
  | [] => return false
  | pattern :: rest => do
    charge (pattern.matchCost candidate.path)
    if globMatch pattern.path candidate.path pattern.directoryBase
        (pattern.flavor = .windows || insensitive) then return true
    else matchLiteral insensitive candidate rest

def matchCandidates (U : Unicode) (policy : CapturePolicy) : List Normalized → Budget Bool
  | [] => return false
  | candidate :: rest => do
    let candidate := policy.foldCandidate U candidate
    if ← matchLiteral policy.foldCase candidate (policy.patternsFor candidate) then return true
    else matchCandidates U policy rest

def matchPaths (paths : List Text)
    (cwd : Text) : Option Bool := do
  let candidates ← paths.mapM fun path => normalizeCandidates path cwd
  let matched ← (matchCandidates U policy candidates.flatten).run 0
  return matched.1

def matchPattern (toolGlob foldCase : Bool) (candidate : Normalized) :
    List CompiledPattern → Budget Bool
  | [] => return false
  | pattern :: rest => do
    let insensitive := toolGlob || candidate.flavor = .windows || foldCase
    let isGlob := candidate.path.any isGlobChar
    -- a directory entry of `read_many_files` is read as `entry/**`
    let directory := toolGlob && !isGlob
    let underPrefix := startsWithChars candidate.path pattern.literalPrefix insensitive
    if !underPrefix && !isGlob && !directory then matchPattern toolGlob foldCase candidate rest
    else
      charge (pattern.matchCost candidate.path +
        if directory then pattern.matchCost candidate.path else 0)
      if (underPrefix && globMatch pattern.path candidate.path pattern.directoryBase insensitive) ||
          (isGlob && globstarReaches candidate.path pattern.literalPrefix insensitive) ||
          (directory && globMatchesBelow pattern.path candidate.path insensitive) then return true
      else matchPattern toolGlob foldCase candidate rest

/-- Whether one normalized candidate names or can expand into an ignored path. -/
def matchPatternCandidate
    (toolGlob : Bool) : Budget Bool :=
  let candidate := policy.foldCandidate U candidate
  matchPattern toolGlob policy.foldCase candidate (policy.patternsFor candidate)

def matchReadings (U : Unicode) (policy : CapturePolicy) (toolGlob : Bool) :
    List Normalized → Budget Bool
  | [] => return false
  | candidate :: rest => do
    if ← policy.matchPatternCandidate U candidate toolGlob then return true
    else matchReadings U policy toolGlob rest

def holdsToolSyntax (path : Text) : Bool :=
  path.any fun c => ['[', ']', '{', '}', '(', ')', '!'].contains c

def matchGlobsFrom (U : Unicode) (policy : CapturePolicy) (cwd : Text) :
    List Text → Budget Bool
  | [] => return false
  | path :: rest =>
    if holdsToolSyntax path then fun _ => none
    else match normalizeReadings U path cwd with
    | some (some readings) => do
      if ← policy.matchReadings U true readings then return true
      else matchGlobsFrom U policy cwd rest
    | _ => fun _ => none

/-- Whether one of the globs of `read_many_files` can expand to an ignored path. -/
def matchGlobs (paths : List Text)
    (cwd : Text) : Option Bool :=
  ((policy.matchGlobsFrom U cwd paths).run 0).map Prod.fst

end CapturePolicy

def ignoring (ignorePaths : List String) (marker : String) : CapturePolicy :=
  CapturePolicy.resolveForHost asciiUnicode (.parsed (ignorePaths.map String.toList)) marker.toList
    none false

end Capture
