/-
The capture decision (`ai-memory-hooks`, `capture_policy.rs`).

A tool event is kept, reduced to metadata, or dropped.  Under an active policy a file tool is
dropped when one of its paths is ignored, and a shell command when one of its words can name
an ignored path; what cannot be proven either way is reduced to metadata.

* `CapturePolicy.inspect` — the decision.
-/
import AiMemory.Hooks.Extract
import AiMemory.Hooks.Policy

open Strings

namespace Capture

open Json (Value)

inductive CaptureDisposition
  | keep | drop | metadataOnly
  deriving DecidableEq

structure CaptureProtocol where
  disposition : CaptureDisposition
  policyState : PolicyState
  toolFamily : ToolFamily
  pathCount : ℕ
  extractionState : ExtractionState

/-- An inspection result; it never retains arguments, paths or arbitrary tool names. -/
structure CaptureDecision where
  protocol : CaptureProtocol
  identity : ToolFamily
  callId : Option String

namespace CapturePolicy

/-! ### Shell commands -/

/-- What the words so far left open: a saved output, drive-relative words, and the POSIX
readings of the words that could be placed. -/
structure Leftover where
  spool : Bool
  driveRelative : List Text
  placed : List Text

def Leftover.unproven (left : Leftover) : Bool :=
  left.spool || left.driveRelative.any fun word => !left.placed.contains word

def matchWordReadings (U : Unicode) (policy : CapturePolicy) :
    List Normalized → Bool → Budget (Bool × Bool)
  | [], spool => return (false, spool)
  | candidate :: rest, spool => do
    let spool := (← outputSpool candidate.path) || spool
    if ← policy.matchPatternCandidate U candidate false then return (true, spool)
    else matchWordReadings U policy rest spool

def matchBases (U : Unicode) (policy : CapturePolicy) (expanded : Text) :
    List Text → Bool → Budget (Bool × Bool)
  | [], spool => return (false, spool)
  | base :: rest, spool =>
    match normalizeReadings U expanded base with
    | none => fun _ => none
    | some none => matchBases U policy expanded rest spool
    | some (some readings) => do
      let (matched, spool) ← policy.matchWordReadings U readings spool
      if matched then return (true, spool) else matchBases U policy expanded rest spool

def noteWindows (expanded cwd : Text) (left : Leftover) : Leftover :=
  if !windowsSession cwd then left
  else if !windowsUnplaceable expanded cwd then
    if expanded.contains '\\' then
      { left with placed := withoutBackslashEscapes expanded :: left.placed }
    else left
  else if validDrivePrefix (stripPowershellProvider expanded) then
    { left with driveRelative := left.driveRelative ++ [expanded] }
  else { left with spool := true }

def matchArguments (U : Unicode) (policy : CapturePolicy) (cwd : Text) (tilde : Bool) :
    List (Text × Bool) → Leftover → Budget (Bool × Leftover)
  | [], left => return (false, left)
  | (argument, fromRoot) :: rest, left => do
    let expanded := expandTilde argument tilde policy.home cwd
    let left := noteWindows expanded cwd left
    -- git reads `REV:path` from the repository root, which the marker approximates
    let root := if fromRoot && !isAbsolute expanded then policy.root.toList else []
    let (matched, spool) ← policy.matchBases U expanded (cwd :: root) left.spool
    let left := { left with spool := spool }
    if matched then return (true, left) else matchArguments U policy cwd tilde rest left

def matchWords (U : Unicode) (policy : CapturePolicy) (cwd : Text) :
    List (Text × Bool) → Leftover → Budget (Bool × Leftover)
  | [], left => return (false, left)
  | (word, tilde) :: rest, left => do
    let (matched, left) ← policy.matchArguments U cwd tilde (shellArguments word) left
    if matched then return (true, left) else matchWords U policy cwd rest left

variable (U : Unicode) (policy : CapturePolicy)

/-- Whether a word of a command is ignored, and whether one leaves the miss unproven. -/
def matchCommand (words : List (Text × Bool))
    (cwd : Text) : Option (Bool × Bool) :=
  ((policy.matchWords U cwd words ⟨false, [], []⟩).run 0).map fun found =>
    (found.1.1, if found.1.1 then found.1.2.spool else found.1.2.unproven)

def spooledReadings : List Normalized → Budget Bool
  | [] => return false
  | candidate :: rest => do
    if ← outputSpool candidate.path then return true else spooledReadings rest

/-- Whether a path of a file tool is a saved output; past the budget nothing is proven. -/
def spooled (globs : Bool) (paths : List Text) (cwd : Text) : Bool :=
  let readings := paths.flatMap fun path =>
    if globs then ((normalizeReadings U path cwd).getD none).getD []
    else (normalizeCandidates path cwd).getD []
  (((spooledReadings readings).run 0).map Prod.fst).getD true

def inspectFile (globs : Bool)
    (paths : Option (List Text)) (cwd : Text) : CaptureDisposition × ExtractionState :=
  match paths with
  | none => (.metadataOnly, .missingOrMalformed)
  | some paths =>
    if paths.any fun path => (normalizeCandidate path cwd).isNone then
      (.metadataOnly, .missingOrMalformed)
    else
      match if globs then policy.matchGlobs U paths cwd else policy.matchPaths U paths cwd with
      | some true => (.drop, .extracted)
      | some false => if spooled U globs paths cwd then (.metadataOnly, .extracted)
        else (.keep, .extracted)
      | none => (.metadataOnly, .missingOrMalformed)

def inspectCommand (command : ShellCommand)
    (workdir : Option Text) (powershell : Bool) (cwd : Text) : CaptureDisposition :=
  let base := commandBase workdir cwd
  -- a Windows shell started in a directory the matcher cannot place
  let unplaced := windowsSession cwd && workdir.any fun dir => windowsUnplaceable dir cwd
  let split := command.split (powershell || flavorOf cwd = .windows)
  match policy.matchCommand U split.words base with
  | none => .drop
  | some (true, _) => .drop
  | some (false, spool) => if split.isOpaque || spool || unplaced then .metadataOnly else .keep

def inspectExtracted (extracted : Extracted)
    (cwd : Text) : CaptureDisposition × ExtractionState :=
  match policy.state with
  | .inactive => (.keep, extracted.state)
  | .invalid =>
    if extracted.family = .file || extracted.family = .searchList || extracted.shell ||
        extracted.outputReader then (.metadataOnly, extracted.state)
    else (.keep, extracted.state)
  | .active =>
    if extracted.outputReader then (.metadataOnly, extracted.state)
    else match extracted.family with
    | .searchList => (.drop, .notApplicable)
    | .file => policy.inspectFile U extracted.globs extracted.paths cwd
    | .nonFile =>
      if extracted.inlineCode || extracted.command.any ShellCommand.oversized then
        (.metadataOnly, extracted.state)
      else
        match extracted.command with
        | none => (.keep, extracted.state)
        | some command =>
          (policy.inspectCommand U command extracted.workdir extracted.powershell cwd,
            extracted.state)
    | .unknown => (.keep, extracted.state)

def inspect (agent : AgentKind) (raw : Value)
    (cwd : Text) : CaptureDecision :=
  let extracted := extract agent raw
  let decided := policy.inspectExtracted U extracted cwd
  { protocol :=
      { disposition := decided.1
        policyState := policy.state
        toolFamily := extracted.family
        pathCount := extracted.paths.elim 0 fun paths => min paths.length 65535
        extractionState := decided.2 }
    identity := extracted.family
    callId := extracted.callId }

end CapturePolicy

end Capture
