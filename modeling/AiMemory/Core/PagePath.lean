/-
Paths of wiki pages (`ai-memory-core`, `ids.rs`).

A page path is relative, uses `/`, and has no segment that is empty or made of dots.
Where a new path enters the system it must also be a file name on every platform.

* `PagePath.ensurePortable` — the check of each component.
-/
import AiMemory.Lib.Strings
import AiMemory.Lib.Utf8

open Strings Utf8

namespace Wiki

/-- `std::path::Component`, on a system whose paths have no drive. -/
inductive Component
  | rootDir | curDir | parentDir
  | normal (name : Text)

/-- `Path::components`: repeated separators and inner `.` segments are dropped. -/
def components (raw : Text) : List Component :=
  let segments := raw.splitOn '/'
  (if raw.head? = some '/' then [.rootDir]
    else if segments.head? = some ['.'] then [.curDir] else []) ++
  segments.filterMap fun segment =>
    if segment = [] ∨ segment = ['.'] then none
    else if segment = ['.', '.'] then some .parentDir
    else some (.normal segment)

inductive PathFault
  | empty | leadingSlash | drivePrefix | backslash | dotSegment | absolute | invalidSegment
  | tooLong (component : Text)
  | reservedChar (component : Text) (bad : Char)
  | controlChar (component : Text) (bad : Char)
  | trailingDotOrSpace (component : Text)
  | deviceName (component stem : Text)
  | gitReserved (component : Text)
  deriving DecidableEq

/-- `MemoryError::InvalidPagePath`. -/
structure InvalidPagePath where
  raw : Text
  fault : PathFault
  deriving DecidableEq

def isDotSegment (segment : Text) : Bool :=
  segment = [] || segment = ['.'] || segment = ['.', '.']

structure PagePath where
  chars : Text
  noBackslash : '\\' ∉ chars
  plain : ∀ segment ∈ chars.splitOn '/', isDotSegment segment = false
  deriving DecidableEq

namespace PagePath

/-- The bytes `C:/` at the front of a path. -/
def hasDrivePrefix : Text → Bool
  | letter :: ':' :: '/' :: _ => letter.isAlpha
  | _ => false

def new (raw : Text) : Except InvalidPagePath PagePath :=
  if raw = [] then .error ⟨raw, .empty⟩
  else if raw.head? = some '/' then .error ⟨raw, .leadingSlash⟩
  else if hasDrivePrefix raw then .error ⟨raw, .drivePrefix⟩
  else if hslash : '\\' ∈ raw then .error ⟨raw, .backslash⟩
  else
    -- the first component that is not a name decides the refusal
    match (components raw).find? fun c => match c with | .normal _ => false | _ => true with
    | some .rootDir => .error ⟨raw, .absolute⟩
    | some _ => .error ⟨raw, .dotSegment⟩
    | none =>
      if hplain : ∀ segment ∈ raw.splitOn '/', isDotSegment segment = false then
        .ok ⟨raw, hslash, hplain⟩
      else .error ⟨raw, .invalidSegment⟩

lemma new_ok {raw : Text} {path : PagePath} (h : new raw = .ok path) : path.chars = raw := by
  unfold new at h
  by_cases hempty : raw = []
  · rw [if_pos hempty] at h; cases h
  rw [if_neg hempty] at h
  by_cases hhead : raw.head? = some '/'
  · rw [if_pos hhead] at h; cases h
  rw [if_neg hhead] at h
  by_cases hdrive : hasDrivePrefix raw
  · rw [if_pos hdrive] at h; cases h
  rw [if_neg hdrive] at h
  by_cases hslash : '\\' ∈ raw
  · rw [dif_pos hslash] at h; cases h
  rw [dif_neg hslash] at h
  split at h
  · cases h
  · cases h
  · split at h
    · cases h
      rfl
    · cases h

/-! ### Portable names -/

def dosDeviceNames : List String :=
  ["con", "prn", "aux", "nul", "com1", "com2", "com3", "com4", "com5", "com6", "com7", "com8",
    "com9", "com¹", "com²", "com³", "lpt1", "lpt2", "lpt3", "lpt4", "lpt5", "lpt6", "lpt7", "lpt8",
    "lpt9", "lpt¹", "lpt²", "lpt³"]

def isDosDeviceName (stem : Text) : Bool :=
  dosDeviceNames.any fun name => name.toList = (trimEndBy (· = ' ') stem).map Char.toLower

def windowsReservedChars : Text := ['<', '>', ':', '"', '|', '?', '*']

/-- Longest file name, in UTF-8 bytes, that every supported filesystem stores. -/
def maxPortableComponentBytes : ℕ := 255

/-- `.git` in any case, or one of its short-name aliases `git~1` to `git~4`. -/
def isGitReservedComponent (component : Text) : Bool :=
  match component.map Char.toLower with
  | ['.', 'g', 'i', 't'] => true
  | ['g', 'i', 't', '~', digit] => decide ('1' ≤ digit ∧ digit ≤ '4')
  | _ => false

def componentFault (component : Text) : Option PathFault :=
  if maxPortableComponentBytes < byteLen component then some (.tooLong component)
  else match component.find? (windowsReservedChars.contains ·) with
  | some bad => some (.reservedChar component bad)
  | none => match component.find? (·.toNat < 0x20) with
    | some bad => some (.controlChar component bad)
    | none =>
      if component.getLast? = some '.' ∨ component.getLast? = some ' ' then
        some (.trailingDotOrSpace component)
      else
        let stem := (component.splitOn '.').headD component
        if isDosDeviceName stem then some (.deviceName component stem)
        else if isGitReservedComponent component then some (.gitReserved component)
        else none

def ensurePortable (path : PagePath) : Except InvalidPagePath Unit :=
  match (path.chars.splitOn '/').findSome? componentFault with
  | some fault => .error ⟨path.chars, fault⟩
  | none => .ok ()

def str (path : PagePath) : String := String.ofList path.chars

end PagePath

def portablePath (raw : Text) : Except InvalidPagePath PagePath := do
  let path ← PagePath.new raw
  path.ensurePortable
  return path

end Wiki
