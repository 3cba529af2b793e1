/-
Which project a repository's captures go to (`ai-memory-store/src/ops.rs`,
`project_coordinates.rs`; `ai-memory-core/src/repository_identity.rs`).

A repository is known by its identity, such as the normalised URL of its remote;
a project carries at most one.  A capture is routed by identity first, then by
name, and a project without an identity takes the one of the first caller that
may write to it.  Every function is one transaction of the source; an error is
its rollback.

`char::is_alphanumeric` is a parameter.
-/
import Mathlib.Data.List.Sort
import AiMemory.Store.Projects

open Table Runs
open Strings (isWhitespace)

namespace Projects

open Store

/-! ### Identities and their names -/

structure RepositoryIdentity where
  identity : String
  source : IdentitySource
  nonempty : identity ≠ ""

inductive IdentityStyle
  | path | hostPath
  deriving DecidableEq

/-- `char::is_alphanumeric`. -/
structure NameCodec where
  alphanumeric : Char → Bool
  plain : ∀ c, alphanumeric c = true → c ≠ '/' ∧ isWhitespace c = false

def segments (s : Text) : List Text := (s.splitOn '/').filter (· ≠ [])

/-- `split_once('/')`: what follows the first slash. -/
def afterSlash (s : Text) : Option Text :=
  if '/' ∈ s then some ((s.dropWhile (· ≠ '/')).drop 1) else none

def styledKey (i : RepositoryIdentity) (style : IdentityStyle) : Text :=
  if style = .hostPath ∨ i.source ≠ .gitRemote then i.identity.toList
  else match afterSlash i.identity.toList with
    | some path => if path = [] then i.identity.toList else path
    | none => i.identity.toList

/-- `trim_matches('-')`. -/
def trimDashes (s : Text) : Text :=
  ((s.dropWhile (· = '-')).reverse.dropWhile (· = '-')).reverse

variable (N : NameCodec)

def pushNameChar (out : Text) (c : Char) : Text :=
  let c := if N.alphanumeric c || c = '-' || c = '_' || c = '.' then c else '-'
  if c = '-' ∧ out.getLast? = some '-' then out else out ++ [c]

/-- Characters a project name cannot carry become `-`. -/
def projectNameFrom (raw : Text) : String :=
  let out := trimDashes (raw.foldl (pushNameChar N) [])
  if out = [] then "repository" else String.ofList out

def splitNameBase (identity : String) : String :=
  let segs := segments identity.toList
  projectNameFrom N (['-'].intercalate (segs.drop (segs.length - 2)))

def pathStyleName (i : RepositoryIdentity) : Option String :=
  if i.source ≠ .gitRemote then none
  else some (projectNameFrom N (['-'].intercalate (segments (styledKey i .path))))

def legacyBasenameName (i : RepositoryIdentity) : Option String :=
  if i.source ≠ .gitRemote then none
  else (segments i.identity.toList).getLast?.map (projectNameFrom N)

/-! ### Coordinates -/

structure MatchProvenance where
  exact : Bool
  canonicalCompat : Bool
  legacyCompat : Bool
  identity : Bool
  canonicalTarget : Bool

def MatchProvenance.requested (m : MatchProvenance) : Bool :=
  m.exact || m.canonicalCompat || m.legacyCompat

structure ProjectCoordinateMatch where
  project : Project
  provenance : MatchProvenance

/-- `ORDER BY identity_match DESC, exact_match DESC, requested DESC, id`. -/
def ProjectCoordinateMatch.rank (m : ProjectCoordinateMatch) : ℕ :=
  (if m.provenance.identity then 0 else 4) + (if m.provenance.exact then 0 else 2)
    + (if m.provenance.requested then 0 else 1)

def ProjectCoordinateMatch.before (a b : ProjectCoordinateMatch) : Prop :=
  a.rank < b.rank ∨ (a.rank = b.rank ∧ a.project.id ≤ b.project.id)

instance (a b : ProjectCoordinateMatch) : Decidable (a.before b) :=
  inferInstanceAs (Decidable (_ ∨ _))

def maxCoordinateRows : ℕ := 4

variable (reg : Registry) (ws : WorkspaceId)

def matchesBounded (requested : String)
    (repository : Option RepositoryIdentity) (maxRows : ℕ) : List ProjectCoordinateMatch :=
  let identity := repository.elim "" (·.identity)
  let canonical := (repository.bind (pathStyleName N)).getD ""
  let rows := reg.projects.filter fun p => p.workspaceId = ws
  let canonicalRows :=
    (rows.filter fun p => p.canonicalName = requested && p.canonicalName ≠ "").take maxRows
  let legacyRows :=
    (rows.filter fun p => p.legacyName = requested && p.legacyName ≠ "").take maxRows
  let targetRows :=
    (rows.filter fun p => p.canonicalName = canonical && p.canonicalName ≠ "").take maxRows
  let found := rows.map fun p =>
    (⟨p, { exact := p.name = requested
           canonicalCompat := p ∈ canonicalRows
           legacyCompat := p ∈ legacyRows
           identity := p.identity = identity && p.identity ≠ ""
           canonicalTarget := (p.name = canonical && canonical ≠ "") || p ∈ targetRows }⟩ :
      ProjectCoordinateMatch)
  ((found.filter fun m => m.provenance.requested || m.provenance.identity
      || m.provenance.canonicalTarget).insertionSort ProjectCoordinateMatch.before).take maxRows

def coordinateMatches (requested : String)
    (repository : Option RepositoryIdentity) : List ProjectCoordinateMatch :=
  matchesBounded N reg ws requested repository maxCoordinateRows

def resolve (requested : String) :
    Except StoreError (Option Project) :=
  match (coordinateMatches N reg ws requested none).filter (·.provenance.requested) with
  | [] => .ok none
  | [m] => .ok (some m.project)
  | _ => .error (.projectNameAmbiguous requested)

def exactMatch (name : String) : Option Project :=
  reg.projects.find? fun p => p.workspaceId = ws && p.name = name

lemma exactMatch_some {reg : Registry} {ws : WorkspaceId} {name : String} {p : Project}
    (h : exactMatch reg ws name = some p) :
    p ∈ reg.projects ∧ p.workspaceId = ws ∧ p.name = name := by
  have hp := List.find?_some h
  rw [Bool.and_eq_true, decide_eq_true_eq, decide_eq_true_eq] at hp
  exact ⟨List.mem_of_find?_eq_some h, hp⟩

variable (p : Project)

def carriesRemote (repository : RepositoryIdentity) : Bool :=
  p.identity = repository.identity && p.identitySource = some .gitRemote

/-- The project of a marker: under its canonical name, or under one of the names
the marker says it had, and only if it carries the identity. -/
def resolveAliases (canonical : String)
    (aliases : List String) (repository : RepositoryIdentity) :
    Except StoreError (Option Project) :=
  if repository.source ≠ .gitRemote ∨ aliases = [] then .error (.projectNameAmbiguous canonical)
  else match exactMatch reg ws canonical with
    | some p =>
      if carriesRemote p repository then .ok (some p)
      else .error (.projectNameAmbiguous canonical)
    | none =>
      match aliases.filterMap (exactMatch reg ws) with
      | [] => .ok none
      | p :: rest =>
        if rest.any fun q => q.id ≠ p.id then .error (.projectNameAmbiguous canonical)
        else if carriesRemote p repository then .ok (some p)
        else .error (.projectNameAmbiguous canonical)

/-- The canonical name a project is to be renamed to, when it is the one asked
for. -/
def promotionTarget (requested : String) : Option String :=
  if p.canonicalName ≠ "" ∧ p.canonicalName = requested ∧ p.canonicalName ≠ p.name then
    some p.canonicalName
  else none

/-! ### Resolutions -/

inductive IdentityResolution
  | matched | claimed | unclaimed | promoted | created | split
  deriving DecidableEq

variable (proj : ProjectId)

/-- The caller's write decision; no caller is root, or a server without users. -/
def mayWrite (creator : Option UserId) :
    Bool :=
  creator.all fun user =>
    ((resolveProjectAuthz reg ws proj (.user user) true).authorize .write).isOk

def canonicalNameAvailable (name identity : String) : Bool :=
  !(reg.projects.any fun p => p.workspaceId = ws && p.name = name && p.name ≠ ""
      && p.identity ≠ identity)
    && !(reg.projects.any fun p => p.workspaceId = ws && p.canonicalName = name
      && p.canonicalName ≠ "" && p.identity ≠ identity)

/-- `base`, `base-2`, `base-3`, … -/
def splitNameAt (base : String) : ℕ → String
  | 0 => base
  | n + 1 => base ++ "-" ++ toString (n + 2)

/-- The first of them no project of the workspace has; with one more candidate
than projects there is one. -/
def freeSplitName (base : String) : String :=
  (((List.range (reg.projects.length + 1)).map (splitNameAt base)).find? fun name =>
    (exactMatch reg ws name).isNone).getD base

def identityRow (id : ProjectId) (name : String)
    (i : RepositoryIdentity) (mode : AccessMode) (creator : Option UserId) : Project where
  id := id
  workspaceId := ws
  name := name
  accessMode := mode
  createdBy := creator
  identity := i.identity
  identitySource := some i.source
  canonicalName := (pathStyleName N i).getD ""
  legacyName := (legacyBasenameName N i).getD ""

def namedRow (id : ProjectId) (name : String) (mode : AccessMode)
    (creator : Option UserId) : Project :=
  ⟨id, ws, name, mode, creator, "", none, "", ""⟩

/-- The `UPDATE` by which a project takes an identity. -/
def claimIdentity (i : RepositoryIdentity) :
    Registry :=
  { reg with
    projects := update (fun p => p.id = proj)
      (fun p => { p with
        identity := i.identity
        identitySource := some i.source
        canonicalName := (pathStyleName N i).getD ""
        legacyName := (legacyBasenameName N i).getD "" }) reg.projects }

structure IdentityRequest where
  identity : RepositoryIdentity
  style : IdentityStyle
  promote : Bool
  name : String
  candidate : Option ProjectId
  creator : Option UserId
  newProjectMode : AccessMode

variable (r : IdentityRequest)

def IdentityRequest.pathName
    : Option String :=
  match r.style with
  | .path => (pathStyleName N r.identity).filter fun name =>
      canonicalNameAvailable reg ws name r.identity.identity
  | .hostPath => none

def resolveMatched
    (pathName : Option String) (p : Project) :
    Except StoreError ((ProjectId × IdentityResolution) × Registry) :=
  let promoteTo :=
    if r.promote ∧ r.style = .path then pathName.bind (promotionTarget p) else none
  match promoteTo with
  | some canonical =>
    if mayWrite reg ws p.id r.creator then do
      let reg ← renameProjectInTx reg ws p.id (some p.name) canonical
      return ((p.id, .promoted), reg)
    else .ok ((p.id, .matched), reg)
  | none => .ok ((p.id, .matched), reg)

/-- The candidate carries no identity: claim it, if the caller may write to it. -/
def resolveUnowned
    (pathName : Option String) (p : Project) :
    Except StoreError ((ProjectId × IdentityResolution) × Registry) :=
  if mayWrite reg ws p.id r.creator then
    let claimed := claimIdentity N reg p.id r.identity
    let promoteTo := if r.promote ∧ r.style = .path then pathName.filter (· ≠ p.name) else none
    match promoteTo with
    | some canonical => do
      let reg ← renameProjectInTx claimed ws p.id (some p.name) canonical
      return ((p.id, .promoted), reg)
    | none => .ok ((p.id, .claimed), claimed)
  else .ok ((p.id, .unclaimed), reg)

def IdentityRequest.candidateRow :
    Option Project :=
  match r.candidate with
  | some candidate => reg.projects.find? fun p => p.workspaceId = ws && p.id = candidate
  | none => exactMatch reg ws r.name

def resolveProjectByIdentity
    (id : ProjectId) :
    Except StoreError ((ProjectId × IdentityResolution) × Registry) :=
  let pathName := r.pathName N reg ws
  match (coordinateMatches N reg ws r.name (some r.identity)).find? (·.provenance.identity) with
  | some m => resolveMatched reg ws r pathName m.project
  | none =>
    match r.candidateRow reg ws with
    | none => do
      let name := pathName.getD r.name
      let reg ← insertProject reg (identityRow N ws id name r.identity
        (initialAccessMode name r.newProjectMode) r.creator)
      return ((id, .created), reg)
    | some p =>
      if p.identity = "" then resolveUnowned N reg ws r pathName p
      else do
        let name := pathName.getD (freeSplitName reg ws (splitNameBase N r.identity.identity))
        let reg ← insertProject reg (identityRow N ws id name r.identity
          (initialAccessMode name r.newProjectMode) r.creator)
        return ((id, .split), reg)

/-- Resolve a name on behalf of a user, creating the project if missing; the
result says whether this call created it. -/
def getOrCreateProjectAs (name : String)
    (creator : Option UserId) (newProjectMode : AccessMode) (id : ProjectId) :
    Except StoreError ((ProjectId × Bool) × Registry) :=
  match exactMatch reg ws name with
  | some p => .ok ((p.id, false), reg)
  | none => do
    -- A name that a promoted project still answers to is not a new project.
    match ← resolve N reg ws name with
    | some p => return ((p.id, false), reg)
    | none =>
      let reg ← insertProject reg
        (namedRow ws id name (initialAccessMode name newProjectMode) creator)
      return ((id, true), reg)

structure ProjectNameWriteResolution where
  projectId : ProjectId
  promotedFrom : Option String
  authorizationError : Option AuthzError

def authorizeWrite
    (principal : Option ProjectPrincipal) (distinguishesOperators : Bool) :
    Except AuthzError Unit :=
  principal.elim (.ok ()) fun principal =>
    (resolveProjectAuthz reg ws proj principal distinguishesOperators).authorize .write

def promoteProject (target : Option String) :
    Except StoreError (Option String × Registry) :=
  match target with
  | some canonical => do
    let reg ← renameProjectInTx reg ws p.id (some p.name) canonical
    return (some p.name, reg)
  | none => .ok (none, reg)

def resolveProjectNameForWrite
    (requested : String) (principal : Option ProjectPrincipal) (distinguishesOperators : Bool)
    (promote : Bool) (newProjectMode : AccessMode) (id : ProjectId) :
    Except StoreError (ProjectNameWriteResolution × Registry) := do
  match ← resolve N reg ws requested with
  | some p =>
    if !(authorizeWrite reg ws p.id principal distinguishesOperators).isOk then .error .forbidden
    else do
      let (promotedFrom, reg) ←
        promoteProject reg ws p (if promote then promotionTarget p requested else none)
      return (⟨p.id, promotedFrom, none⟩, reg)
  | none =>
    let reg ← insertProject reg (namedRow ws id requested
      (initialAccessMode requested newProjectMode) (principal.bind (·.userId)))
    let authorizationError := match authorizeWrite reg ws id principal distinguishesOperators with
      | .ok () => none
      | .error e => some e
    return (⟨id, none, authorizationError⟩, reg)

structure ProjectAliasWriteResolution where
  projectId : ProjectId
  promotedFrom : Option String

def resolveProjectAliasesForWrite
    (canonical : String) (aliases : List String) (repository : RepositoryIdentity)
    (principal : Option ProjectPrincipal) (distinguishesOperators : Bool) :
    Except StoreError (Option ProjectAliasWriteResolution × Registry) := do
  match ← resolveAliases reg ws canonical aliases repository with
  | none => return (none, reg)
  | some p =>
    if !(authorizeWrite reg ws p.id principal distinguishesOperators).isOk then .error .forbidden
    else do
      let (promotedFrom, reg) ← promoteProject reg ws p
        (if pathStyleName N repository = some canonical then promotionTarget p canonical else none)
      return (some ⟨p.id, promotedFrom⟩, reg)

inductive RegistryOp
  | getOrCreateWorkspace (name : String) (id : WorkspaceId)
  | getOrCreateProjectAs (ws : WorkspaceId) (name : String) (creator : Option UserId)
      (newProjectMode : AccessMode) (id : ProjectId)
  | resolveByIdentity (ws : WorkspaceId) (request : IdentityRequest) (id : ProjectId)
  | resolveNameForWrite (ws : WorkspaceId) (requested : String)
      (principal : Option ProjectPrincipal) (distinguishesOperators : Bool) (promote : Bool)
      (newProjectMode : AccessMode) (id : ProjectId)
  | resolveAliasesForWrite (ws : WorkspaceId) (canonical : String) (aliases : List String)
      (repository : RepositoryIdentity) (principal : Option ProjectPrincipal)
      (distinguishesOperators : Bool)
  | rename (ws : WorkspaceId) (proj : ProjectId) (name : String)
  | grant (user : UserId) (proj : ProjectId) (level : GrantLevel) (grantedBy : Option UserId)
      (now : ℤ)
  | revoke (user : UserId) (proj : ProjectId)
  | setAccessMode (proj : ProjectId) (mode : AccessMode)

def written {α : Type} : Except StoreError (α × Registry) → Registry
  | .ok (_, reg') => reg'
  | .error _ => reg

/-- One operation on workspaces, projects or grants. -/
def registryStep : RegistryOp → Registry
  | .getOrCreateWorkspace name id => written reg (getOrCreateWorkspace reg name id)
  | .getOrCreateProjectAs ws name creator mode id =>
    written reg (getOrCreateProjectAs N reg ws name creator mode id)
  | .resolveByIdentity ws request id =>
    written reg (resolveProjectByIdentity N reg ws request id)
  | .resolveNameForWrite ws requested principal distinguishes promote mode id =>
    written reg (resolveProjectNameForWrite N reg ws requested principal distinguishes promote
      mode id)
  | .resolveAliasesForWrite ws canonical aliases repository principal distinguishes =>
    written reg (resolveProjectAliasesForWrite N reg ws canonical aliases repository principal
      distinguishes)
  | .rename ws proj name => written reg ((renameProject reg ws proj name).map ((), ·))
  | .grant user proj level grantedBy now => written reg (grant reg user proj level grantedBy now)
  | .revoke user proj => (revoke reg user proj).2
  | .setAccessMode proj mode => (setAccessMode reg proj mode).2

def Registry.empty : Registry := ⟨[], [], []⟩

lemma alphanum_plain (c : Char) (hc : c.isAlphanum) :
    c ≠ '/' ∧ isWhitespace c = false := by
  have hrange : (48 ≤ c.toNat ∧ c.toNat ≤ 57) ∨ (65 ≤ c.toNat ∧ c.toNat ≤ 90) ∨
      (97 ≤ c.toNat ∧ c.toNat ≤ 122) := by
    change ((decide ('A'.val ≤ c.val ∧ c.val ≤ 'Z'.val) ||
      (decide ('a'.val ≤ c.val) && decide (c.val ≤ 'z'.val))) ||
        (decide ('0'.val ≤ c.val) && decide (c.val ≤ '9'.val))) = true at hc
    simp only [Bool.or_eq_true, Bool.and_eq_true, decide_eq_true_eq, UInt32.le_iff_toNat_le] at hc
    have hval : c.toNat = c.val.toNat := rfl
    rw [hval]
    rcases hc with (hc | hc) | hc
    · exact .inr (.inl hc)
    · exact .inr (.inr hc)
    · exact .inl hc
  constructor
  · rintro rfl
    revert hrange
    decide
  · simp only [isWhitespace, Bool.or_eq_false_iff, Bool.and_eq_false_iff, decide_eq_false_iff_not]
    omega

def asciiNaming : NameCodec := ⟨Char.isAlphanum, alphanum_plain⟩

end Projects
