/-
Projects and who may enter them (`ai-memory-store/src/project_authz.rs`,
`grants.rs`, `reader.rs`).

A project is open or restricted; a restricted one admits root, its creator and
the users that hold a grant on it.  The rule is written twice: once as the
decision of the choke point, over a row resolved for the caller, and once as the
SQL fragment that list queries append.  Users are left out: a missing user only
refuses a grant.

* `moveProjectRows`, `mergePolicy`, `mergeGrants` — the part of a project move
  and of a merge that writes these tables.
-/
import AiMemory.Store.Index

open Table Runs
open Strings (isWhitespace)

namespace Projects

open Store

abbrev UserId := ℕ

/-! ### Rows -/

inductive AccessMode
  | «open» | restricted
  deriving DecidableEq

inductive GrantLevel
  | read | write
  deriving DecidableEq

inductive ProjectAccess
  | read | write
  deriving DecidableEq

inductive IdentitySource
  | explicit | manifest | gitRemote | folderName
  deriving DecidableEq

/-- A row of `projects`. -/
structure Project where
  id : ProjectId
  workspaceId : WorkspaceId
  name : String
  accessMode : AccessMode
  createdBy : Option UserId
  identity : String
  identitySource : Option IdentitySource
  canonicalName : String
  legacyName : String
  deriving DecidableEq

def Project.row (p : Project) : ProjectRow := ⟨p.id, p.workspaceId⟩

/-- A row of `project_grants`. -/
structure ProjectGrant where
  workspaceId : WorkspaceId
  projectId : ProjectId
  userId : UserId
  level : GrantLevel
  grantedBy : Option UserId
  grantedAt : ℤ
  deriving DecidableEq

/-- Primary key of `project_grants`. -/
def ProjectGrant.key (g : ProjectGrant) : WorkspaceId × ProjectId × UserId :=
  (g.workspaceId, g.projectId, g.userId)

structure Registry where
  workspaces : List WorkspaceRow
  projects : List Project
  grants : List ProjectGrant
  deriving DecidableEq

namespace Registry

def findProject (reg : Registry) (proj : ProjectId) : Option Project :=
  reg.projects.find? fun p => p.id = proj

def findWorkspace (reg : Registry) (ws : WorkspaceId) : Option WorkspaceRow :=
  reg.workspaces.find? fun w => w.id = ws

end Registry

def defaultProjectName : String := "scratch"

def workspaceProfileProject : String := "_profile"

def userProfileProjectStem : String := "_profile."

/-- `_profile`, or a user's own. -/
def isProfileProject (name : String) : Bool :=
  name = workspaceProfileProject || userProfileProjectStem.toList.isPrefixOf name.toList

def isReservedGlobal (workspace project : String) : Bool :=
  (workspace = defaultWorkspaceName && project = globalScopeProject)
    || project = workspaceProfileProject

def initialAccessMode (name : String) (default : AccessMode) : AccessMode :=
  if userProfileProjectStem.toList.isPrefixOf name.toList then .restricted
  else if name = defaultProjectName || name = globalScopeProject
      || name = workspaceProfileProject then .open
  else default

/-! ### The choke point -/

inductive AuthzError
  | forbidden (message : String)
  deriving DecidableEq

def restrictedProjectForbidden : String :=
  "project access is restricted; root, the project creator, or a matching grant is required"

def globalScopeWriteForbidden : String :=
  "the global scope is shared with every project; writing it requires root or a write grant on it"

structure ProjectPrincipal where
  isRoot : Bool
  isCreator : Bool
  userId : Option UserId

def ProjectPrincipal.user (userId : UserId) : ProjectPrincipal := ⟨false, false, some userId⟩

structure ProjectAuthz where
  distinguishesOperators : Bool
  accessMode : AccessMode
  isRoot : Bool
  isCreator : Bool
  grant : Option GrantLevel
  reservedGlobal : Bool

/-- Decide whether the caller may do `need` in this project. -/
def ProjectAuthz.authorize (a : ProjectAuthz) (need : ProjectAccess) : Except AuthzError Unit :=
  if !a.distinguishesOperators then .ok ()
  else if a.reservedGlobal && need = .write then
    if a.isRoot || a.grant = some .write then .ok ()
    else .error (.forbidden globalScopeWriteForbidden)
  else match a.accessMode with
    | .open => .ok ()
    | .restricted =>
      if a.isRoot || a.isCreator then .ok ()
      else
        let admitted : Bool := match need with
          | .read => a.grant.isSome
          | .write => a.grant = some .write
        if admitted then .ok () else .error (.forbidden restrictedProjectForbidden)

structure ProjectFacts where
  accessMode : AccessMode
  creator : Option UserId
  reservedGlobal : Bool

variable (reg : Registry) (proj : ProjectId)

def readProjectRow : ProjectFacts :=
  match (reg.findProject proj).bind fun p => (reg.findWorkspace p.workspaceId).map (p, ·) with
  | some (p, w) => ⟨p.accessMode, p.createdBy, isReservedGlobal w.name p.name⟩
  | none => ⟨.open, none, false⟩

variable (ws : WorkspaceId)

def readGrant (proj : ProjectId) (user : UserId) :
    Option GrantLevel :=
  (reg.grants.find? fun g => g.key = (ws, proj, user)).map (·.level)

/-- The authorization state of a project, resolved for one caller; an open
project's grants are not read. -/
def resolveProjectAuthz (proj : ProjectId)
    (principal : ProjectPrincipal) (distinguishesOperators : Bool) : ProjectAuthz :=
  let facts := readProjectRow reg proj
  { distinguishesOperators := distinguishesOperators
    accessMode := facts.accessMode
    isRoot := principal.isRoot
    isCreator := principal.isCreator
      || (facts.creator.isSome && facts.creator = principal.userId)
    grant :=
      if facts.reservedGlobal || facts.accessMode = .restricted then
        principal.userId.bind (readGrant reg ws proj)
      else none
    reservedGlobal := facts.reservedGlobal }

def authorizeProject (a : ProjectAuthz) (need : ProjectAccess) : Except AuthzError Unit :=
  a.authorize need

/-- Whether the fragment keeps a row of this project: not restricted, or created
by the user; or a grant; or the global preferences scope. -/
def readableRepositorySql (user : UserId)
    (workspace project : String) : Bool :=
  (reg.projects.any fun op => op.id = proj
      && (op.accessMode ≠ .restricted || op.createdBy = some user))
    || (reg.grants.any fun pg => pg.projectId = proj && pg.userId = user)
    || (reg.projects.any fun gp => gp.id = proj && gp.name = project
      && reg.workspaces.any fun gw => gw.id = gp.workspaceId && gw.name = workspace)

def readableRepositoryFilter (viewer : Option UserId) : Bool :=
  viewer.all fun user =>
    readableRepositorySql reg proj user defaultWorkspaceName globalScopeProject

/-! ### Grants and access modes -/

def accessModeOf : Option AccessMode :=
  (reg.findProject proj).map (·.accessMode)

def setAccessMode (mode : AccessMode) :
    Option AccessMode × Registry :=
  match accessModeOf reg proj with
  | none => (none, reg)
  | some previous => (some previous,
      { reg with
        projects := update (fun p => p.id = proj) (fun p => { p with accessMode := mode })
          reg.projects })

def grantsFor (user : UserId) (proj : ProjectId) : List ProjectGrant :=
  reg.grants.filter fun g => g.userId = user && g.projectId = proj

/-- `INSERT … ON CONFLICT (workspace_id, project_id, user_id) DO UPDATE`. -/
def upsertGrant (merge : ProjectGrant → ProjectGrant → ProjectGrant) (grants : List ProjectGrant)
    (new : ProjectGrant) : List ProjectGrant :=
  if grants.any fun g => g.key = new.key then
    update (fun g => g.key = new.key) (fun g => merge g new) grants
  else grants ++ [new]

inductive GrantOutcome
  | granted
  | levelChanged («from» : GrantLevel)
  | unchanged

def writeGrant (user : UserId) (proj : ProjectId) (level : GrantLevel)
    (grantedBy : Option UserId) (now : ℤ) (outcome : GrantOutcome) :
    Except StoreError (GrantOutcome × Registry) :=
  match reg.findProject proj with
  | none => .error .notFound
  | some p => .ok (outcome,
      { reg with
        grants := upsertGrant
          (fun g new => { g with
            level := new.level
            grantedBy := new.grantedBy
            grantedAt := new.grantedAt })
          reg.grants ⟨p.workspaceId, proj, user, level, grantedBy, now⟩ })

def grant (user : UserId) (proj : ProjectId) (level : GrantLevel)
    (grantedBy : Option UserId) (now : ℤ) : Except StoreError (GrantOutcome × Registry) :=
  match (grantsFor reg user proj).head? with
  | some held =>
    if held.level = level then .ok (.unchanged, reg)
    else writeGrant reg user proj level grantedBy now (.levelChanged held.level)
  | none => writeGrant reg user proj level grantedBy now .granted

def revoke (user : UserId) (proj : ProjectId) : Bool × Registry :=
  if (grantsFor reg user proj).isEmpty then (false, reg)
  else (true,
    { reg with grants := delete (fun g => g.userId = user && g.projectId = proj) reg.grants })

/-- `UNIQUE (workspace_id, name)`, and the unique index on identities. -/
def Project.clashes (p q : Project) : Bool :=
  p.workspaceId = q.workspaceId && (p.name = q.name || (p.identity ≠ "" && p.identity = q.identity))

/-- The `INSERT` of a project. -/
def insertProject (row : Project) : Except StoreError Registry :=
  if (reg.findWorkspace row.workspaceId).isNone then .error .constraint
  else if reg.projects.any fun p => p.id = row.id || row.clashes p then .error .constraint
  else .ok { reg with projects := reg.projects ++ [row] }

def getOrCreateWorkspace (name : String) (id : WorkspaceId) :
    Except StoreError (WorkspaceId × Registry) :=
  match reg.workspaces.find? fun w => w.name = name with
  | some w => .ok (w.id, reg)
  | none =>
    if reg.workspaces.any fun w => w.id = id then .error .constraint
    else .ok (id, { reg with workspaces := reg.workspaces ++ [⟨id, name⟩] })

def validateProjectRename (current new : String) : Except StoreError String :=
  let trimmed := String.ofList
    ((new.toList.dropWhile isWhitespace).reverse.dropWhile isWhitespace).reverse
  if trimmed = "" then
    .error (.invalidProjectName "project name must not be empty or all whitespace")
  else if '/' ∈ trimmed.toList then
    .error (.invalidProjectName "project name must not contain '/' (it appears in URL paths)")
  else if isProfileProject trimmed then
    .error (.invalidProjectName (trimmed ++ " is reserved for the cross-project profile"))
  else if isProfileProject current then
    .error (.invalidProjectName "a cross-project profile project cannot be renamed")
  else .ok trimmed

/-- The rename `UPDATE`; `current` is read from the row when not given. -/
def renameProjectInTx (proj : ProjectId)
    (current : Option String) (new : String) : Except StoreError Registry :=
  let here (p : Project) : Bool := p.id = proj && p.workspaceId = ws
  match current <|> (reg.projects.find? here).map (·.name) with
  | none => .error .notFound
  | some current => do
    let trimmed ← validateProjectRename current new
    if !reg.projects.any here then .error .notFound
    else if reg.projects.any fun p => p.id ≠ proj && p.workspaceId = ws && p.name = trimmed then
      .error (.projectNameTaken trimmed)
    else .ok { reg with
      projects := update here (fun p => { p with name := trimmed }) reg.projects }

def renameProject (proj : ProjectId) (new : String) :
    Except StoreError Registry :=
  renameProjectInTx reg ws proj none new

/-- The part of a project move in these tables: grants carry the workspace in
their key, and the row itself is last. -/
def moveProjectRows (source target : WorkspaceId) :
    Except StoreError Registry :=
  let moves (p : Project) : Bool := p.id = proj && p.workspaceId = source
  let grants := update (fun g => g.projectId = proj) (fun g => { g with workspaceId := target })
    reg.grants
  if (reg.findWorkspace target).isNone then .error .constraint
  else if ¬ KeyUnique ProjectGrant.key grants then .error .constraint
  else match reg.projects.find? moves with
    | none => .error .notFound
    | some p =>
      if reg.projects.any fun q => q.id ≠ proj && { p with workspaceId := target }.clashes q then
        .error .constraint
      else .ok { reg with
        projects := update moves (fun p => { p with workspaceId := target }) reg.projects
        grants := grants }

def mergePolicy (source target : ProjectId) : Registry :=
  { reg with
    projects := update (fun p => p.id = target)
      (fun p => { p with
        accessMode :=
          if p.accessMode = .restricted || accessModeOf reg source = some .restricted then
            .restricted
          else .open }) reg.projects }

/-- The source's grants become the target's; where both hold one, write wins
over read. -/
def mergeGrants (source target : ProjectId) : Registry :=
  let moved := (reg.grants.filter fun g => g.projectId = source).map
    fun g => { g with projectId := target }
  { reg with
    grants := delete (fun g => g.projectId = source)
      (moved.foldl (upsertGrant fun g new => { g with
        level := if g.level = .write || new.level = .write then .write else .read
        grantedAt := min g.grantedAt new.grantedAt }) reg.grants) }

def deleteProjectRows (proj : ProjectId) : Registry :=
  { reg with
    projects := delete (fun p => p.id = proj && p.workspaceId = ws) reg.projects
    grants :=
      if reg.projects.any fun p => p.id = proj && p.workspaceId = ws then
        delete (fun g => g.projectId = proj) reg.grants
      else reg.grants }

end Projects
