/-
Two-way sync: the plan and its application.

Every page in an allowlisted family is classified from three versions: the
repository file, the recorded state, and the server page rendered into file
bytes (`Policy.decide`).  `buildPlan` reads them and collects what to do;
`applyPlan` does it, imports first, then exports, then the two kinds of
deletes, and saves the state once, or before it gives up.

The programs are `Programs.Prog`s over the requests of `World.lean`; a request
that fails ends the run unless the code catches it.
-/
import AiMemory.Wikisync.World

open Programs

namespace Wikisync

abbrev Io := Prog Call Answer Failure

inductive Prefer
  | repo
  | server
deriving DecidableEq

structure Policy where
  prefer : Option Prefer
  propagateDeletes : Bool

inductive ServerSide
  | absent
  | notModified
  | rendered (file : String)

inductive Action
  | unchanged
  | exportPage (create : Bool)
  | importPage (create : Bool)
  | conflict
  | deleteOnServer
  | deleteInRepo
  | deletedOnServer
  | deletedInRepo
  | goneOnBothSides

section plan

variable (x : Externals) (disk : Option ByteArray) (base : Option PageState)

def diskIsBase : Bool :=
  match disk, base with
  | some disk, some base => x.sha256Hex disk == base.hash
  | _, _ => false

def serverIsBase (file : String) (base : Option PageState) : Bool :=
  base.any fun base => base.hash == x.sha256Hex file.toUTF8

def Policy.decide (policy : Policy) (disk : Option ByteArray) (base : Option PageState) :
    ServerSide → Action
  | .absent =>
    match disk.isSome, base.isSome with
    | true, false => .importPage true
    | true, true =>
      if !policy.propagateDeletes then .deletedOnServer
      else if diskIsBase x disk base then .deleteInRepo
      else match policy.prefer with
        | some .repo => .importPage true
        | some .server => .deleteInRepo
        | none => .conflict
    | false, true => .goneOnBothSides
    | false, false => .unchanged
  -- a `304` proves the server unchanged since the base
  | .notModified =>
    match disk.isSome, base.isSome with
    | false, true => if policy.propagateDeletes then .deleteOnServer else .deletedInRepo
    | false, false => .unchanged
    | true, _ => if diskIsBase x disk base then .unchanged else .importPage false
  | .rendered file =>
    match disk with
    | none =>
      if base.isNone then .exportPage true
      else if !policy.propagateDeletes then .deletedInRepo
      else if serverIsBase x file base then .deleteOnServer
      else match policy.prefer with
        | some .repo => .deleteOnServer
        | some .server => .exportPage true
        | none => .conflict
    | some bytes =>
      if x.sha256Hex bytes = x.sha256Hex file.toUTF8 then .unchanged
      else if diskIsBase x disk base then .exportPage false
      else if serverIsBase x file base then .importPage false
      else match policy.prefer with
        | some .repo => .importPage false
        | some .server => .exportPage false
        | none => .conflict

/-! ### Plans -/

structure SyncArgs where
  server : String
  workspace : String
  project : String
  includes : List String
  adoptScope : Bool
  prefer : Option Prefer
  propagateDeletes : Bool
  maxDeletes : ℕ

variable (args : SyncArgs)

def SyncArgs.policy : Policy := ⟨args.prefer, args.propagateDeletes⟩

def SyncArgs.scope : SyncScope :=
  .of args.server args.workspace args.project

/-- Default `--max-deletes`. -/
def defaultMaxDeletes : ℕ := 10

inductive SyncMode
  | dryRun
  | apply
  | check
deriving DecidableEq

inductive CheckStatus
  | inSync
  | drift
  | blocked
deriving DecidableEq

structure Outcome where
  pending : ℕ
  blocked : Bool
deriving DecidableEq

def Outcome.status (o : Outcome) : CheckStatus :=
  if o.blocked then .blocked else if o.pending > 0 then .drift else .inSync

structure Import where
  path : String
  create : Bool
  m : PageMeta
  body : String
  disk : ByteArray
  /-- The version the plan was classified against; none for a create. -/
  expectedPageId : Option PageId

structure Export where
  path : String
  create : Bool
  bytes : String
  etag : Option String
  pageId : Option PageId
  /-- Hash of the file the plan classified, none if there was no file. -/
  expectedDisk : Option String

structure ServerDelete where
  path : String
  expectedPageId : Option PageId

structure FileDelete where
  path : String
  expectedHash : String

inductive Reason
  | tooLarge
  | symlink
  | badPath
  | unparsable (error : ParseError)
  | wouldClear (keys : List String)
  | deletedHereChangedThere
  | changedHereDeletedThere
  | changedOnBothSides
  | pinned

structure Refusal where
  path : String
  reason : Reason

inductive Notice
  | deletedOnServer
  | deletedInRepo
deriving DecidableEq

structure Plan where
  imports : List Import := []
  exports : List Export := []
  serverDeletes : List ServerDelete := []
  fileDeletes : List FileDelete := []
  unchanged : List String := []
  refused : List Refusal := []
  /-- The number of deletes, when they exceed the ceiling. -/
  batchRefusal : Option ℕ := none
  notices : List (String × Notice) := []
  differs : List String := []
  adopted : List (String × PageState) := []
  forget : List String := []

def Plan.deletes (plan : Plan) : ℕ := plan.serverDeletes.length + plan.fileDeletes.length

def Plan.outcome (plan : Plan) : Outcome where
  pending := plan.imports.length + plan.exports.length + plan.serverDeletes.length +
    plan.fileDeletes.length + plan.notices.length + plan.differs.length
  blocked := !plan.refused.isEmpty || plan.batchRefusal.isSome

inductive Item
  | unchanged (adopted : Option PageState)
  | importPage (i : Import)
  | exportPage (e : Export)
  | refuse (reason : Reason)
  | differs
  | deleteOnServer (d : ServerDelete)
  | deleteInRepo (d : FileDelete)
  | notice (n : Notice)
  | forget

def Plan.push (plan : Plan) (path : String) : Item → Plan
  | .unchanged none => { plan with unchanged := plan.unchanged ++ [path] }
  | .unchanged (some entry) =>
    { plan with
      unchanged := plan.unchanged ++ [path]
      adopted := plan.adopted ++ [(path, entry)] }
  | .importPage i => { plan with imports := plan.imports ++ [i] }
  | .exportPage e => { plan with exports := plan.exports ++ [e] }
  | .refuse reason => { plan with refused := plan.refused ++ [⟨path, reason⟩] }
  | .differs => { plan with differs := plan.differs ++ [path] }
  | .deleteOnServer d => { plan with serverDeletes := plan.serverDeletes ++ [d] }
  | .deleteInRepo d => { plan with fileDeletes := plan.fileDeletes ++ [d] }
  | .notice n => { plan with notices := plan.notices ++ [(path, n)] }
  | .forget => { plan with forget := plan.forget ++ [path] }

/-! ### Planning -/

def recreatedKeys : List String :=
  ["title", "tier", "pinned", "tags", "type", "generated", "last_modified_by"]

def keysAnImportWouldClear (frontmatter : Json.Value) : List String :=
  (frontmatter.keys.filter fun key => !recreatedKeys.contains key).insertionSort (· ≤ ·)

def renderPage (page : ApiPage) : Except Failure String :=
  if page.bodyMarkdown.utf8ByteSize > maxBodyBytes then .error .bodyTooLarge
  else .ok page.toContent.file

def listPages : Io (List String) := Prog.request Call.listPages

def walk (families : List String) : Io (List (String × Bool)) := Prog.request (Call.walk families)

def readDisk (p : String) : Io (Option ByteArray) := Prog.request (Call.readDisk p)

def readPage (p : String) (ifNoneMatch : Option String) : Io PageRead :=
  Prog.request (Call.readPage p ifNoneMatch)

def sortedSet (l : List String) : List String := l.dedup.insertionSort (· ≤ ·)

def selectPages (listed families : List String) : Except Failure (List String) :=
  let mine := listed.filter fun p => families.contains (familyOf p)
  match mine.find? fun p => !validatePagePath p with
  | some p => .error (.badPagePath p)
  | none =>
    if (sortedSet mine).length > maxPages then .error .tooManyPages
    else if noCaseFoldCollisions [] (sortedSet mine) then .ok (sortedSet mine)
    else .error .caseFoldCollision

variable (p : String)

def endsWithMd : Bool := List.isSuffixOf ".md".toList p.toList

def foundPages (entries : List (String × Bool)) : List String :=
  (entries.filter fun e => !hidden e.1 && !e.2 && endsWithMd e.1 && validatePagePath e.1).map
    Prod.fst

def refusedEntries (entries : List (String × Bool)) : List Refusal :=
  entries.filterMap fun e =>
    if hidden e.1 then none
    else if e.2 then some ⟨e.1, .symlink⟩
    else if endsWithMd e.1 && !validatePagePath e.1 then some ⟨e.1, .badPath⟩
    else none

variable (families : List String)

def localPages : Io (List String × List Refusal) := do
  let entries ← walk families
  if (foundPages entries).length > maxPages then .fail .tooManyPages
  else return (foundPages entries, refusedEntries entries)

def allPages (families onServer inRepo : List String) (refused : List Refusal)
    (old : SyncState) : List String :=
  let inState := old.pages.keys.filter fun p => families.contains (familyOf p)
  sortedSet ((onServer ++ inRepo ++ inState).filter fun p => !(refused.map Refusal.path).contains p)

def checkAll (all : List String) : Except Failure Unit :=
  if all.length > maxPages then .error .tooManyPages
  else if noCaseFoldCollisions [] all then .ok ()
  else .error .caseFoldCollision

/-- The tag to revalidate with: an edited file needs the page from the read it
is classified by, so only an unedited one sends it. -/
def hintFor : Option String :=
  if diskIsBase x disk base then base.bind PageState.etag else none

structure Seen where
  etag : Option String := none
  current : Option ApiPage := none
  rendered : Option String := none

def seePage (listed : Bool) (hint : Option String) : Io Seen :=
  if listed then do
    let read ← readPage p hint
    match read.page with
    | none => return { etag := read.etag }
    | some page =>
      let file ← Prog.ofExcept (renderPage page)
      return { etag := read.etag, current := some page, rendered := some file }
  else return {}

def Seen.serverSide (seen : Seen) (listed : Bool) : ServerSide :=
  match seen.rendered, listed with
  | some file, _ => .rendered file
  | none, true => .notModified
  | none, false => .absent

/-- The full page, for a decision a `304` cannot settle. -/
def fullPage : Io ApiPage := do
  let read ← readPage p none
  match read.page with
  | some page => return page
  | none => .fail (.notModifiedWithoutEtag p)

def planImport (create : Bool) (disk : ByteArray) (current : Option ApiPage) : Item :=
  match parse x.fromStr disk with
  | .error error => .refuse (.unparsable error)
  | .ok (m, body) =>
    match current with
    | none => .importPage ⟨p, create, m, body, disk, none⟩
    | some page =>
      if keysAnImportWouldClear page.frontmatter = [] then
        .importPage ⟨p, create, m, body, disk, page.id⟩
      else .refuse (.wouldClear (keysAnImportWouldClear page.frontmatter))

def conflictReason (rendered : Option String) : Reason :=
  match disk, rendered with
  | none, _ => .deletedHereChangedThere
  | some _, none => .changedHereDeletedThere
  | some _, some _ => .changedOnBothSides

/-- The page an import replaces: the one classified, or a full read after a `304`. -/
def importTarget (create : Bool) (seen : Seen) : Io (Option ApiPage) :=
  if !create && seen.current.isNone then do
    let page ← fullPage p
    return some page
  else return seen.current

def deleteTarget (seen : Seen) : Io ApiPage :=
  match seen.current with
  | some page => return page
  | none => fullPage p

def planAction (statelessCheck : Bool) (p : String) (disk : Option ByteArray)
    (base : Option PageState) (seen : Seen) : Action → Io Item
  | .unchanged => return .unchanged (seen.rendered.map fun file =>
      ⟨x.sha256Hex file.toUTF8, seen.etag, seen.current.bind ApiPage.id⟩)
  | .exportPage create =>
    match seen.rendered with
    | none => .fail (.notModifiedWithoutFile p)
    | some bytes =>
      let e : Export :=
        ⟨p, create, bytes, seen.etag, seen.current.bind ApiPage.id, disk.map x.sha256Hex⟩
      return .exportPage e
  | .importPage create => do
    let current ← importTarget p create seen
    return planImport x p create (disk.getD .empty) current
  | .conflict =>
    if statelessCheck && base.isNone then return .differs
    else return .refuse (conflictReason disk seen.rendered)
  | .deleteOnServer => do
    let page ← deleteTarget p seen
    if page.pinned && args.prefer != some .repo then return .refuse .pinned
    else return .deleteOnServer ⟨p, page.id⟩
  | .deleteInRepo =>
    match disk with
    | none => .fail (.fileGone p)
    | some disk => return .deleteInRepo ⟨p, x.sha256Hex disk⟩
  | .deletedOnServer => return .notice .deletedOnServer
  | .deletedInRepo => return .notice .deletedInRepo
  | .goneOnBothSides => return .forget

def tooLarge : Bool := disk.any fun disk => disk.size > maxBodyBytes

variable (old : SyncState)

def planPage (statelessCheck : Bool) (onServer : List String)
    (p : String) : Io Item := do
  let disk ← readDisk p
  if tooLarge disk then return .refuse .tooLarge
  else
    let base := old.pages.lookup p
    let listed := onServer.contains p
    let seen ← seePage p listed (hintFor x disk base)
    planAction x args statelessCheck p disk base seen
      (args.policy.decide x disk base (seen.serverSide listed))

def planPages (statelessCheck : Bool)
    (onServer : List String) (all : List String) (plan : Plan) : Io Plan :=
  all.foldlM (fun plan p => do
    let item ← planPage x args old statelessCheck onServer p
    return plan.push p item) plan

def Plan.withCeiling (plan : Plan) (maxDeletes : ℕ) : Plan :=
  if plan.deletes > maxDeletes then { plan with batchRefusal := some plan.deletes } else plan

def buildPlan (old : SyncState)
    (statelessCheck : Bool) : Io Plan := do
  let listed ← listPages
  let onServer ← Prog.ofExcept (selectPages listed families)
  let (inRepo, refused) ← localPages families
  let all := allPages families onServer inRepo refused old
  Prog.ofExcept (checkAll all)
  let plan ← planPages x args old statelessCheck onServer all { refused := refused }
  return plan.withCeiling args.maxDeletes

/-! ### Applying -/

def inspect (p : String) : Io (Option Bool) := Prog.request (Call.inspect p)

def writePage (p : String) (m : PageMeta) (body : String) (pre : Precondition) :
    Io (Option PageId) := Prog.request (Call.writePage p m body pre)

def deletePage (p : String) (expected : PageId) : Io Unit :=
  Prog.request (Call.deletePage p expected)

def writeIfUnchanged (p : String) (expected : Option String) (bytes : String) : Io Bool :=
  Prog.request (Call.writeIfUnchanged p expected bytes.toUTF8)

def readFile (p : String) : Io ByteArray := Prog.request (Call.readFile p)

def removeFile (p : String) : Io Unit := Prog.request (Call.removeFile p)

def toolsList : Io Bool := Prog.request Call.toolsList

def saveState (state : SyncState) : Io Unit := Prog.request (Call.saveState state)

inductive Rewrite
  | none
  | wrote
  | skipped
deriving DecidableEq

def Import.precondition (i : Import) : Except Failure Precondition :=
  match i.expectedPageId, i.create with
  | _, true => .ok .absent
  | some expected, false => .ok (.latest expected)
  | none, false => .error .serverTooOld

def rewriteFile (i : Import) (file : String) : Io Rewrite :=
  if file.toUTF8 = i.disk then return .none
  else do
    let wrote ← writeIfUnchanged i.path (some (x.sha256Hex i.disk)) file
    return if wrote then .wrote else .skipped

def importOne (i : Import) : Io (PageState × Rewrite) := do
  let pre ← Prog.ofExcept i.precondition
  let written ← writePage i.path i.m i.body pre
  let read ← readPage i.path none
  match read.page with
  | none => .fail (.noBodyAfterWrite i.path)
  | some page =>
    -- another write landed in between: the next run exports it
    if written.isSome && page.id != written then
      return (⟨x.sha256Hex i.disk, none, written⟩, .none)
    else
      let file ← Prog.ofExcept (renderPage page)
      let rewrite ← rewriteFile x i file
      return (⟨x.sha256Hex file.toUTF8, read.etag, page.id.or written⟩, rewrite)

def deleteServerPage (d : ServerDelete) : Io Bool := do
  let here ← inspect d.path
  if here.isSome then return false
  else
    match d.expectedPageId with
    | none => .fail .serverTooOld
    | some expected =>
      deletePage d.path expected
      return true

def deleteFile (d : FileDelete) : Io Bool := do
  let here ← inspect d.path
  match here with
  | none => .fail .unavailable
  | some false => .fail (.notARegularFile d.path)
  | some true =>
    let bytes ← readFile d.path
    if x.sha256Hex bytes ≠ d.expectedHash then return false
    else
      removeFile d.path
      return true

structure Progress where
  state : SyncState
  wroteFiles : Bool := false
  deletedFiles : List String := []
  raced : List String := []

variable (g : Progress)

def Progress.record (entry : PageState) : Progress :=
  { g with state := { g.state with pages := g.state.pages.insert p entry } }

def Progress.forget : Progress :=
  { g with state := { g.state with pages := g.state.pages.erase p } }

def Progress.race : Progress := { g with raced := g.raced ++ [p] }

def stop {α : Type} (f : Failure) : Io α := do
  saveState g.state
  .fail f

def applyImport (i : Import) : Io Progress := do
  let result ← (importOne x i).attempt
  match result with
  | .ok (entry, .skipped) => return (g.record i.path entry).race i.path
  | .ok (entry, rewrite) =>
    return { g.record i.path entry with wroteFiles := g.wroteFiles || rewrite == .wrote }
  | .error (.preconditionFailed _) => return g.race i.path
  | .error f => stop g f

def applyExport (e : Export) : Io Progress := do
  let result ← (writeIfUnchanged e.path e.expectedDisk e.bytes).attempt
  match result with
  | .ok true =>
    return { g.record e.path ⟨x.sha256Hex e.bytes.toUTF8, e.etag, e.pageId⟩ with
      wroteFiles := true }
  | .ok false => return g.race e.path
  | .error f => stop g f

def applyServerDelete (d : ServerDelete) : Io Progress := do
  let result ← (deleteServerPage d).attempt
  match result with
  | .ok true => return g.forget d.path
  | .ok false => return g.race d.path
  | .error (.preconditionFailed _) => return g.race d.path
  | .error f => stop g f

def applyFileDelete (d : FileDelete) : Io Progress := do
  let result ← (deleteFile x d).attempt
  match result with
  | .ok true => return { g.forget d.path with deletedFiles := g.deletedFiles ++ [d.path] }
  | .ok false => return g.race d.path
  | .error f => stop g f

def startState (plan : Plan) : SyncState where
  scope := some args.scope
  pages := plan.forget.foldl (fun pages p => pages.erase p)
    (plan.adopted.foldl (fun pages a => pages.insert a.1 a.2) old.pages)

def applyPlan (plan : Plan) : Io Progress := do
  let g ← plan.imports.foldlM (applyImport x) { state := startState args old plan }
  let g ← plan.exports.foldlM (applyExport x) g
  let g ← plan.serverDeletes.foldlM applyServerDelete g
  let g ← plan.fileDeletes.foldlM (applyFileDelete x) g
  saveState g.state
  return g

def validateAllowlist (includes : List String) : Except Failure (List String) :=
  match includes.find? fun family => !validFamily family with
  | some family => .error (.badFamily family)
  | none => if includes = [] then .error .noFamilies else .ok includes.eraseDups

def baselineFor (state : SyncState) (scope : SyncScope) (adopt : Bool) :
    Except Failure SyncState :=
  match state.scope with
  | none => .ok { state with scope := some scope }
  | some recorded =>
    if recorded = scope then .ok state
    else if adopt then .ok { scope := some scope }
    else .error (.scopeMismatch recorded)

def ensureConditionalWrites (plan : Plan) : Io Unit := do
  if plan.imports.any (fun i => !i.create && i.expectedPageId.isNone) ||
      plan.serverDeletes.any (fun d => d.expectedPageId.isNone) then .fail .serverTooOld
  else
    let supported ← toolsList
    if supported then return () else .fail .serverTooOld

def ensureIfWriting (plan : Plan) : Io Unit :=
  if plan.imports.isEmpty && plan.serverDeletes.isEmpty then return ()
  else ensureConditionalWrites plan

def performPlan (plan : Plan) : Io Outcome :=
  match plan.batchRefusal with
  | some deletes => .fail (.tooManyDeletes deletes)
  | none =>
    if plan.refused.isEmpty then do
      ensureIfWriting plan
      let g ← applyPlan x args old plan
      if g.raced.isEmpty then return plan.outcome else .fail (.raced g.raced)
    else .fail (.refused plan.refused.length)

def planRun (mode : SyncMode) (loaded : Option SyncState) :
    Io (SyncState × Plan) := do
  let families ← Prog.ofExcept (validateAllowlist args.includes)
  let old ← Prog.ofExcept (baselineFor (loaded.getD {}) args.scope args.adoptScope)
  let plan ← buildPlan x args families old (mode == .check && loaded.isNone)
  return (old, plan)

/-- Entry point behind `sync`.  The state file is read under the write lock,
before anything else. -/
def run (mode : SyncMode) (loaded : Option SyncState) : Io Outcome := do
  let (old, plan) ← planRun x args mode loaded
  if mode = .apply then performPlan x args old plan else return plan.outcome

end plan

end Wikisync
