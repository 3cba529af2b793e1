/-
What the wiki sync touches: the repository, the server's pages, the state file.

The sync is one writer among others.  It reaches its surroundings through the
requests `Call`; `serve` says what each does when it goes through, `sem` adds
what can happen to one (it is refused, its answer is lost, a listing is read in
several rounds while others write).  `Edit` is a move of somebody else.
-/
import Mathlib
import AiMemory.Lib.Programs
import AiMemory.Wikisync.PageFile
import AiMemory.Wikisync.Paths

namespace Wikisync

def maxPages : ℕ := 10000

def maxBodyBytes : ℕ := 8 * 1024 * 1024

/-- Version ids are opaque tokens; the server hands out a new one per version. -/
abbrev PageId := ℕ

structure PageState where
  hash : String
  etag : Option String
  pageId : Option PageId

structure SyncScope where
  server : String
  workspace : String
  project : String
deriving DecidableEq

def SyncScope.of (server workspace project : String) : SyncScope :=
  ⟨String.ofList (server.toList.reverse.dropWhile (· == '/')).reverse, workspace, project⟩

structure SyncState where
  scope : Option SyncScope := none
  pages : AList fun _ : String => PageState := ∅

/-! ### Pages -/

structure Content where
  title : String
  tier : String
  pinned : Bool
  frontmatter : Json.Value
  bodyMarkdown : String

def Content.file (c : Content) : String :=
  render (PageMeta.fromServer c.title c.tier c.pinned c.frontmatter) c.bodyMarkdown

structure ApiPage extends Content where
  id : Option PageId

/-- A page read: no page on `304`. -/
structure PageRead where
  page : Option ApiPage
  etag : Option String

structure Version where
  id : PageId
  etag : Option String
  content : Content

structure Server where
  /-- 3.0 or later: page ids are sent, and conditional writes advertised. -/
  modern : Bool
  /-- What is kept of a page that is written, `none` if the write is refused. -/
  stores : String → PageMeta → String → Option Content
  /-- The `ETag` sent with a version. -/
  etag : String → PageId → Content → Option String

structure Externals where
  sha256Hex : ByteArray → String
  fromStr : String → Option Json.Value

structure Pages where
  latest : AList fun _ : String => Version
  next : PageId
  fresh : ∀ p v, latest.lookup p = some v → v.id < next

namespace Pages

variable (srv : Server) (pages : Pages)

def put (p : String) (c : Content) : Pages where
  latest := pages.latest.insert p ⟨pages.next, srv.etag p pages.next c, c⟩
  next := pages.next + 1
  fresh := by
    intro q v hq
    by_cases hqp : q = p
    · rw [hqp, AList.lookup_insert, Option.some_inj] at hq
      rw [← hq]
      exact Nat.lt_succ_self _
    · rw [AList.lookup_insert_ne hqp] at hq
      exact Nat.lt_succ_of_lt (pages.fresh q v hq)

def remove (p : String) : Pages where
  latest := pages.latest.erase p
  next := pages.next
  fresh := by
    intro q v hq
    by_cases hqp : q = p
    · rw [hqp, AList.lookup_erase] at hq
      cases hq
    · rw [AList.lookup_erase_ne hqp] at hq
      exact pages.fresh q v hq

def toApi (v : Version) : ApiPage := ⟨v.content, if srv.modern then some v.id else none⟩

/-- A page read with `If-None-Match`: `304` while the tag is the current one. -/
def read (p : String) (ifNoneMatch : Option String) : Option PageRead :=
  (pages.latest.lookup p).map fun v =>
    if v.etag.isSome ∧ v.etag = ifNoneMatch then ⟨none, v.etag⟩
    else ⟨some (toApi srv v), v.etag.or ifNoneMatch⟩

variable {srv pages}

lemma put_lookup {p q : String} {c : Content} {v : Version}
    (h : (pages.put srv p c).latest.lookup q = some v) :
    pages.latest.lookup q = some v ∨ q = p ∧ v = ⟨pages.next, srv.etag p pages.next c, c⟩ := by
  by_cases hqp : q = p
  · rw [hqp, put, AList.lookup_insert, Option.some_inj] at h
    exact .inr ⟨hqp, h.symm⟩
  · rw [put, AList.lookup_insert_ne hqp] at h
    exact .inl h

lemma remove_lookup {p q : String} {v : Version}
    (h : (pages.remove p).latest.lookup q = some v) : pages.latest.lookup q = some v ∧ q ≠ p := by
  by_cases hqp : q = p
  · rw [hqp, remove, AList.lookup_erase] at h
    cases h
  · rw [remove, AList.lookup_erase_ne hqp] at h
    exact ⟨h, hqp⟩

end Pages

/-! ### Repository -/

inductive Entry
  | file (bytes : ByteArray)
  | link (target : Option ByteArray)
deriving DecidableEq

inductive Failure
  | unavailable
  | preconditionFailed (path : String)
  | unsafePath (path : String)
  | noFamilies
  | badFamily (family : String)
  | scopeMismatch (recorded : SyncScope)
  | badPagePath (path : String)
  | tooManyPages
  | caseFoldCollision
  | bodyTooLarge
  | notModifiedWithoutFile (path : String)
  | notModifiedWithoutEtag (path : String)
  | noBodyAfterWrite (path : String)
  | fileGone (path : String)
  | notARegularFile (path : String)
  | serverTooOld
  | tooManyDeletes (deletes : ℕ)
  | refused (pages : ℕ)
  | raced (paths : List String)
deriving DecidableEq

/-- Files and symlinks by path; directories are the paths above them, so no
entry has another one below it. -/
structure Repo where
  entries : AList fun _ : String => Entry
  tree : ∀ p ∈ entries, ∀ q ∈ entries, inside p q = false

lemma inside_self (p : String) : inside p p = false := by
  rw [inside, Bool.eq_false_iff]
  intro h
  have hle := (List.isPrefixOf_iff_prefix.mp h).length_le
  rw [List.length_append, List.length_singleton] at hle
  omega

namespace Repo

variable (r : Repo) (p : String)

def free : Bool := r.entries.keys.all fun q => !inside q p && !inside p q

def isDir : Bool := r.entries.keys.any fun q => inside p q

def remove : Repo where
  entries := r.entries.erase p
  tree := fun a ha b hb =>
    r.tree a (AList.mem_erase.mp ha).2 b (AList.mem_erase.mp hb).2

/-- Create or replace an entry; a path in the way of the tree cannot be created. -/
def put (e : Entry) : Repo :=
  if h : r.free p = true then
    { entries := r.entries.insert p e
      tree := by
        have hfree : ∀ q ∈ r.entries, inside q p = false ∧ inside p q = false := by
          intro q hq
          have := List.all_eq_true.mp h q (AList.mem_keys.mpr hq)
          simpa using this
        intro a ha b hb
        rcases (AList.mem_insert _).mp ha with rfl | ha'
        · rcases (AList.mem_insert _).mp hb with rfl | hb
          · exact inside_self _
          · exact (hfree b hb).2
        · rcases (AList.mem_insert _).mp hb with rfl | hb
          · exact (hfree a ha').1
          · exact r.tree a ha' b hb }
  else r

/-- The join of a path onto the destination is refused on a path of the wrong
shape, through a file or symlink, and onto a symlink. -/
def secureJoin : Bool :=
  validatePagePath p && r.entries.keys.all (fun q => !inside q p) &&
    match r.entries.lookup p with
    | some (.link _) => false
    | _ => true

def readDisk : Except Failure (Option ByteArray) :=
  if r.secureJoin p = false then .error (.unsafePath p)
  else match r.entries.lookup p with
    | some (.file bytes) => .ok (some bytes)
    | some (.link _) => .error (.unsafePath p)
    | none => if r.isDir p then .error .unavailable else .ok none

/-- Whether there is anything at the path, and whether that is a regular file. -/
def inspect : Except Failure (Option Bool) :=
  if r.secureJoin p = false then .error (.unsafePath p)
  else match r.entries.lookup p with
    | some (.file _) => .ok (some true)
    | some (.link _) => .error (.unsafePath p)
    | none => if r.isDir p then .ok (some false) else .ok none

def readFile : Except Failure ByteArray :=
  match r.entries.lookup p with
  | some (.file bytes) => .ok bytes
  | some (.link (some bytes)) => .ok bytes
  | _ => .error .unavailable

def walk (families : List String) : List (String × Bool) :=
  (r.entries.keys.filter fun p => families.contains (familyOf p)).map fun p =>
    (p, match r.entries.lookup p with
      | some (.link _) => true
      | _ => false)

end Repo

/-! ### Requests -/

structure World where
  repo : Repo
  pages : Pages
  state : Option SyncState

inductive Precondition
  | latest (id : PageId)
  | absent

/-- The requests of a run.  A file write is one step, its check included; a file
delete is three. -/
inductive Call
  | listPages
  | walk (families : List String)
  | readDisk (path : String)
  | readPage (path : String) (ifNoneMatch : Option String)
  | toolsList
  | writePage (path : String) (m : PageMeta) (body : String) (pre : Precondition)
  | deletePage (path : String) (expected : PageId)
  | writeIfUnchanged (path : String) (expected : Option String) (bytes : ByteArray)
  | inspect (path : String)
  | readFile (path : String)
  | removeFile (path : String)
  | saveState (state : SyncState)

def Answer : Call → Type
  | .listPages => List String
  | .walk _ => List (String × Bool)
  | .readDisk _ => Option ByteArray
  | .readPage _ _ => PageRead
  | .toolsList => Bool
  | .writePage _ _ _ _ => Option PageId
  | .deletePage _ _ => Unit
  | .writeIfUnchanged _ _ _ => Bool
  | .inspect _ => Option Bool
  | .readFile _ => ByteArray
  | .removeFile _ => Unit
  | .saveState _ => Unit

section serve

variable (x : Externals) (srv : Server)

def Precondition.holds (pages : Pages) (p : String) : Precondition → Bool
  | .latest id => (pages.latest.lookup p).any fun v => v.id == id
  | .absent => (pages.latest.lookup p).isNone

variable (w : World)

/-- `memory_write_page`. -/
def World.writePage (p : String) (m : PageMeta) (body : String) (pre : Precondition) :
    World × Except Failure (Option PageId) :=
  if pre.holds w.pages p then
    match srv.stores p m body with
    | none => (w, .error .unavailable)
    | some c =>
      ({ w with pages := w.pages.put srv p c },
        .ok (if srv.modern then some w.pages.next else none))
  else (w, .error (.preconditionFailed p))

/-- `memory_delete_page`. -/
def World.deletePage (p : String) (expected : PageId) : World × Except Failure Unit :=
  if (Precondition.latest expected).holds w.pages p then
    ({ w with pages := w.pages.remove p }, .ok ())
  else (w, .error (.preconditionFailed p))

def World.writeIfUnchanged (p : String) (expected : Option String) (bytes : ByteArray) :
    World × Except Failure Bool :=
  match w.repo.readDisk p with
  | .error f => (w, .error f)
  | .ok current =>
    if current.map x.sha256Hex = expected then
      ({ w with repo := w.repo.put p (.file bytes) }, .ok true)
    else (w, .ok false)

def World.removeFile (p : String) : World × Except Failure Unit :=
  if p ∈ w.repo.entries then ({ w with repo := w.repo.remove p }, .ok ())
  else (w, .error .unavailable)

/-- The server compares-and-swaps on the id it is sent; a file is written only while it has the
expected hash. -/
def serve : (e : Call) → World → World × Except Failure (Answer e)
  | .listPages, w => (w, .ok w.pages.latest.keys)
  | .walk families, w => (w, .ok (w.repo.walk families))
  | .readDisk p, w => (w, w.repo.readDisk p)
  | .readPage p hint, w =>
    (w, match w.pages.read srv p hint with
      | some read => .ok read
      | none => .error .unavailable)
  | .toolsList, w => (w, .ok srv.modern)
  | .writePage p m body pre, w => w.writePage srv p m body pre
  | .deletePage p expected, w => w.deletePage p expected
  | .writeIfUnchanged p expected bytes, w => w.writeIfUnchanged x p expected bytes
  | .inspect p, w => (w, w.repo.inspect p)
  | .readFile p, w => (w, w.repo.readFile p)
  | .removeFile p, w => w.removeFile p
  | .saveState state, w => ({ w with state := some state }, .ok ())

inductive Fate
  | served
  | refused
  /-- It takes effect, but its answer never arrives. -/
  | lost
  /-- A listing, read in rounds while others write, shows these paths. -/
  | torn (seen : List String)

def sem : Fate → (e : Call) → World → World × Except Failure (Answer e)
  | .served, e, w => serve x srv e w
  | .refused, _, w => (w, .error .unavailable)
  | .lost, e, w => ((serve x srv e w).1, .error .unavailable)
  | .torn seen, .listPages, w => (w, .ok seen)
  | .torn seen, .walk _, w => (w, .ok (seen.map fun p => (p, false)))
  | .torn _, e, w => serve x srv e w

inductive Edit
  | putFile (path : String) (bytes : ByteArray)
  | putLink (path : String) (target : Option ByteArray)
  | removeFile (path : String)
  | putPage (path : String) (content : Content)
  | removePage (path : String)

def act : Edit → World → World
  | .putFile p bytes, w => { w with repo := w.repo.put p (.file bytes) }
  | .putLink p target, w => { w with repo := w.repo.put p (.link target) }
  | .removeFile p, w => { w with repo := w.repo.remove p }
  | .putPage p c, w => { w with pages := w.pages.put srv p c }
  | .removePage p, w => { w with pages := w.pages.remove p }

/-- The edit is one of the file at `p`. -/
def Edit.OnFile (p : String) : Edit → Prop
  | .putFile q _ | .putLink q _ | .removeFile q => q = p
  | .putPage _ _ | .removePage _ => False

/-- The edit is one of the server page at `p`. -/
def Edit.OnPage (p : String) : Edit → Prop
  | .putPage q _ | .removePage q => q = p
  | .putFile _ _ | .putLink _ _ | .removeFile _ => False

end serve

end Wikisync
