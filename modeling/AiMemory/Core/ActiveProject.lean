/-
The pointer to the active project (`ai-memory-core/src/active_project.rs`).

Hooks publish the project an agent works in; tools read it back as their default.  In
the keyed modes every actor has an entry of its own, which ages, beside a shared slot
for callers without a usable coordinate.

* `Op`, `step` — any of these as one step.

A clock reading is an argument of the call that takes it, and so is the order in which
the keyed map happens to be walked.  A read drops expired entries, so it is a step too.
-/
import AiMemory.Lib.TimedMap
import AiMemory.Store.Schema

namespace ActiveProjects

open Store

inductive ActiveProjectMode
  | single | perSession | perActor
  deriving DecidableEq

structure ActorKey where
  user : Option String
  sessionId : Option String
  deriving DecidableEq

def ActorKey.isEmpty (actor : ActorKey) : Bool := actor.user.isNone && actor.sessionId.isNone

def ActorKey.identityOnly (actor : ActorKey) : ActorKey := ⟨actor.user, none⟩

abbrev Target := WorkspaceId × ProjectId

structure Entry where
  ws : WorkspaceId
  proj : ProjectId
  defaultGlobal : Bool
  deriving DecidableEq

def Entry.target (e : Entry) : Target := (e.ws, e.proj)

abbrev PerActorMap := TimedMap ActorKey Entry

abbrev MapOrder := WalkOrder (Timed ActorKey Entry)

def defaultPerKeyTtl : ℕ := 60 * 60 * 1000000000

/-- `PerActorMap::new`: zero means the default time to live, and there is always room
for one entry. -/
def PerActorMap.new (ttl maxEntries : ℕ) : PerActorMap :=
  .empty (if ttl = 0 then defaultPerKeyTtl else ttl) (max maxEntries 1)
    (by
      split
      · decide
      · omega)
    (by omega)

structure ActiveProject where
  mode : ActiveProjectMode
  single : Option Target
  /-- The flag of the shared slot, kept beside it. -/
  singleDefaultGlobal : Bool
  perActor : PerActorMap
  everKeyed : Bool
  /-- What the database says was active last; only reads consult it. -/
  seeded : Option Target

def withConfig (mode : ActiveProjectMode) (ttl maxEntries : ℕ) : ActiveProject :=
  ⟨mode, none, false, .new ttl maxEntries, false, none⟩

namespace ActiveProject

variable (s : ActiveProject) (actor : ActorKey)

def scopedKey : ActorKey :=
  match s.mode with
  | .single => ⟨none, none⟩
  | .perSession => ⟨none, actor.sessionId⟩
  | .perActor => actor

def keyed : Bool :=
  !(s.mode = .single || actor.isEmpty) && !(s.scopedKey actor).isEmpty

def writesIdentity : Bool :=
  s.mode = .perActor && actor.user.isSome && actor.sessionId.isSome

def withIdentity (entry : Entry) (order : MapOrder) (now : ℕ) : PerActorMap :=
  if s.writesIdentity actor then s.perActor.insert order actor.identityOnly entry now
  else s.perActor

variable (ws : WorkspaceId) (proj : ProjectId) (defaultGlobal : Bool)

def setFor
    (order order' : MapOrder) (now now' : ℕ) : ActiveProject :=
  let shared := { s with
    single := some (ws, proj)
    singleDefaultGlobal := defaultGlobal }
  if s.keyed actor then
    let entry : Entry := ⟨ws, proj, defaultGlobal⟩
    { shared with
      everKeyed := true
      perActor := (s.withIdentity actor entry order now).insert order' (s.scopedKey actor) entry
        now' }
  else shared

def setScopedFor
    (order : MapOrder) (now : ℕ) : ActiveProject :=
  if s.keyed actor then
    { s with
      perActor := s.perActor.insert order (s.scopedKey actor) ⟨ws, proj, defaultGlobal⟩ now }
  else s

def set : ActiveProject := { s with single := some (ws, proj) }

def seedReadFallback : ActiveProject :=
  { s with seeded := some (ws, proj) }

/-! ### Reading -/

inductive ActiveProjectLookup
  | resolved (ws : WorkspaceId) (proj : ProjectId)
  | mismatch
  | unset
  deriving DecidableEq

inductive ReadPointer
  | session (ws : WorkspaceId) (proj : ProjectId)
  | sharedSlot (ws : WorkspaceId) (proj : ProjectId)
  | startupSeed (ws : WorkspaceId) (proj : ProjectId)
  | mismatch
  | unset
  deriving DecidableEq

def ReadPointer.ids : ReadPointer → Option Target
  | .session ws proj | .sharedSlot ws proj | .startupSeed ws proj => some (ws, proj)
  | .mismatch | .unset => none

def ActiveProjectLookup.fromSingle : Option Target → ActiveProjectLookup
  | some (ws, proj) => .resolved ws proj
  | none => .unset

variable (now : ℕ)

def lookupTraced : ActiveProjectLookup × Bool :=
  let shared := (ActiveProjectLookup.fromSingle s.single, false)
  if s.keyed actor then
    match s.perActor.get (s.scopedKey actor) now with
    | some entry => (.resolved entry.ws entry.proj, true)
    | none =>
      -- hooks are running, and this coordinate matches none of them
      if s.mode = .perActor && actor.user.isSome
          && (s.perActor.get actor.identityOnly now).isSome then (.mismatch, false)
      else if s.everKeyed then (.mismatch, false)
      else shared
  else shared

def lookupFor : ActiveProjectLookup := (s.lookupTraced actor now).1

def getFor : Option Target :=
  match s.lookupFor actor now with
  | .resolved ws proj => some (ws, proj)
  | .mismatch | .unset => none

def readPointer : ReadPointer :=
  match s.lookupTraced actor now with
  | (.resolved ws proj, true) => .session ws proj
  | (.resolved ws proj, false) => .sharedSlot ws proj
  | (.unset, _) => match s.seeded with
    | some (ws, proj) => .startupSeed ws proj
    | none => .unset
  | (.mismatch, _) => .mismatch

def getForRead : Option Target := (s.readPointer actor now).ids

def defaultGlobalFor : Bool :=
  if s.keyed actor then (s.perActor.get (s.scopedKey actor) now).any (·.defaultGlobal)
  else s.singleDefaultGlobal

def purged : ActiveProject := { s with perActor := s.perActor.purge now }

def afterLookup : ActiveProject :=
  if s.keyed actor then s.purged now else s

/-! ### Administration -/

def clear : ActiveProject :=
  { s with
    single := none
    seeded := none
    perActor := s.perActor.retain fun _ => false }

def retargetSlot (ws : WorkspaceId) (slot : Option Target) : Option Target :=
  slot.map fun t => if t.2 = proj then (ws, t.2) else t

def retargetProjectWorkspace (ws : WorkspaceId) (now : ℕ) : ActiveProject :=
  { s with
    single := retargetSlot proj ws s.single
    seeded := retargetSlot proj ws s.seeded
    perActor := (s.perActor.purge now).mapValues fun e =>
      if e.proj = proj then { e with ws := ws } else e }

def clearProject : ActiveProject :=
  { s with
    single := s.single.filter fun t => t.2 ≠ proj
    seeded := s.seeded.filter fun t => t.2 ≠ proj
    perActor := (s.perActor.purge now).retain fun r => r.value.proj ≠ proj }

def clearWorkspace : ActiveProject :=
  { s with
    single := s.single.filter fun t => t.1 ≠ ws
    seeded := s.seeded.filter fun t => t.1 ≠ ws
    perActor := (s.perActor.purge now).retain fun r => r.value.ws ≠ ws }

def slotHas (p : Target → Bool) (slot : Option Target) : Bool := slot.any p

def containsProject : Bool × ActiveProject :=
  if slotHas (·.2 = proj) s.single || slotHas (·.2 = proj) s.seeded then (true, s)
  else ((s.perActor.purge now).entries.any fun r => r.value.proj = proj, s.purged now)

def containsWorkspace : Bool × ActiveProject :=
  if slotHas (·.1 = ws) s.single || slotHas (·.1 = ws) s.seeded then (true, s)
  else ((s.perActor.purge now).entries.any fun r => r.value.ws = ws, s.purged now)

end ActiveProject

inductive Op
  | setFor (actor : ActorKey) (ws : WorkspaceId) (proj : ProjectId) (defaultGlobal : Bool)
      (order order' : MapOrder) (now now' : ℕ)
  | setScopedFor (actor : ActorKey) (ws : WorkspaceId) (proj : ProjectId) (defaultGlobal : Bool)
      (order : MapOrder) (now : ℕ)
  | set (ws : WorkspaceId) (proj : ProjectId)
  | seedReadFallback (ws : WorkspaceId) (proj : ProjectId)
  | clear
  | retargetProjectWorkspace (proj : ProjectId) (ws : WorkspaceId) (now : ℕ)
  | clearProject (proj : ProjectId) (now : ℕ)
  | clearWorkspace (ws : WorkspaceId) (now : ℕ)
  /-- `lookup_for`, `get_for`, `read_pointer`, `get_for_read` and `default_global_for`. -/
  | lookup (actor : ActorKey) (now : ℕ)
  | containsProject (proj : ProjectId) (now : ℕ)
  | containsWorkspace (ws : WorkspaceId) (now : ℕ)

def step (s : ActiveProject) : Op → ActiveProject
  | .setFor actor ws proj defaultGlobal order order' now now' =>
    s.setFor actor ws proj defaultGlobal order order' now now'
  | .setScopedFor actor ws proj defaultGlobal order now =>
    s.setScopedFor actor ws proj defaultGlobal order now
  | .set ws proj => s.set ws proj
  | .seedReadFallback ws proj => s.seedReadFallback ws proj
  | .clear => s.clear
  | .retargetProjectWorkspace proj ws now => s.retargetProjectWorkspace proj ws now
  | .clearProject proj now => s.clearProject proj now
  | .clearWorkspace ws now => s.clearWorkspace ws now
  | .lookup actor now => s.afterLookup actor now
  | .containsProject proj now => (s.containsProject proj now).2
  | .containsWorkspace ws now => (s.containsWorkspace ws now).2

end ActiveProjects
