/-
Handoffs (`ai-memory-store/src/ops.rs`, table `handoffs`): the batons one
session leaves for the next.  A baton is open, accepted by a receiver, or
expired; a manual one has no source session.

Every function is one transaction of the source; an error is its rollback.
`validOwner` is whether `IdentityKey::from_storage_key` reads an owner back.

* `step` — one call by any caller, with its answer.
-/
import Mathlib.Data.List.MinMax
import Mathlib.Data.Prod.Lex
import Mathlib.Algebra.GroupWithZero.Nat
import AiMemory.Store.Ops
import AiMemory.Store.Text

open Table Runs

namespace Store

def handoffFieldMaxBytes : ℕ := 16 * 1024

def handoffListMaxItems : ℕ := 256

def boundHandoffField (value : String) : String := truncateUtf8Bytes value handoffFieldMaxBytes

def boundHandoffList (items : List String) : List String :=
  (items.take handoffListMaxItems).map boundHandoffField

/-! ### Directories -/

/-- `descendant` is `ancestor` or lies below it, at a component boundary. -/
def cwdWithin (ancestor descendant : String) : Bool :=
  let a := normalizeCwd ancestor
  let d := normalizeCwd descendant
  if a = d then true
  else if a = ['/'] then decide (d.head? = some '/') && decide (1 < d.length)
  else a.isPrefixOf d && decide ((d.drop a.length).head? = some '/')

/-- Whether an automatic handoff is eligible for a session starting in
`cwdFilter`. -/
def autoHandoffMatchesCwd : Option String → Option String → Bool
  | _, none => true
  | none, some _ => true
  | some handoffCwd, some sessionCwd => cwdWithin handoffCwd sessionCwd

def storedCwd (p : String) : String :=
  let trimmed := (p.toList.reverse.dropWhile fun c => c = '/' || c = '\\').reverse
  if trimmed = [] then "/" else String.ofList trimmed

end Store

namespace Handoffs

open Store

abbrev HandoffId := ℕ

inductive HandoffState
  | «open» | accepted | expired
  deriving DecidableEq

/-- A row of `handoffs`; the list columns hold JSON arrays. -/
structure HandoffRow where
  id : HandoffId
  workspaceId : WorkspaceId
  projectId : ProjectId
  fromSessionId : Option SessionId
  fromAgent : String
  toAgent : Option String
  cwd : Option String
  summary : String
  openQuestions : List String
  nextSteps : List String
  filesTouched : List String
  state : HandoffState
  createdAt : ℤ
  acceptedBy : Option String
  acceptedAt : Option ℤ
  acceptedBySession : Option SessionId
  ownerUser : Option String
  acceptedByUser : Option String
  deriving DecidableEq

structure NewHandoff where
  workspaceId : WorkspaceId
  projectId : ProjectId
  fromSessionId : Option SessionId
  fromAgent : String
  toAgent : Option String
  cwd : Option String
  summary : String
  openQuestions : List String
  nextSteps : List String
  filesTouched : List String
  ownerUser : Option String

structure HandoffAcceptance where
  handoffId : HandoffId
  workspaceId : WorkspaceId
  projectId : ProjectId
  acceptingAgent : String
  acceptingSession : Option SessionId
  acceptingUser : Option String
  ownerFilter : OwnerFilter
  receivingCwd : Option String

structure State where
  store : Store
  handoffs : List HandoffRow
  deriving DecidableEq

variable (s : Store)

def isLive (sid : SessionId) : Bool :=
  s.sessions.any fun r => r.id = sid && r.endedAt.isNone

/-- The session is open and captured something after `t`. -/
def busyAfter (sid : SessionId) (t : ℤ) : Bool :=
  isLive s sid && s.observations.any fun o => o.sessionId = sid && decide (t < o.createdAt)

def HandoffRow.inScope (ws : WorkspaceId) (proj : ProjectId) (r : HandoffRow) : Bool :=
  r.workspaceId = ws && r.projectId = proj

/-! ### Publishing -/

variable (h : NewHandoff)

/-- `cwd` in the form the row stores it. -/
def NewHandoff.stored : Option String := h.cwd.map storedCwd

def NewHandoff.row (id : HandoffId) (now : ℤ) : HandoffRow where
  id := id
  workspaceId := h.workspaceId
  projectId := h.projectId
  fromSessionId := h.fromSessionId
  fromAgent := h.fromAgent
  toAgent := h.toAgent
  cwd := h.stored
  summary := boundHandoffField h.summary
  openQuestions := boundHandoffList h.openQuestions
  nextSteps := boundHandoffList h.nextSteps
  filesTouched := boundHandoffList h.filesTouched
  state := .open
  createdAt := now
  acceptedBy := none
  acceptedAt := none
  acceptedBySession := none
  ownerUser := h.ownerUser
  acceptedByUser := none

/-- The batons a newer one from the same directory and owner retires: those of
its own session, and those whose session is no longer open. -/
def sameCwdSuperseded (keep : Option HandoffId)
    (r : HandoffRow) : Bool :=
  r.inScope h.workspaceId h.projectId && r.state = .open && r.cwd = h.stored
    && r.ownerUser = h.ownerUser && keep.all (· ≠ r.id)
    && r.fromSessionId.any fun sid => h.fromSessionId = some sid || !isLive s sid

variable (r : HandoffRow)

def HandoffRow.expire : HandoffRow := { r with state := .expired }

variable (t : List HandoffRow)

def expireSameCwdAutoHandoffs (h : NewHandoff)
    (keep : Option HandoffId) : List HandoffRow :=
  update (sameCwdSuperseded s h keep) HandoffRow.expire t

def NewHandoff.refresh (now : ℤ) (r : HandoffRow) : HandoffRow :=
  { r with
    cwd := h.stored
    summary := boundHandoffField h.summary
    openQuestions := boundHandoffList h.openQuestions
    nextSteps := boundHandoffList h.nextSteps
    filesTouched := boundHandoffList h.filesTouched
    createdAt := now }

def refreshHandoffRow (id : HandoffId) (h : NewHandoff)
    (now : ℤ) : List HandoffRow :=
  update (fun r => r.id = id && r.state = .open) (h.refresh now)
    (expireSameCwdAutoHandoffs s t h (some id))

/-- Clock readings are compared by the order of the integers itself. -/
local instance (priority := high) clockOrder : Preorder ℤ := Int.instLinearOrder.toPreorder

section Owners

variable (validOwner : String → Bool)

/-- The handoff `INSERT`, with its sweep, key, foreign key and trigger. -/
def insertHandoffRow (s : Store) (t : List HandoffRow) (h : NewHandoff) (id : HandoffId)
    (now : ℤ) : Except StoreError (List HandoffRow) :=
  if !h.ownerUser.all validOwner then .error .invalidState
  else
    let t := if h.fromSessionId.isSome then expireSameCwdAutoHandoffs s t h none else t
    if !s.paired h.workspaceId h.projectId || t.any (fun r => r.id = id)
        || !h.fromSessionId.all (fun sid => (s.findSession sid).isSome) then .error .constraint
    else .ok (t ++ [h.row id now])

variable (st : State)

def insertHandoff (h : NewHandoff) (id : HandoffId) (now : ℤ) :
    Except StoreError (State × HandoffId) := do
  let t ← insertHandoffRow validOwner st.store st.handoffs h id now
  return ({ st with handoffs := t }, id)

def ownBaton (sid : SessionId) (ws : WorkspaceId) (proj : ProjectId) (owner : Option String)
    (r : HandoffRow) : Bool :=
  r.fromSessionId = some sid && r.inScope ws proj && r.ownerUser = owner && r.state = .open

/-- Publish a live session's turn-checkpoint baton: refresh its own open one,
or insert one.  `none` when the session is not open. -/
def checkpointSessionHandoff (h : NewHandoff) (id : HandoffId) (now : ℤ) :
    Except StoreError (State × Option HandoffId) :=
  match h.fromSessionId with
  | none => .error .invalidState
  | some sid =>
    match st.store.sessions.find? fun r => r.id = sid && r.endedAt.isNone with
    | none => .ok (st, none)
    | some live =>
      if live.workspaceId ≠ h.workspaceId ∨ live.projectId ≠ h.projectId
          ∨ live.actorUser ≠ h.ownerUser then .error .invalidState
      else
        let own := st.handoffs.filter
          (ownBaton sid live.workspaceId live.projectId live.actorUser)
        match own.argmax (·.createdAt) with
        | some mine =>
          .ok ({ st with handoffs := refreshHandoffRow st.store st.handoffs mine.id h now },
            some mine.id)
        | none => do
          let t ← insertHandoffRow validOwner st.store st.handoffs h id now
          return ({ st with handoffs := t }, some id)

def endSessionWithHandoff (sid : SessionId) (summaryPageId : Option PageId)
    (h : NewHandoff) (id : HandoffId) (endedAt now : ℤ) :
    Except StoreError (State × HandoffId) :=
  if h.fromSessionId ≠ some sid then .error .invalidState
  else match st.store.findSession sid with
    | none => .error .invalidState
    | some r =>
      if r.workspaceId ≠ h.workspaceId ∨ r.projectId ≠ h.projectId then .error .invalidState
      else if r.actorUser ≠ h.ownerUser then .error .invalidState
      else do
        let s ← st.store.endSessionRow sid summaryPageId endedAt
        let t ← insertHandoffRow validOwner s st.handoffs h id now
        return (⟨s, t⟩, id)

/-! ### Claiming -/

/-- `reuses_session_id_after_end`: the agents that restart a conversation under
the id of its ended session. -/
def reusesSessionIdAfterEnd (agent : String) : Bool := agent = "grok" || agent = "kimi-code"

def operatorAgrees : OwnerFilter → Option String → Bool
  | .user expected, some actual => expected = actual
  | .user _, none => false
  | .unattributed, user => user.isNone
  | .any, _ => true

/-- `handoff_selection_key` of an automatic handoff: newest, then the most
specific directory, then the id. -/
def selectionKey (r : HandoffRow) : ℤ × ℕ × HandoffId :=
  (r.createdAt, (r.cwd.map fun cwd => ((normalizeCwd cwd).map Char.utf8Size).sum).getD 0, r.id)

def selectedBefore (a b : HandoffRow) : Bool :=
  let (t, n, i) := selectionKey a
  let (t', n', i') := selectionKey b
  decide (t < t') || (t = t' && (decide (n < n') || (n = n' && decide (i < i'))))

def spared (s : Store) (busySince : Option ℤ) (sid : SessionId) : Bool :=
  match busySince with
  | none => isLive s sid
  | some t => busyAfter s sid t

def superseded (s : Store) (accepted : HandoffRow) (receivingCwd : Option String)
    (busySince : Option ℤ) (r : HandoffRow) : Bool :=
  r.inScope accepted.workspaceId accepted.projectId && r.state = .open
    && r.fromSessionId.any (fun sid => !spared s busySince sid)
    && r.ownerUser = accepted.ownerUser
    && autoHandoffMatchesCwd r.cwd (receivingCwd.or accepted.cwd) && selectedBefore r accepted

variable (a : HandoffAcceptance)

def HandoffAcceptance.stamp (now : ℤ) (r : HandoffRow) : HandoffRow :=
  { r with
    state := .accepted
    acceptedBy := some a.acceptingAgent
    acceptedAt := some now
    acceptedBySession := a.acceptingSession
    acceptedByUser := a.acceptingUser }

def holdsBaton (t : List HandoffRow) (sid : SessionId) : Bool :=
  t.any fun r => r.state = .accepted && r.acceptedBySession = some sid

/-- What the claim makes of its receiver: the store to go on with, or `none`
when the receiver already took a baton. -/
def admitReceiver : Except StoreError (Option Store) :=
  match a.acceptingSession with
  | none => .ok (some st.store)
  | some sid =>
    match st.store.findSession sid with
    | none => .error .invalidState
    | some r =>
      if r.workspaceId ≠ a.workspaceId ∨ r.projectId ≠ a.projectId
          ∨ r.agentKind ≠ a.acceptingAgent then .error .invalidState
      else if holdsBaton st.handoffs sid then .ok none
      else if r.endedAt.isNone then .ok (some st.store)
      else if reusesSessionIdAfterEnd a.acceptingAgent then
        -- the row is opened again before the claim is known to succeed
        .ok (some { st.store with
          sessions := update (fun r => r.id = sid) (fun r => { r with endedAt := none })
            st.store.sessions })
      else .error .invalidState

def HandoffAcceptance.target (r : HandoffRow) : Bool :=
  r.id = a.handoffId && r.inScope a.workspaceId a.projectId && r.state = .open

/-- Mark a handoff accepted; `true` when this call is the one that claimed it. -/
def acceptHandoff (busySince : Option ℤ) (now : ℤ) :
    Except StoreError (State × Bool) :=
  if !a.acceptingUser.all validOwner then .error .invalidState
  else if !operatorAgrees a.ownerFilter a.acceptingUser then .error .invalidState
  else do
    match ← admitReceiver st a with
    | none => return (st, false)
    | some s =>
      let st : State := { st with store := s }
      match st.handoffs.find? a.target with
      | none => return (st, false)
      | some h =>
        if busySince.any fun t => h.fromSessionId.any fun sid => busyAfter s sid t then
          return (st, false)
        -- the owner check is part of the update
        let hit (r : HandoffRow) : Bool := a.target r && a.ownerFilter.admits r.ownerUser
        if !st.handoffs.any hit then return (st, false)
        let t := update hit (a.stamp now) st.handoffs
        let t := if h.fromSessionId.isSome then
          update (superseded s h a.receivingCwd busySince) HandoffRow.expire t else t
        return ({ st with handoffs := t }, true)

end Owners

def cancelHandoff (st : State) (id : HandoffId) (ws : WorkspaceId) (proj : ProjectId)
    (filter : OwnerFilter) : State × Bool :=
  let hit (r : HandoffRow) : Bool :=
    r.id = id && r.inScope ws proj && r.state = .open && filter.admits r.ownerUser
  ({ st with handoffs := update hit HandoffRow.expire st.handoffs }, st.handoffs.any hit)

def expireOpenHandoffs (st : State) (ws : WorkspaceId) (proj : ProjectId) (filter : OwnerFilter)
    (olderThan : Option ℤ) : State × ℕ :=
  let hit (r : HandoffRow) : Bool :=
    r.inScope ws proj && r.state = .open && filter.admits r.ownerUser
      && olderThan.all fun cutoff => decide (r.createdAt ≤ cutoff)
  ({ st with handoffs := update hit HandoffRow.expire st.handoffs }, st.handoffs.countP hit)

def HandoffRow.release : HandoffRow :=
  { r with
    state := .open
    acceptedBy := none
    acceptedAt := none
    acceptedBySession := none
    acceptedByUser := none }

def HandoffRow.heldBy (sid : SessionId) (r : HandoffRow) : Bool :=
  r.state = .accepted && r.acceptedBySession = some sid

inductive LifecycleEnd
  | substantive
  | ended (reopened : Option HandoffId)
  deriving DecidableEq

/-- `ORDER BY accepted_at DESC, created_at DESC`, nulls last. -/
def HandoffRow.acceptedKey : WithBot ℤ ×ₗ ℤ := toLex (r.acceptedAt, r.createdAt)

def lastAccepted (sid : SessionId) : Option HandoffRow :=
  (t.filter (HandoffRow.heldBy sid)).argmax HandoffRow.acceptedKey

/-- End a lifecycle-only session and return its startup handoff to the open
pool. -/
def endLifecycleOnlySession (st : State) (sid : SessionId) (now : ℤ) :
    Except StoreError (State × LifecycleEnd) := do
  match ← st.store.endLifecycleOnly sid now with
  | none => return (st, .substantive)
  | some s =>
    match lastAccepted st.handoffs sid with
    | none => return (⟨s, st.handoffs⟩, .ended none)
    | some h =>
      let t := update (fun r => r.id = h.id && r.heldBy sid) HandoffRow.release st.handoffs
      return (⟨s, t⟩, .ended (some h.id))

end Handoffs
