/-
The inbox of a project (`ai-memory-store/src/ops.rs`, table `agent_messages`):
messages sent from one project to another, popped once by the recipient,
cancelled by the sender, or held out of the queue while they are edited.

Every function is one transaction of the source; an error is its rollback.
The rows a message may reference — workspaces, projects, sessions — are an
argument of the operation, as other operations change them in between.

* `Moves`, `step_moves` — all that a call can do to the table.
-/
import AiMemory.Store.Handoffs

open Table Runs

namespace Messages

open Store

abbrev MessageId := ℕ

inductive MessageState
  | pending | claimed | cancelled | editing
  deriving DecidableEq

inductive MessageNature
  | unknown | measured | reported | inferred
  deriving DecidableEq

/-- A row of `agent_messages`. -/
structure MessageRow where
  id : MessageId
  fromWorkspaceId : WorkspaceId
  fromProjectId : ProjectId
  fromAgent : String
  fromSessionId : Option SessionId
  fromOwnerUser : Option String
  toWorkspaceId : WorkspaceId
  toProjectId : ProjectId
  subject : Option String
  body : String
  state : MessageState
  createdAt : ℤ
  claimedAt : Option ℤ
  claimedBySession : Option SessionId
  claimedByAgent : Option String
  claimedByUser : Option String
  nature : Option MessageNature
  evidence : Option String
  toAgent : Option String
  editedAt : Option ℤ

structure NewAgentMessage where
  fromWorkspaceId : WorkspaceId
  fromProjectId : ProjectId
  fromAgent : String
  fromSessionId : Option SessionId
  fromOwnerUser : Option String
  toWorkspaceId : WorkspaceId
  toProjectId : ProjectId
  toAgent : Option String
  subject : Option String
  body : String
  nature : MessageNature
  evidence : Option String

structure MessageClaim where
  workspaceId : WorkspaceId
  projectId : ProjectId
  claimingSession : Option SessionId
  claimingAgent : String
  claimingUser : Option String

structure Refs where
  workspaces : List WorkspaceId
  projects : List ProjectId
  sessions : List SessionId

def messageFieldMaxBytes : ℕ := handoffFieldMaxBytes

def messageEvidenceMaxBytes : ℕ := 1000

def maxPendingInboxMessages : ℕ := 256

def boundMessageField (value : String) : String := truncateUtf8Bytes value messageFieldMaxBytes

def boundMessageEvidence (value : String) : String :=
  truncateUtf8Bytes value messageEvidenceMaxBytes

/-! ### The operations -/

variable (ws : WorkspaceId) (proj : ProjectId) (r : MessageRow)

def MessageRow.addressed : Bool :=
  r.toWorkspaceId = ws && r.toProjectId = proj

def MessageRow.waiting : Bool :=
  r.addressed ws proj && r.state = .pending

variable (claim : MessageClaim)

def MessageClaim.mayPop : Bool :=
  r.waiting claim.workspaceId claim.projectId && r.toAgent.all (· = claim.claimingAgent)

def pendingCount (t : List MessageRow) (ws : WorkspaceId) (proj : ProjectId) : ℕ :=
  t.countP (MessageRow.waiting ws proj)

def NewAgentMessage.row (m : NewAgentMessage) (id : MessageId) (now : ℤ) : MessageRow where
  id := id
  fromWorkspaceId := m.fromWorkspaceId
  fromProjectId := m.fromProjectId
  fromAgent := m.fromAgent
  fromSessionId := m.fromSessionId
  fromOwnerUser := m.fromOwnerUser
  toWorkspaceId := m.toWorkspaceId
  toProjectId := m.toProjectId
  subject := m.subject.map boundMessageField
  body := boundMessageField m.body
  state := .pending
  createdAt := now
  claimedAt := none
  claimedBySession := none
  claimedByAgent := none
  claimedByUser := none
  nature := some m.nature
  evidence := m.evidence.map boundMessageEvidence
  toAgent := m.toAgent
  editedAt := none

def Refs.resolves (refs : Refs) (m : NewAgentMessage) : Bool :=
  decide (m.fromWorkspaceId ∈ refs.workspaces) && decide (m.toWorkspaceId ∈ refs.workspaces)
    && decide (m.fromProjectId ∈ refs.projects) && decide (m.toProjectId ∈ refs.projects)
    && m.fromSessionId.all (· ∈ refs.sessions)

def MessageClaim.stamp (now : ℤ) (r : MessageRow) : MessageRow :=
  { r with
    state := .claimed
    claimedAt := some now
    claimedBySession := claim.claimingSession
    claimedByAgent := some claim.claimingAgent
    claimedByUser := claim.claimingUser }

def requeue (replacement : Option (Option String × String)) (now : ℤ) (r : MessageRow) :
    MessageRow :=
  match replacement with
  | none => { r with state := .pending }
  | some (subject, body) =>
    { r with
      state := .pending
      subject := subject.map boundMessageField
      body := boundMessageField body
      editedAt := some now }

/-- Clock readings are compared by the order of the integers itself. -/
local instance (priority := high) clockOrder : Preorder ℤ := Int.instLinearOrder.toPreorder

section Owners

variable (validOwner : String → Bool)

def insertMessage (refs : Refs) (t : List MessageRow) (m : NewAgentMessage) (id : MessageId)
    (now : ℤ) : Except StoreError (List MessageRow × MessageId) :=
  if !m.fromOwnerUser.all validOwner then .error .invalidState
  -- `evidence_required: measured messages require non-empty evidence`
  else if m.nature = .measured ∧ m.evidence.all isBlank then .error .invalidState
  -- the recipient inbox is full
  else if maxPendingInboxMessages ≤ pendingCount t m.toWorkspaceId m.toProjectId then
    .error .invalidState
  else if !refs.resolves m || t.any (fun r => r.id = id) then .error .constraint
  else .ok (t ++ [m.row id now], id)

def popTarget (t : List MessageRow) (claim : MessageClaim) : Option MessageId → Option MessageId
  | some id => some id
  | none => ((t.filter claim.mayPop).argmin (·.createdAt)).map (·.id)

def popMessage (refs : Refs) (t : List MessageRow) (claim : MessageClaim)
    (specificId : Option MessageId) (now : ℤ) :
    Except StoreError (List MessageRow × Option MessageRow) :=
  if !claim.claimingUser.all validOwner then .error .invalidState
  else match popTarget t claim specificId with
    | none => .ok (t, none)
    | some target =>
      let hit (r : MessageRow) : Bool := r.id = target && claim.mayPop r
      -- guard 1: the message is there, pending and for this caller
      if !t.any hit then .ok (t, none)
      else if !claim.claimingSession.all (· ∈ refs.sessions) then .error .constraint
      else
        -- guard 2: the update repeats the whole condition
        let t' := update hit (claim.stamp now) t
        .ok (t', t'.find? fun r => r.id = target && r.addressed claim.workspaceId claim.projectId)

end Owners

def cancelMessages (t : List MessageRow) (fromWs : WorkspaceId) (fromProj : ProjectId)
    (specificId : Option MessageId) : List MessageRow × ℕ :=
  let hit (r : MessageRow) : Bool := specificId.all (· = r.id) && r.fromWorkspaceId = fromWs
    && r.fromProjectId = fromProj && r.state = .pending
  (update hit (fun r => { r with state := .cancelled }) t, t.countP hit)

def beginMessageEdit (t : List MessageRow) (ws : WorkspaceId) (proj : ProjectId)
    (id : MessageId) : List MessageRow × Option MessageRow :=
  let hit (r : MessageRow) : Bool := r.id = id && r.waiting ws proj
  if t.countP hit = 0 then (t, none)
  else
    let t' := update hit (fun r => { r with state := .editing }) t
    (t', t'.find? fun r => r.id = id)

def held (id : MessageId) (r : MessageRow) : Bool :=
  r.id = id && r.addressed ws proj && r.state = .editing

/-- Put an `editing` message back in the queue, optionally with new text.  It
is not counted against the recipient's limit here. -/
def finishMessageEdit (t : List MessageRow) (ws : WorkspaceId) (proj : ProjectId)
    (id : MessageId) (replacement : Option (Option String × String)) (now : ℤ) :
    List MessageRow × Bool :=
  (update (held ws proj id) (requeue replacement now) t, decide (0 < t.countP (held ws proj id)))

inductive MessageOp
  | insert (refs : Refs) (m : NewAgentMessage) (id : MessageId) (now : ℤ)
  | pop (refs : Refs) (claim : MessageClaim) (specificId : Option MessageId) (now : ℤ)
  | cancel (fromWs : WorkspaceId) (fromProj : ProjectId) (specificId : Option MessageId)
  | beginEdit (ws : WorkspaceId) (proj : ProjectId) (id : MessageId)
  | finishEdit (ws : WorkspaceId) (proj : ProjectId) (id : MessageId)
      (replacement : Option (Option String × String)) (now : ℤ)

inductive Answer
  | sent (id : MessageId)
  | popped (message : Option MessageRow)
  | cancelled (changed : ℕ)
  | editing (message : Option MessageRow)
  | requeued (changed : Bool)
  | failed (e : StoreError)

def commit {β : Type} (t : List MessageRow) (answer : β → Answer) :
    Except StoreError (List MessageRow × β) → List MessageRow × Answer
  | .ok (t', b) => (t', answer b)
  | .error e => (t, .failed e)

def call (validOwner : String → Bool) (t : List MessageRow) : MessageOp → List MessageRow × Answer
  | .insert refs m id now => commit t .sent (insertMessage validOwner refs t m id now)
  | .pop refs claim specificId now =>
    commit t .popped (popMessage validOwner refs t claim specificId now)
  | .cancel ws proj specificId =>
    let (t', changed) := cancelMessages t ws proj specificId
    (t', .cancelled changed)
  | .beginEdit ws proj id =>
    let (t', message) := beginMessageEdit t ws proj id
    (t', .editing message)
  | .finishEdit ws proj id replacement now =>
    let (t', changed) := finishMessageEdit t ws proj id replacement now
    (t', .requeued changed)

def step (validOwner : String → Bool) (t : List MessageRow) (op : MessageOp) : List MessageRow :=
  (call validOwner t op).1

/-! ### What a call can do to the table -/

structure Keeps (f : MessageRow → MessageRow) : Prop where
  id : ∀ r, (f r).id = r.id
  addressed : ∀ r ws proj, (f r).addressed ws proj = r.addressed ws proj

/-- A call other than a finished edit leaves the table as it is, sends one
message into an inbox with room, or takes messages out of the queue. -/
inductive Moves (t : List MessageRow) : List MessageRow → Prop
  | same : Moves t t
  | sent (r : MessageRow) (hpending : r.state = .pending) (hfresh : ∀ r' ∈ t, r'.id ≠ r.id)
      (hroom : pendingCount t r.toWorkspaceId r.toProjectId < maxPendingInboxMessages) :
    Moves t (t ++ [r])
  | left (p : MessageRow → Bool) (f : MessageRow → MessageRow) (hkeeps : Keeps f)
      (hfrom : ∀ r, p r = true → r.state = .pending) (hto : ∀ r, (f r).state ≠ .pending) :
    Moves t (update p f t)

lemma waiting_iff {ws : WorkspaceId} {proj : ProjectId} {r : MessageRow} :
    r.waiting ws proj ↔ r.addressed ws proj ∧ r.state = .pending := by
  simp [MessageRow.waiting]

lemma mayPop_iff {claim : MessageClaim} {r : MessageRow} :
    claim.mayPop r ↔ (r.addressed claim.workspaceId claim.projectId ∧
      r.state = .pending) ∧ r.toAgent.all (· = claim.claimingAgent) := by
  rw [MessageClaim.mayPop, Bool.and_eq_true, waiting_iff]

lemma held_iff {ws : WorkspaceId} {proj : ProjectId} {id : MessageId} {r : MessageRow} :
    held ws proj id r ↔ r.id = id ∧ r.addressed ws proj ∧ r.state = .editing := by
  simp [held, and_assoc]

lemma keeps_stamp (now : ℤ) : Keeps (claim.stamp now) :=
  ⟨fun _ => rfl, fun _ _ _ => rfl⟩

lemma keeps_requeue (replacement : Option (Option String × String)) (now : ℤ) :
    Keeps (requeue replacement now) := by
  cases replacement with
  | none | some text => exact ⟨fun _ => rfl, fun _ _ _ => rfl⟩

lemma requeue_state (replacement : Option (Option String × String)) (now : ℤ) (r : MessageRow) :
    (requeue replacement now r).state = .pending := by
  cases replacement with
  | none => rfl
  | some text => rfl

section Calls

variable {v : String → Bool} {t t' : List MessageRow}

lemma insertMessage_ok {refs : Refs} {m : NewAgentMessage} {id id' : MessageId} {now : ℤ}
    (h : insertMessage v refs t m id now = .ok (t', id')) :
    t' = t ++ [m.row id now] ∧ (∀ r ∈ t, r.id ≠ id) ∧
      pendingCount t m.toWorkspaceId m.toProjectId < maxPendingInboxMessages := by
  unfold insertMessage at h
  split at h
  · cases h
  split at h
  · cases h
  split at h
  · cases h
  rename_i hroom
  split at h
  · cases h
  rename_i hkeys
  cases h
  rw [Bool.or_eq_true, not_or, Bool.not_eq_true, Bool.not_eq_true, List.any_eq_false] at hkeys
  exact ⟨rfl, fun r hr => by simpa using hkeys.2 r hr, by omega⟩

lemma popMessage_ok {refs : Refs} {claim : MessageClaim} {specificId : Option MessageId}
    {now : ℤ} {answer : Option MessageRow}
    (h : popMessage v refs t claim specificId now = .ok (t', answer)) :
    (t' = t ∧ answer = none ∧
        ∀ r ∈ t, popTarget t claim specificId = some r.id → claim.mayPop r = false) ∨
      ∃ target, (∃ r ∈ t, r.id = target ∧ claim.mayPop r) ∧
        popTarget t claim specificId = some target ∧
        t' = update (fun r => r.id = target && claim.mayPop r) (claim.stamp now) t ∧
        answer = t'.find? fun r =>
          r.id = target && r.addressed claim.workspaceId claim.projectId := by
  unfold popMessage at h
  split at h
  · cases h
  split at h
  · cases h
    rename_i hnone
    exact .inl ⟨rfl, rfl, fun r _ hid => by rw [hnone] at hid; cases hid⟩
  rename_i target htarget
  simp only at h
  split at h
  · cases h
    rename_i hany
    refine .inl ⟨rfl, rfl, fun r hr hid => ?_⟩
    obtain rfl : target = r.id := Option.some.inj (htarget.symm.trans hid)
    simpa using List.any_eq_false.mp ((Bool.not_eq_true' _).mp hany) r hr
  rename_i hany
  split at h
  · cases h
  cases h
  rw [Bool.not_eq_true', Bool.not_eq_false, List.any_eq_true] at hany
  obtain ⟨r, hr, hhit⟩ := hany
  rw [Bool.and_eq_true, decide_eq_true_eq] at hhit
  exact .inr ⟨target, ⟨r, hr, hhit⟩, htarget, rfl, rfl⟩

lemma step_moves (op : MessageOp) :
    (∃ ws proj id replacement now, op = .finishEdit ws proj id replacement now) ∨
      Moves t (step v t op) := by
  cases op with
  | insert refs m id now =>
    right
    rw [step, call]
    cases h : insertMessage v refs t m id now with
    | error e => exact .same
    | ok out =>
      obtain ⟨t', id'⟩ := out
      obtain ⟨htable, hfresh, hroom⟩ := insertMessage_ok h
      rw [commit, htable]
      exact .sent _ rfl hfresh hroom
  | pop refs claim specificId now =>
    right
    rw [step, call]
    cases h : popMessage v refs t claim specificId now with
    | error e => exact .same
    | ok out =>
      rcases popMessage_ok h with ⟨htable, -⟩ | ⟨target, -, -, htable, -⟩
      · rw [commit, htable]
        exact .same
      · rw [commit, htable]
        refine .left _ _ (keeps_stamp claim now) (fun r hr => ?_) (fun r => by
          simp [MessageClaim.stamp])
        rw [Bool.and_eq_true] at hr
        exact (mayPop_iff.mp hr.2).1.2
  | cancel ws proj specificId =>
    right
    refine .left _ _ ⟨fun _ => rfl, fun _ _ _ => rfl⟩ (fun r hr => ?_) (fun r => by simp)
    rw [Bool.and_eq_true, decide_eq_true_eq] at hr
    exact hr.2
  | beginEdit ws proj id =>
    right
    rw [step, call, beginMessageEdit]
    by_cases hnone : t.countP (fun r => r.id = id && r.waiting ws proj) = 0
    · simp only [hnone, if_true]
      exact .same
    · simp only [hnone, if_false]
      refine .left _ _ ⟨fun _ => rfl, fun _ _ _ => rfl⟩ (fun r hr => ?_) (fun r => by simp)
      rw [Bool.and_eq_true] at hr
      exact (waiting_iff.mp hr.2).2
  | finishEdit ws proj id replacement now =>
    left
    exact ⟨ws, proj, id, replacement, now, rfl⟩

lemma step_finishEdit (ws : WorkspaceId) (proj : ProjectId) (id : MessageId)
    (replacement : Option (Option String × String)) (now : ℤ) :
    step v t (.finishEdit ws proj id replacement now) =
      update (held ws proj id) (requeue replacement now) t := rfl

end Calls

end Messages
