/-
The law of the inbox, over every interleaving of sends, pops, cancels and
edits by any callers, from the empty table.

The depth limit is checked where a message is sent.  An edit takes a message
out of the pending set and puts it back without a check, so the limit holds
along a run exactly when every message put back finds room (`RequeueRoom`).
The rest of the law holds along every run.
-/
import AiMemory.Store.Messages

open Table Runs List

namespace Messages

open Store

variable {v : String → Bool} {t : List MessageRow}

abbrev Keyed (t : List MessageRow) : Prop := KeyUnique (fun r : MessageRow => r.id) t

def MessageRow.settled (r : MessageRow) : Prop := r.state = .claimed ∨ r.state = .cancelled

def poppedIds (v : String → Bool) (t : List MessageRow) (ops : List MessageOp) : List MessageId :=
  (outputs (step v) (fun t op => (call v t op).2) t ops).filterMap fun
    | .popped message => message.map (·.id)
    | _ => none

def Answer.refused : Answer → Prop
  | .failed _ => True
  | .popped message => message = none
  | .editing message => message = none
  | .requeued changed => changed = false
  | .cancelled changed => changed = 0
  | .sent _ => False

/-- What every run of inbox calls keeps. -/
structure InboxLaw (v : String → Bool) (ops : List MessageOp) : Prop where
  capped : ∀ as bs, ops = as ++ bs → ∀ ws proj,
    pendingCount (exec (step v) [] as) ws proj ≤ maxPendingInboxMessages
  poppedOnce : (poppedIds v [] ops).Nodup
  poppedFor : ∀ as refs claim specificId now bs,
    ops = as ++ .pop refs claim specificId now :: bs → ∀ r,
    (call v (exec (step v) [] as) (.pop refs claim specificId now)).2 = .popped (some r) →
      r.toWorkspaceId = claim.workspaceId ∧ r.toProjectId = claim.projectId ∧
        (r.toAgent = none ∨ r.toAgent = some claim.claimingAgent)
  settledKept : ∀ as bs, ops = as ++ bs → ∀ r ∈ exec (step v) [] as, r.settled →
    r ∈ exec (step v) [] ops
  editedNotPopped : ∀ as refs claim specificId now bs,
    ops = as ++ .pop refs claim specificId now :: bs →
    ∀ r ∈ exec (step v) [] as, r.state = .editing →
      r ∈ step v (exec (step v) [] as) (.pop refs claim specificId now) ∧ ∀ r',
        (call v (exec (step v) [] as) (.pop refs claim specificId now)).2 = .popped (some r') →
          r'.id ≠ r.id
  refusedUnchanged : ∀ as op bs, ops = as ++ op :: bs →
    (call v (exec (step v) [] as) op).2.refused →
      step v (exec (step v) [] as) op = exec (step v) [] as

def RequeueRoom (t : List MessageRow) : MessageOp → Prop
  | .finishEdit ws proj id _ _ =>
    t.any (held ws proj id) = true → pendingCount t ws proj < maxPendingInboxMessages
  | _ => True

lemma keyed_nil : Keyed [] := nodup_nil

lemma keyed_step (op : MessageOp) (h : Keyed t) : Keyed (step v t op) := by
  rcases step_moves (v := v) (t := t) op with ⟨ws, proj, id, replacement, now, rfl⟩ | hmoves
  · rw [step_finishEdit]
    exact h.update (keeps_requeue replacement now).id
  · generalize step v t op = t' at hmoves
    cases hmoves with
    | same => exact h
    | sent r _ hfresh _ => exact keyUnique_append_singleton.mpr ⟨h, hfresh⟩
    | left p f hkeeps _ _ => exact h.update hkeeps.id

variable (ops : List MessageOp)

lemma keyed_exec : Keyed (exec (step v) [] ops) :=
  exec_invariant (fun _ op h => keyed_step op h) keyed_nil ops

/-! ### The depth of an inbox -/

variable {r r' : MessageRow} {ws : WorkspaceId} {proj : ProjectId} {op : MessageOp}
  {specificId : Option MessageId} {claim : MessageClaim} {refs : Refs} {now : ℤ}

lemma waiting_eq_false (hto : r.state ≠ .pending) : r.waiting ws proj = false:= by
  rw [Bool.eq_false_iff]
  intro hw
  exact hto (waiting_iff.mp hw).2

lemma pendingCount_sent (r : MessageRow) (ws : WorkspaceId) (proj : ProjectId) :
    pendingCount (t ++ [r]) ws proj =
      pendingCount t ws proj + if r.waiting ws proj then 1 else 0 := by
  rw [pendingCount, pendingCount, countP_append, countP_singleton]

lemma addressed_iff :
    r.addressed ws proj ↔ r.toWorkspaceId = ws ∧ r.toProjectId = proj := by
  simp [MessageRow.addressed]

lemma pendingCount_finishEdit (ws : WorkspaceId) (proj : ProjectId) (id : MessageId)
    (replacement : Option (Option String × String)) (now : ℤ) :
    pendingCount (step v t (.finishEdit ws proj id replacement now)) ws proj =
      pendingCount t ws proj + t.countP (held ws proj id) := by
  rw [step_finishEdit, pendingCount, pendingCount]
  refine countP_update_add (fun r hr => ?_) (fun r hr => ?_)
  · rw [Bool.eq_false_iff]
    intro hw
    have hediting := (held_iff.mp hr).2.2
    rw [(waiting_iff.mp hw).2] at hediting
    cases hediting
  · have haddr := (held_iff.mp hr).2.1
    rw [waiting_iff, (keeps_requeue replacement now).addressed]
    exact ⟨haddr, requeue_state replacement now r⟩

lemma pendingCount_finishEdit_other {ws ws' : WorkspaceId} {proj proj' : ProjectId}
    (id : MessageId) (replacement : Option (Option String × String)) (now : ℤ)
    (hother : ¬ (ws' = ws ∧ proj' = proj)) :
    pendingCount (step v t (.finishEdit ws proj id replacement now)) ws' proj' ≤
      pendingCount t ws' proj' := by
  rw [step_finishEdit, pendingCount, pendingCount]
  refine countP_update_le fun r hr hw => ?_
  have haddr := addressed_iff.mp (held_iff.mp hr).2.1
  rw [waiting_iff, (keeps_requeue replacement now).addressed, addressed_iff] at hw
  exact absurd ⟨hw.1.1.symm.trans haddr.1, hw.1.2.symm.trans haddr.2⟩ hother

lemma countP_held_le_one (h : Keyed t) (ws : WorkspaceId) (proj : ProjectId)
    (id : MessageId) : t.countP (held ws proj id) ≤ 1 :=
  h.countP_le_one fun _ _ hr => (held_iff.mp hr).1

def Capped (t : List MessageRow) : Prop :=
  ∀ ws proj, pendingCount t ws proj ≤ maxPendingInboxMessages

lemma pendingCount_step_le (hkeyed : Keyed t) (h : Capped t)
    (hroom : RequeueRoom t op) : Capped (step v t op) := by
  intro ws proj
  have hbound := h ws proj
  rcases step_moves (v := v) (t := t) op with ⟨ws', proj', id, replacement, now, rfl⟩ | hmoves
  · by_cases hsame : ws = ws' ∧ proj = proj'
    · obtain ⟨rfl, rfl⟩ := hsame
      rw [pendingCount_finishEdit]
      have hone := countP_held_le_one hkeyed ws proj id
      by_cases hany : t.any (held ws proj id)
      · have hlt : pendingCount t ws proj < maxPendingInboxMessages := hroom hany
        omega
      · have hzero : t.countP (held ws proj id) = 0 := by
          rw [countP_eq_zero]
          rw [any_eq_true] at hany
          exact fun r hr hheld => hany ⟨r, hr, hheld⟩
        omega
    · exact (pendingCount_finishEdit_other id replacement now hsame).trans hbound
  · generalize step v t op = t' at hmoves
    cases hmoves with
    | same => exact hbound
    | sent r _ _ hlt =>
      rw [pendingCount_sent]
      by_cases hw : r.waiting ws proj
      · obtain ⟨rfl, rfl⟩ := addressed_iff.mp (waiting_iff.mp hw).1
        rw [if_pos hw]
        omega
      · rw [if_neg hw]
        exact hbound
    | left p f _ _ hto =>
      refine le_trans (countP_update_le fun r _ hw => ?_) hbound
      rw [waiting_eq_false (hto r)] at hw
      cases hw

lemma capped_iff_guarded (hkeyed : Keyed t) (h : Capped t) :
    (∀ as bs, ops = as ++ bs → Capped (exec (step v) t as)) ↔
      Guarded (step v) RequeueRoom t ops := by
  refine prefixes_iff_guarded (I := fun t => Keyed t ∧ Capped t) (fun _ h => h.2)
    (fun t op h hroom => ⟨keyed_step op h.1, pendingCount_step_le h.1 h.2 hroom⟩) ?_ ⟨hkeyed, h⟩ ops
  rintro t op - hnext
  cases op with
  | finishEdit ws proj id replacement now =>
    -- what is put back is counted by the state after the step
    intro hany
    have hle := hnext ws proj
    rw [pendingCount_finishEdit] at hle
    have hpos : 0 < t.countP (held ws proj id) := by
      rw [countP_pos_iff]
      exact any_eq_true.mp hany
    omega
  | insert refs m id now | pop refs claim specificId now | cancel ws proj specificId
  | beginEdit ws proj id => exact trivial

lemma step_settled (op : MessageOp) (hr : r ∈ t) (hset : r.settled) :
    r ∈ step v t op := by
  have hpending : r.state ≠ .pending := by
    intro hp
    rcases hset with h | h <;> rw [hp] at h <;> cases h
  rcases step_moves (v := v) (t := t) op with ⟨ws, proj, id, replacement, now, rfl⟩ | hmoves
  · refine mem_update_of_not hr ?_
    rw [Bool.eq_false_iff]
    intro hheld
    have hediting := (held_iff.mp hheld).2.2
    rcases hset with h | h <;> rw [hediting] at h <;> cases h
  · generalize step v t op = t' at hmoves
    cases hmoves with
    | same => exact hr
    | sent r' _ _ _ => exact mem_append_left _ hr
    | left p f _ hfrom _ =>
      refine mem_update_of_not hr ?_
      rw [Bool.eq_false_iff]
      exact fun hp => hpending (hfrom r hp)

lemma exec_settled (hr : r ∈ t) (hset : r.settled) :
    r ∈ exec (step v) t ops := by
  have hstep : ∀ t op, r ∈ t → r ∈ step v t op := fun _ op h => step_settled op h hset
  exact exec_invariant (I := fun t => r ∈ t) hstep hr ops

lemma pop_spec (hkeyed : Keyed t)
    (h : (call v t (.pop refs claim specificId now)).2 = .popped (some r')) :
    ∃ r ∈ t, claim.mayPop r = true ∧ r' = claim.stamp now r ∧
      popTarget t claim specificId = some r.id ∧ step v t (.pop refs claim specificId now) =
        update (fun x => x.id = r.id && claim.mayPop x) (claim.stamp now) t := by
  rw [call] at h
  rw [step, call]
  cases hpop : popMessage v refs t claim specificId now with
  | error e => rw [hpop] at h; cases h
  | ok out =>
    obtain ⟨t', answer⟩ := out
    rw [hpop] at h
    have hanswer : answer = some r' := by
      rw [commit] at h
      exact Answer.popped.inj h
    rcases popMessage_ok hpop with
      ⟨-, hnone, -⟩ | ⟨target, ⟨r, hr, hid, hmay⟩, htarget, htable, hfind⟩
    · rw [hnone] at hanswer
      cases hanswer
    · refine ⟨r, hr, hmay, ?_, by rw [htarget, hid], by rw [commit, htable, hid]⟩
      -- the row found and the row stamped share their id
      have hkeyed' : Keyed t' := by
        rw [htable]
        exact hkeyed.update (keeps_stamp claim now).id
      have hstamped : claim.stamp now r ∈ t' := by
        rw [htable]
        exact mem_update_of_match hr (by simp [hid, hmay])
      have hfound : t'.find? (fun x =>
          x.id = target && x.addressed claim.workspaceId claim.projectId) = some r' := by
        rw [← hfind, hanswer]
      have hr'id : r'.id = target := by
        have hp := find?_some hfound
        rw [Bool.and_eq_true, decide_eq_true_eq] at hp
        exact hp.1
      exact hkeyed'.eq (mem_of_find?_eq_some hfound) hstamped (hr'id.trans hid.symm)

lemma mem_claimed_of_popped (hkeyed : Keyed t)
    (h : (call v t (.pop refs claim specificId now)).2 = .popped (some r')) :
    r' ∈ step v t (.pop refs claim specificId now) ∧ r'.state = .claimed := by
  obtain ⟨r, hr, hmay, rfl, -, htable⟩ := pop_spec hkeyed h
  rw [htable]
  exact ⟨mem_update_of_match hr (by simp [hmay]), rfl⟩

lemma popped_inv (h : (call v t op).2 = .popped (some r')) :
    ∃ refs claim specificId now, op = .pop refs claim specificId now := by
  cases op with
  | pop refs claim specificId now => exact ⟨refs, claim, specificId, now, rfl⟩
  | insert refs m id now =>
    rw [call] at h
    cases hx : insertMessage v refs t m id now <;> rw [hx] at h <;> cases h
  | cancel ws proj specificId | beginEdit ws proj id | finishEdit ws proj id replacement now =>
    cases h

def Spent (t : List MessageRow) (id : MessageId) : Prop :=
  ∃ r ∈ t, r.id = id ∧ r.state = .claimed

lemma poppedIds_nodup : (poppedIds v [] ops).Nodup := by
  -- a popped message is spent: it is claimed, and stays so
  have hticket : ∀ t op x, (match (call v t op).2 with
      | .popped message => message.map (·.id)
      | _ => none) = some x →
      ∃ refs claim specificId now r', op = .pop refs claim specificId now ∧
        (call v t op).2 = .popped (some r') ∧ r'.id = x := by
    intro t op x hx
    split at hx
    · rename_i message hanswer
      obtain ⟨r', rfl, hid⟩ := Option.map_eq_some_iff.mp hx
      obtain ⟨refs, claim, specificId, now, rfl⟩ := popped_inv hanswer
      exact ⟨refs, claim, specificId, now, r', rfl, hanswer, hid⟩
    · cases hx
  have hstay : ∀ t op x, Keyed t → Spent t x → Spent (step v t op) x := by
    rintro t op x - ⟨r, hr, hid, hst⟩
    exact ⟨r, step_settled op hr (.inl hst), hid, hst⟩
  refine (nodup_filterMap_outputs (fun _ op h => keyed_step op h) hstay ?_ ?_ keyed_nil ops).1
  · rintro t op x hkeyed hx ⟨r, hr, hid, hst⟩
    obtain ⟨refs, claim, specificId, now, r', rfl, hanswer, hid'⟩ := hticket t op x hx
    obtain ⟨r₀, hr₀, hmay, rfl, -⟩ := pop_spec hkeyed hanswer
    have hsame : r = r₀ := hkeyed.eq hr hr₀ (hid.trans hid'.symm)
    rw [hsame, (mayPop_iff.mp hmay).1.2] at hst
    cases hst
  · intro t op x hkeyed hx
    obtain ⟨refs, claim, specificId, now, r', rfl, hanswer, hid'⟩ := hticket t op x hx
    obtain ⟨hmem, hst⟩ := mem_claimed_of_popped hkeyed hanswer
    exact ⟨r', hmem, hid', hst⟩

lemma pop_editing (hkeyed : Keyed t) (hr : r ∈ t) (hst : r.state = .editing) :
    r ∈ step v t (.pop refs claim specificId now) ∧ ∀ r',
      (call v t (.pop refs claim specificId now)).2 = .popped (some r') → r'.id ≠ r.id := by
  constructor
  · rcases step_moves (v := v) (t := t) (.pop refs claim specificId now) with
      ⟨_, _, _, _, _, hop⟩ | hmoves
    · cases hop
    · generalize step v t (.pop refs claim specificId now) = t' at hmoves
      cases hmoves with
      | same => exact hr
      | sent r' _ _ _ => exact mem_append_left _ hr
      | left p f _ hfrom _ =>
        refine mem_update_of_not hr ?_
        rw [Bool.eq_false_iff]
        intro hp
        rw [hfrom r hp] at hst
        cases hst
  · intro r' hanswer hid
    obtain ⟨r₀, hr₀, hmay, rfl, -⟩ := pop_spec hkeyed hanswer
    have hsame : r₀ = r := hkeyed.eq hr₀ hr hid
    rw [hsame] at hmay
    rw [(mayPop_iff.mp hmay).1.2] at hst
    cases hst

lemma popMessage_none (h : popMessage v refs t claim specificId now = .ok (t', none)) :
    t' = t ∧ ∀ r ∈ t, popTarget t claim specificId = some r.id → claim.mayPop r = false := by
  rcases popMessage_ok h with
    ⟨htable, -, hnone⟩ | ⟨target, ⟨r, hr, hid, hmay⟩, -, htable, hfind⟩
  · exact ⟨htable, hnone⟩
  · -- the stamped row is there to be found
    have hstamped : claim.stamp now r ∈ t' := by
      rw [htable]
      exact mem_update_of_match hr (by simp [hid, hmay])
    rw [eq_comm, find?_eq_none] at hfind
    refine absurd ?_ (hfind _ hstamped)
    rw [Bool.and_eq_true, decide_eq_true_eq, (keeps_stamp claim now).addressed]
    exact ⟨hid, (mayPop_iff.mp hmay).1.1⟩

lemma pop_of_refused (h : (call v t (.pop refs claim specificId now)).2.refused) :
    step v t (.pop refs claim specificId now) = t := by
  rw [call] at h
  rw [step, call]
  cases hpop : popMessage v refs t claim specificId now with
  | error e => rfl
  | ok out =>
    obtain ⟨t', answer⟩ := out
    rw [hpop] at h
    obtain rfl : answer = none := h
    exact (popMessage_none hpop).1

lemma beginEdit_of_refused {id : MessageId} (h : (call v t (.beginEdit ws proj id)).2.refused) :
    step v t (.beginEdit ws proj id) = t := by
  rw [call, beginMessageEdit] at h
  rw [step, call, beginMessageEdit]
  by_cases hnone : t.countP (fun r => r.id = id && r.waiting ws proj) = 0
  · simp only [hnone, if_true]
  · simp only [hnone, if_false, Answer.refused, find?_eq_none] at h
    rw [← ne_eq, ← Nat.pos_iff_ne_zero, countP_pos_iff] at hnone
    obtain ⟨r, hr, hhit⟩ := hnone
    have hid := hhit
    rw [Bool.and_eq_true, decide_eq_true_eq] at hid
    exact (h _ (mem_update_of_match hr hhit) (decide_eq_true hid.1)).elim

lemma step_of_refused (h : (call v t op).2.refused) : step v t op = t := by
  cases op with
  | insert refs m id now =>
    rw [call] at h
    rw [step, call]
    cases hx : insertMessage v refs t m id now with
    | error e => rfl
    | ok out =>
      rw [hx] at h
      exact absurd h not_false
  | pop refs claim specificId now => exact pop_of_refused h
  | cancel ws proj specificId => exact update_of_countP_eq_zero h
  | beginEdit ws proj id => exact beginEdit_of_refused h
  | finishEdit ws proj id replacement now =>
    refine update_of_countP_eq_zero ?_
    have hnot := of_decide_eq_false h
    omega

/-- The law holds of a run exactly when every message put back in a queue finds
room there. -/
theorem inboxLaw_iff (v : String → Bool) (ops : List MessageOp) :
    InboxLaw v ops ↔ Guarded (step v) RequeueRoom [] ops := by
  have hcap : Capped [] := fun _ _ => Nat.zero_le _
  constructor
  · intro h
    exact (capped_iff_guarded ops keyed_nil hcap).mp h.capped
  · intro h
    refine ⟨(capped_iff_guarded ops keyed_nil hcap).mpr h, poppedIds_nodup ops, ?_, ?_, ?_, ?_⟩
    · intro as refs claim specificId now bs _ r hanswer
      obtain ⟨r₀, -, hmay, rfl, -⟩ := pop_spec (keyed_exec as) hanswer
      obtain ⟨⟨haddr, -⟩, hagent⟩ := mayPop_iff.mp hmay
      obtain ⟨hws, hproj⟩ := addressed_iff.mp haddr
      refine ⟨hws, hproj, ?_⟩
      change r₀.toAgent = none ∨ r₀.toAgent = some claim.claimingAgent
      cases hto : r₀.toAgent with
      | none => exact .inl rfl
      | some agent =>
        rw [hto, Option.all_some, decide_eq_true_eq] at hagent
        exact .inr (by rw [hagent])
    · intro as bs hsplit r hr hset
      rw [hsplit, exec_append]
      exact exec_settled bs hr hset
    · intro as refs claim specificId now bs _ r hr hst
      exact pop_editing (keyed_exec as) hr hst
    · intro as op bs _ hrefused
      exact step_of_refused hrefused

def note : NewAgentMessage where
  fromWorkspaceId := 1
  fromProjectId := 1
  fromAgent := "codex"
  fromSessionId := none
  fromOwnerUser := none
  toWorkspaceId := 1
  toProjectId := 1
  toAgent := none
  subject := none
  body := "look at this"
  nature := .reported
  evidence := none

/-- Send the note `n` times. -/
def fill (n : ℕ) : List MessageOp :=
  (List.range n).map fun i => .insert ⟨[1], [1], []⟩ note i i

lemma exec_fill (n : ℕ) (hn : n ≤ maxPendingInboxMessages) :
    exec (step fun _ => true) [] (fill n) = (List.range n).map fun i => note.row i i := by
  induction n with
  | zero => rfl
  | succ n ih =>
    have hsent := ih (by omega)
    have hcount : pendingCount ((List.range n).map fun i => note.row i i) 1 1 ≤ n := by
      simpa [pendingCount] using countP_le_length
        (p := MessageRow.waiting 1 1) (l := (List.range n).map fun i => note.row i i)
    have hfresh : ((List.range n).map fun i => note.row i i).any (fun r => r.id = n) = false := by
      rw [any_eq_false]
      intro r hr
      obtain ⟨i, hi, rfl⟩ := mem_map.mp hr
      have hlt : i < n := mem_range.mp hi
      exact Bool.eq_false_iff.mp (decide_eq_false hlt.ne)
    have hroom : ¬ maxPendingInboxMessages ≤
        pendingCount ((List.range n).map fun i => note.row i i) note.toWorkspaceId
          note.toProjectId := by
      change ¬ maxPendingInboxMessages ≤ pendingCount _ 1 1
      omega
    rw [fill, range_succ, map_append, exec_append, ← fill, hsent, map_append]
    simp only [map_singleton, exec_cons, exec_nil]
    rw [step, call, insertMessage, hfresh, if_neg (by decide), if_neg (by decide), if_neg hroom,
      if_neg (by decide)]
    rfl

/-- Fill the inbox, take one message out to edit it, send one more in its
place, and put the edited one back. -/
def overfill : List MessageOp :=
  fill maxPendingInboxMessages ++
    [.beginEdit 1 1 0, .insert ⟨[1], [1], []⟩ note 256 256, .finishEdit 1 1 0 none 257]

/-- The run that ends with 257 pending messages in one inbox. -/
theorem overfill_breaks_law : ¬ InboxLaw (fun _ => true) overfill := by
  intro h
  have hover : pendingCount (exec (step fun _ => true) [] overfill) 1 1 = 257 := by
    rw [overfill, exec_append, exec_fill _ le_rfl]
    decide +kernel
  have hle := h.capped overfill [] (append_nil _).symm 1 1
  rw [hover] at hle
  exact absurd hle (by decide)

lemma popMessage_isOk {v : String → Bool} {refs : Refs} {t : List MessageRow}
    {claim : MessageClaim} (specificId : Option MessageId) (now : ℤ)
    (hvalid : claim.claimingUser.all v) (hsession : claim.claimingSession.all (· ∈ refs.sessions)) :
    ∃ out, popMessage v refs t claim specificId now = .ok out := by
  rw [popMessage, hvalid, hsession]
  cases popTarget t claim specificId with
  | none => exact ⟨_, rfl⟩
  | some target =>
    dsimp only
    split
    · contradiction
    · split
      · exact ⟨_, rfl⟩
      · exact ⟨_, rfl⟩

/-- A pop that names no message takes the oldest its caller may take, and is
answered none only where there is none to take; with a valid owner key and a
known session it is answered. -/
theorem pop_takes_oldest (v : String → Bool) (ops : List MessageOp) (refs : Refs)
    (claim : MessageClaim) (now : ℤ) :
    let t := exec (step v) [] ops
    let answer := (call v t (.pop refs claim none now)).2
    (answer = .popped none → ∀ r ∈ t, claim.mayPop r = false) ∧
      (∀ r', answer = .popped (some r') → ∃ r ∈ t, r' = claim.stamp now r ∧
        claim.mayPop r = true ∧ ∀ q ∈ t, claim.mayPop q = true → r.createdAt ≤ q.createdAt) ∧
      (claim.claimingUser.all v = true → claim.claimingSession.all (· ∈ refs.sessions) = true →
        ∃ message, answer = .popped message) := by
  intro t answer
  have hkeyed : Keyed t := keyed_exec ops
  rw [← and_assoc]
  refine ⟨?_, fun hvalid hsession => ?_⟩
  swap
  · obtain ⟨⟨t', message⟩, hpop⟩ := popMessage_isOk (t := t) none now hvalid hsession
    exact ⟨message, by simp [answer, call, commit, hpop]⟩
  cases holdest : (t.filter claim.mayPop).argmin (·.createdAt) with
  | none =>
    have hnone : ∀ r ∈ t, claim.mayPop r = false := by
      simpa [filter_eq_nil_iff] using argmin_eq_none.mp holdest
    refine ⟨fun _ => hnone, fun r' hr' => ?_⟩
    obtain ⟨r, hr, hmay, -⟩ := pop_spec hkeyed hr'
    rw [hnone r hr] at hmay
    cases hmay
  | some r =>
    obtain ⟨hr, hmay⟩ := mem_filter.mp (argmin_mem holdest)
    have htarget : popTarget t claim none = some r.id := by rw [popTarget, holdest]; rfl
    constructor
    · intro hnone
      cases hpop : popMessage v refs t claim none now with
      | error e => simp [answer, call, commit, hpop] at hnone
      | ok out =>
        obtain ⟨t', popped⟩ := out
        obtain rfl : popped = none := by simpa [answer, call, commit, hpop] using hnone
        rw [(popMessage_none hpop).2 r hr htarget] at hmay
        cases hmay
    · intro r' hr'
      obtain ⟨q, hq, -, rfl, hid, -⟩ := pop_spec hkeyed hr'
      obtain rfl : r = q := hkeyed.eq hr hq (Option.some.inj (htarget.symm.trans hid))
      exact ⟨r, hr, rfl, hmay, fun q hq hmayq =>
        le_of_mem_argmin (mem_filter.mpr ⟨hq, hmayq⟩) holdest⟩

end Messages
