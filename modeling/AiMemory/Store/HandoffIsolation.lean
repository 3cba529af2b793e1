/-
Operators do not reach into each other's handoffs.

A handoff carries the operator it belongs to, or none when it is shared.  The
filter of an operator admits its own rows and the shared ones, and both
automatic sweeps compare owners for equality, so whatever an operator does
leaves the rows of every other operator as they are.
-/
import AiMemory.Store.HandoffSteps

open Table Runs

namespace Handoffs

open Store

def OwnFilter (me : String) (filter : OwnerFilter) : Prop :=
  filter = .user me ∨ filter = .unattributed

def HandoffOp.actsFor (me : String) : HandoffOp → Prop
  | .insert h _ _ | .checkpoint h _ _ | .endWith _ _ h _ _ _ =>
    h.ownerUser = some me ∨ h.ownerUser = none
  | .accept a _ _ => OwnFilter me a.ownerFilter
  | .cancel _ _ _ filter => OwnFilter me filter
  | .expire _ _ filter _ => OwnFilter me filter
  | .endLifecycle _ _ | .beginSession _ _ | .endSession _ _ | .capture _ _ _ => False

def HandoffOp.sweepScope : HandoffOp → Option (WorkspaceId × ProjectId)
  | .insert h _ _ | .checkpoint h _ _ | .endWith _ _ h _ _ _ => some (h.workspaceId, h.projectId)
  | .accept a _ _ => some (a.workspaceId, a.projectId)
  | _ => none

def HandoffOp.claims : HandoffOp → Option HandoffId
  | .accept a _ _ => some a.handoffId
  | _ => none

/-- The row is still there, as it was. -/
def Unchanged (t' : List HandoffRow) (r : HandoffRow) : Prop :=
  r ∈ t' ∧ ∀ r' ∈ t', r'.id = r.id → r' = r

variable {v : String → Bool} {st : State} {t : List HandoffRow} {op : HandoffOp} {r r' : HandoffRow}

lemma OwnFilter.admits {me : String} {filter : OwnerFilter} (h : OwnFilter me filter)
    {owner : Option String} (hadmits : filter.admits owner) :
    owner = some me ∨ owner = none := by
  cases owner with
  | none => exact .inr rfl
  | some o =>
    rcases h with rfl | rfl
    · simp only [OwnerFilter.admits, decide_eq_true_eq] at hadmits
      exact .inl (by rw [hadmits])
    · simp [OwnerFilter.admits] at hadmits

lemma publishes_actsFor {me : String} {h : NewHandoff} (hme : op.actsFor me)
    (hop : op.publishes = some h) : h.ownerUser = some me ∨ h.ownerUser = none := by
  cases op <;> simp only [HandoffOp.publishes, Option.some.injEq, reduceCtorEq] at hop <;>
    exact hop ▸ hme

lemma Change.reaches {me : String} (hme : op.actsFor me) (h : Change t op r r') :
    r' = r ∨ r.ownerUser = some me ∨ r.ownerUser = none := by
  cases h with
  | same => exact .inl rfl
  | swept h hop _ _ howner _ _ =>
    rw [howner]
    exact .inr (publishes_actsFor hme hop)
  | refreshed h id now sid hop hown =>
    have howner := (ownBaton_iff.mp hown).2.2.1
    rw [howner]
    exact .inr (publishes_actsFor hme (by rw [hop]; rfl))
  | claimed a busySince now hop _ howner _ | cancelled id ws proj filter hop _ howner
  | expired ws proj filter olderThan hop _ howner =>
    rw [hop] at hme
    exact .inr (hme.admits howner)
  | superseded a busySince now owner hop _ _ _ howner hadmits =>
    rw [hop] at hme
    rw [howner]
    exact .inr (hme.admits hadmits)
  | released sid now hop _ =>
    rw [hop] at hme
    exact hme.elim

lemma Change.sweep_cases {ws : WorkspaceId} {proj : ProjectId}
    (hscope : op.sweepScope = some (ws, proj)) (h : Change t op r r') :
    r' = r ∨ (r.inScope ws proj ∧ (r.fromSessionId ≠ none ∨ op.claims = some r.id)) := by
  have hpub : ∀ h : NewHandoff, op.publishes = some h →
      h.workspaceId = ws ∧ h.projectId = proj := by
    intro h hop
    cases op <;> simp only [HandoffOp.publishes, Option.some.injEq, reduceCtorEq] at hop <;>
      simpa [HandoffOp.sweepScope, hop] using hscope
  have hacc : ∀ (a : HandoffAcceptance) busySince now, op = .accept a busySince now →
      a.workspaceId = ws ∧ a.projectId = proj := by
    intro a busySince now hop
    simpa [HandoffOp.sweepScope, hop] using hscope
  cases h with
  | same => exact .inl rfl
  | swept h hop _ hin _ hauto _ =>
    obtain ⟨rfl, rfl⟩ := hpub h hop
    exact .inr ⟨hin, .inl (Option.isSome_iff_ne_none.mp hauto)⟩
  | refreshed h id now sid hop hown =>
    obtain ⟨rfl, rfl⟩ := hpub h (by rw [hop]; rfl)
    obtain ⟨hfrom, hin, -, -⟩ := ownBaton_iff.mp hown
    exact .inr ⟨hin, .inl (by rw [hfrom]; simp)⟩
  | claimed a busySince now hop htarget _ _ =>
    obtain ⟨rfl, rfl⟩ := hacc a busySince now hop
    obtain ⟨hid, hin, -⟩ := target_iff.mp htarget
    exact .inr ⟨hin, .inr (by rw [hop, hid]; rfl)⟩
  | superseded a busySince now owner hop _ hin hauto _ _ =>
    obtain ⟨rfl, rfl⟩ := hacc a busySince now hop
    exact .inr ⟨hin, .inl (Option.isSome_iff_ne_none.mp hauto)⟩
  | cancelled id ws' proj' filter hop _ _ | expired ws' proj' filter olderThan hop _ _
  | released sid now hop _ => rw [hop] at hscope; cases hscope

lemma unchanged_of_change (hkeyed : Keyed st.handoffs) (hr : r ∈ st.handoffs)
    (hfix : ∀ r', Change st.handoffs op r r' → r' = r) :
    Unchanged (step v st op).handoffs r := by
  obtain ⟨g, new, htable, hchange, -⟩ := step_changes (v := v) op hkeyed
  have hmem : r ∈ (step v st op).handoffs := by
    rw [htable]
    refine List.mem_append_left _ (List.mem_map.mpr ⟨r, hr, hfix _ (hchange r hr)⟩)
  exact ⟨hmem, fun r' hr' hid => (keyed_step op hkeyed).eq hr' hmem hid⟩

lemma filter_owner_step {me other : String} (hne : me ≠ other) (hkeyed : Keyed st.handoffs)
    (hme : op.actsFor me) :
    (step v st op).handoffs.filter (fun r => r.ownerUser = some other) =
      st.handoffs.filter fun r => r.ownerUser = some other := by
  obtain ⟨g, new, htable, hchange, hadds⟩ := step_changes (v := v) op hkeyed
  have hnew : new.filter (fun r => r.ownerUser = some other) = [] := by
    rcases hadds with rfl | ⟨h, id, now, hop, rfl, -, -⟩
    · rfl
    · have howner : (h.row id now).ownerUser ≠ some other := by
        change h.ownerUser ≠ some other
        rcases publishes_actsFor hme hop with ho | ho <;> rw [ho]
        · simpa using hne
        · simp
      simp [howner]
  have hold : (st.handoffs.map g).filter (fun r => r.ownerUser = some other) =
      st.handoffs.filter fun r => r.ownerUser = some other := by
    refine filter_map_of_fixed fun r hr => ⟨by rw [(hchange r hr).keeps.2.1], fun hown => ?_⟩
    rw [decide_eq_true_eq] at hown
    rcases (hchange r hr).reaches hme with hsame | hown' | hown'
    · exact hsame
    · rw [hown, Option.some.injEq] at hown'
      exact absurd hown'.symm hne
    · rw [hown] at hown'
      cases hown'
  rw [htable, List.filter_append, hold, hnew, List.append_nil]

/-- In every reachable state: no operation carried out for one operator changes
a handoff of another, and no sweep inside an insert, a checkpoint, an end or a
claim changes a manual handoff or a handoff of another project. -/
theorem handoff_isolation (v : String → Bool) (s : Store) (ops : List HandoffOp)
    (op : HandoffOp) (me other : String) (hne : me ≠ other) :
    (op.actsFor me →
      (step v (exec (step v) ⟨s, []⟩ ops) op).handoffs.filter (fun r => r.ownerUser = some other)
        = (exec (step v) ⟨s, []⟩ ops).handoffs.filter fun r => r.ownerUser = some other) ∧
      ∀ ws proj, op.sweepScope = some (ws, proj) →
        ∀ r ∈ (exec (step v) ⟨s, []⟩ ops).handoffs,
          (r.inScope ws proj = false →
            Unchanged (step v (exec (step v) ⟨s, []⟩ ops) op).handoffs r) ∧
          (r.fromSessionId = none → op.claims ≠ some r.id →
            Unchanged (step v (exec (step v) ⟨s, []⟩ ops) op).handoffs r) := by
  have hkeyed := keyed_exec (v := v) s ops
  refine ⟨filter_owner_step hne hkeyed, fun ws proj hscope r hr => ⟨fun hout => ?_, ?_⟩⟩
  · refine unchanged_of_change hkeyed hr fun r' hch => ?_
    rcases hch.sweep_cases hscope with hsame | ⟨hin, -⟩
    · exact hsame
    · rw [hout] at hin
      cases hin
  · intro hmanual hclaim
    refine unchanged_of_change hkeyed hr fun r' hch => ?_
    rcases hch.sweep_cases hscope with hsame | ⟨-, hauto | hid⟩
    · exact hsame
    · exact absurd hmanual hauto
    · exact absurd hid hclaim

def oneProject : Store := { Store.empty with projects := [⟨1, 1⟩] }

def manualNote (owner : String) : NewHandoff where
  workspaceId := 1
  projectId := 1
  fromSessionId := none
  fromAgent := "codex"
  toAgent := none
  cwd := none
  summary := "tests are red"
  openQuestions := []
  nextSteps := []
  filesTouched := []
  ownerUser := some owner

/-- One operator clears the backlog; the other's handoff is still there. -/
theorem handoff_isolation_expire :
    ((exec (step fun _ => true) ⟨oneProject, []⟩
        [.insert (manualNote "bob") 1 10, .insert (manualNote "alice") 2 20]).handoffs.filter
      fun r => r.ownerUser = some "bob").length = 1 ∧
    (step (fun _ => true) (exec (step fun _ => true) ⟨oneProject, []⟩
        [.insert (manualNote "bob") 1 10, .insert (manualNote "alice") 2 20])
      (.expire 1 1 (.user "alice") none)).handoffs.filter (fun r => r.ownerUser = some "bob") =
    (exec (step fun _ => true) ⟨oneProject, []⟩
        [.insert (manualNote "bob") 1 10, .insert (manualNote "alice") 2 20]).handoffs.filter
      fun r => r.ownerUser = some "bob" :=
  ⟨by decide +kernel,
    (handoff_isolation (fun _ => true) oneProject
      [.insert (manualNote "bob") 1 10, .insert (manualNote "alice") 2 20]
      (.expire 1 1 (.user "alice") none) "alice" "bob" (by decide)).1 (.inl rfl)⟩

end Handoffs
