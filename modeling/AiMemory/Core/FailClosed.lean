/-
A keyed miss fails closed.

A caller with a usable coordinate that matches no live entry is answered from the shared
slot only on an install where nothing was ever keyed.  The flag that remembers this is
set by `set_for`; `set_scoped_for` publishes keyed entries without it.
-/
import AiMemory.Core.ActiveProject
import AiMemory.Lib.Runs

open Runs

namespace ActiveProjects

variable {s s' : ActiveProject} {actor : ActorKey} {now : ℕ}

open ActiveProject

lemma step_mode (s : ActiveProject) (op : Op) : (step s op).mode = s.mode := by
  cases op with
  | setFor actor ws proj defaultGlobal order order' now now' =>
    rw [step, setFor]
    split <;> rfl
  | setScopedFor actor ws proj defaultGlobal order now =>
    rw [step, setScopedFor]
    split <;> rfl
  | lookup actor now =>
    rw [step, afterLookup]
    split <;> rfl
  | containsProject proj now =>
    rw [step, ActiveProject.containsProject]
    split <;> rfl
  | containsWorkspace ws now =>
    rw [step, ActiveProject.containsWorkspace]
    split <;> rfl
  | _ => rfl

lemma scopedKey_congr (h : s'.mode = s.mode) (actor : ActorKey) :
    s'.scopedKey actor = s.scopedKey actor := by
  rw [scopedKey, scopedKey, h]

lemma keyed_congr (h : s'.mode = s.mode) (actor : ActorKey) : s'.keyed actor = s.keyed actor := by
  rw [keyed, keyed, h, scopedKey_congr h]

/-- A `set_for` of an actor that has a key. -/
def keysActor (s : ActiveProject) : Op → Bool
  | .setFor actor _ _ _ _ _ _ _ => s.keyed actor
  | _ => false

/-- A publish that inserts a keyed entry: by `set_for`, or by `set_scoped_for`. -/
def publishesKeyed (s : ActiveProject) : Op → Bool
  | .setFor actor _ _ _ _ _ _ _ | .setScopedFor actor _ _ _ _ _ => s.keyed actor
  | _ => false

lemma publishesKeyed_of_keysActor {op : Op} (h : keysActor s op) :
    publishesKeyed s op := by
  cases op with
  | setFor actor ws proj defaultGlobal order order' now now' => exact h
  | _ => cases h

lemma keysActor_congr (h : s'.mode = s.mode) (op : Op) : keysActor s' op = keysActor s op := by
  cases op with
  | setFor actor ws proj defaultGlobal order order' now now' => exact keyed_congr h actor
  | _ => rfl

lemma step_everKeyed (s : ActiveProject) (op : Op) :
    (step s op).everKeyed = (s.everKeyed || keysActor s op) := by
  cases op with
  | setFor actor ws proj defaultGlobal order order' now now' =>
    rw [step, setFor, keysActor]
    cases s.keyed actor <;> simp
  | setScopedFor actor ws proj defaultGlobal order now =>
    rw [step, setScopedFor]
    split <;> exact (Bool.or_false _).symm
  | lookup actor now =>
    rw [step, afterLookup]
    split <;> exact (Bool.or_false _).symm
  | containsProject proj now =>
    rw [step, ActiveProject.containsProject]
    split <;> exact (Bool.or_false _).symm
  | containsWorkspace ws now =>
    rw [step, ActiveProject.containsWorkspace]
    split <;> exact (Bool.or_false _).symm
  | _ => exact (Bool.or_false _).symm

lemma exec_everKeyed (s : ActiveProject) (ops : List Op) :
    (exec step s ops).everKeyed = (s.everKeyed || ops.any (keysActor s)) := by
  induction ops generalizing s with
  | nil => simp
  | cons op ops ih =>
    have hsame : keysActor (step s op) = keysActor s :=
      funext fun op' => keysActor_congr (step_mode s op) op'
    rw [exec_cons, ih, step_everKeyed, hsame, List.any_cons, Bool.or_assoc]

def identityLive (s : ActiveProject) (actor : ActorKey) (now : ℕ) : Bool :=
  s.mode = .perActor && actor.user.isSome && (s.perActor.get actor.identityOnly now).isSome

lemma lookupTraced_miss (hkeyed : s.keyed actor)
    (hmiss : s.perActor.get (s.scopedKey actor) now = none) :
    s.lookupTraced actor now = if identityLive s actor now || s.everKeyed then (.mismatch, false)
      else (.fromSingle s.single, false) := by
  rw [lookupTraced, if_pos hkeyed, hmiss]
  change (if identityLive s actor now = true then _ else _) = _
  cases identityLive s actor now with
  | true => rfl
  | false => rfl

lemma getFor_miss (hkeyed : s.keyed actor) (hmiss : s.perActor.get (s.scopedKey actor) now = none) :
    s.getFor actor now = none ↔
      s.everKeyed ∨ identityLive s actor now ∨ s.single = none := by
  rw [getFor, lookupFor, lookupTraced_miss hkeyed hmiss]
  cases identityLive s actor now with
  | true => simp
  | false =>
    cases s.everKeyed with
    | true => simp
    | false =>
      cases s.single with
      | none | some t => simp [ActiveProjectLookup.fromSingle]

lemma getForRead_miss (hkeyed : s.keyed actor)
    (hmiss : s.perActor.get (s.scopedKey actor) now = none) :
    s.getForRead actor now = none ↔ s.everKeyed ∨ identityLive s actor now ∨
        (s.single = none ∧ s.seeded = none) := by
  rw [getForRead, readPointer, lookupTraced_miss hkeyed hmiss]
  cases identityLive s actor now with
  | true => simp [ReadPointer.ids]
  | false =>
    cases s.everKeyed with
    | true => simp [ReadPointer.ids]
    | false =>
      cases s.single with
      | none =>
        cases s.seeded with
        | none | some t => simp [ActiveProjectLookup.fromSingle, ReadPointer.ids]
      | some t => simp [ActiveProjectLookup.fromSingle, ReadPointer.ids]

/-- After any run, a caller with a usable coordinate and no live entry gets no project once
a keyed entry was published, from the pointer or from a read, exactly when none was
published, or a `set_for` of a usable coordinate was among the calls, or its user has a
live entry of its own, or the slots that would answer are empty. -/
theorem fail_closed_law (mode : ActiveProjectMode) (ttl maxEntries : ℕ) (ops : List Op)
    (actor : ActorKey) (now : ℕ)
    (hkeyed : (exec step (withConfig mode ttl maxEntries) ops).keyed actor = true)
    (hmiss : (exec step (withConfig mode ttl maxEntries) ops).perActor.get
      ((exec step (withConfig mode ttl maxEntries) ops).scopedKey actor) now = none) :
    (((∃ op ∈ ops, publishesKeyed (withConfig mode ttl maxEntries) op = true) →
        (exec step (withConfig mode ttl maxEntries) ops).getFor actor now = none) ↔
      (∀ op ∈ ops, publishesKeyed (withConfig mode ttl maxEntries) op = false) ∨
      (∃ op ∈ ops, keysActor (withConfig mode ttl maxEntries) op = true) ∨
      identityLive (exec step (withConfig mode ttl maxEntries) ops) actor now = true ∨
      (exec step (withConfig mode ttl maxEntries) ops).single = none) ∧
    (((∃ op ∈ ops, publishesKeyed (withConfig mode ttl maxEntries) op = true) →
        (exec step (withConfig mode ttl maxEntries) ops).getForRead actor now = none) ↔
      (∀ op ∈ ops, publishesKeyed (withConfig mode ttl maxEntries) op = false) ∨
      (∃ op ∈ ops, keysActor (withConfig mode ttl maxEntries) op = true) ∨
      identityLive (exec step (withConfig mode ttl maxEntries) ops) actor now = true ∨
      ((exec step (withConfig mode ttl maxEntries) ops).single = none ∧
        (exec step (withConfig mode ttl maxEntries) ops).seeded = none)) := by
  have hflag : (exec step (withConfig mode ttl maxEntries) ops).everKeyed = true ↔
      ∃ op ∈ ops, keysActor (withConfig mode ttl maxEntries) op = true := by
    rw [exec_everKeyed, Bool.or_eq_true, List.any_eq_true]
    simp [withConfig]
  have hnever : (¬ ∃ op ∈ ops, publishesKeyed (withConfig mode ttl maxEntries) op = true) ↔
      ∀ op ∈ ops, publishesKeyed (withConfig mode ttl maxEntries) op = false := by simp
  rw [imp_iff_not_or, imp_iff_not_or, hnever, getFor_miss hkeyed hmiss,
    getForRead_miss hkeyed hmiss, hflag]
  exact ⟨Iff.rfl, Iff.rfl⟩

def asIs : MapOrder := ⟨id, fun _ => .refl _⟩

def session (id : String) : ActorKey := ⟨none, some id⟩

def anonymous : ActorKey := ⟨none, none⟩

/-- A session publishes project 5, then a caller without coordinates project 7. -/
def keyedThenAnonymous : List Op :=
  [.setFor (session "a") 1 5 false asIs asIs 10 11, .setFor anonymous 1 7 false asIs asIs 20 21]

theorem fail_closed_law_other_session :
    (exec step (withConfig .perActor 100 10) keyedThenAnonymous).getFor (session "b") 30 = none ∧
    (exec step (withConfig .perActor 100 10) keyedThenAnonymous).getForRead (session "b") 30 =
      none := by
  have hlaw := fail_closed_law .perActor 100 10 keyedThenAnonymous (session "b") 30
    (by decide) (by decide)
  have hkeys : ∃ op ∈ keyedThenAnonymous, keysActor (withConfig .perActor 100 10) op = true :=
    ⟨_, List.mem_cons_self, by decide⟩
  have hpublished : ∃ op ∈ keyedThenAnonymous,
      publishesKeyed (withConfig .perActor 100 10) op = true :=
    hkeys.imp fun _ h => ⟨h.1, publishesKeyed_of_keysActor h.2⟩
  exact ⟨hlaw.1.mpr (.inr (.inl hkeys)) hpublished, hlaw.2.mpr (.inr (.inl hkeys)) hpublished⟩

/-- The session's entry is only refreshed, as at the end of a turn: another session reads
the project of the anonymous caller. -/
theorem answers_from_shared_slot :
    (exec step (withConfig .perActor 100 10)
      [.setScopedFor (session "a") 1 5 false asIs 10,
        .setFor anonymous 1 7 false asIs asIs 20 21]).getFor (session "a") 30 = some (1, 5) ∧
    (exec step (withConfig .perActor 100 10)
      [.setScopedFor (session "a") 1 5 false asIs 10,
        .setFor anonymous 1 7 false asIs asIs 20 21]).readPointer (session "b") 30 =
      .sharedSlot 1 7 := by
  decide

end ActiveProjects
