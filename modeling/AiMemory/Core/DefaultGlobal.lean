/-
The recall flag and the project it was published with.

An entry of the keyed map holds the project and its flag together.  The shared slot keeps
them apart: `set_for` writes both, the legacy `set` only the project.  And the two reads
choose their slot on their own: a caller with a key that was never matched reads the
project of the shared slot, but never its flag.
-/
import AiMemory.Core.FailClosed
import Mathlib.Data.List.Induction

open Runs

namespace ActiveProjects

open Store ActiveProject
open TimedMap (mem_others mem_purge mem_retain)

variable {s : ActiveProject} {actor : ActorKey} {now : ℕ}

inductive Slot
  | shared
  | entry (key : ActorKey)
  deriving DecidableEq

/-- What a call publishes into a slot, with its flag; the legacy setter passes none. -/
def publishedTo (s : ActiveProject) : Slot → Op → Option (Target × Bool)
  | .shared, .setFor _ ws proj defaultGlobal _ _ _ _ => some ((ws, proj), defaultGlobal)
  | .shared, .set ws proj => some ((ws, proj), false)
  | .entry k, .setFor actor ws proj defaultGlobal _ _ _ _ =>
    if s.keyed actor && (k = s.scopedKey actor || (s.writesIdentity actor && k = actor.identityOnly))
    then some ((ws, proj), defaultGlobal) else none
  | .entry k, .setScopedFor actor ws proj defaultGlobal _ _ =>
    if s.keyed actor && k = s.scopedKey actor then some ((ws, proj), defaultGlobal) else none
  | _, _ => none

def lastPublish (s : ActiveProject) (slot : Slot) (ops : List Op) : Option (Target × Bool) :=
  ops.foldl (fun last op => (publishedTo s slot op).or last) none

/-- The flag of the last `set_for`. -/
def lastFlag (ops : List Op) : Bool :=
  ops.foldl (fun last op => match op with
    | .setFor _ _ _ defaultGlobal _ _ _ _ => defaultGlobal
    | _ => last) false

lemma lastPublish_append {slot : Slot} {ops : List Op} {op : Op} :
    lastPublish s slot (ops ++ [op]) = (publishedTo s slot op).or (lastPublish s slot ops) :=
  List.foldl_append

/-- The slot `get_for` reads. -/
def readSlot (s : ActiveProject) (actor : ActorKey) (now : ℕ) : Slot :=
  if s.keyed actor && (s.perActor.get (s.scopedKey actor) now).isSome then
    .entry (s.scopedKey actor)
  else .shared

/-! ### What is in a slot was published there -/

/-- The projects and flags of `s` are those of the last publishes of `ops`, a run of a
pointer that started as `start`. -/
structure Tracks (start : ActiveProject) (ops : List Op) (s : ActiveProject) : Prop where
  mode : s.mode = start.mode
  shared : ∀ ws proj, s.single = some (ws, proj) →
    ∃ ws' flag, lastPublish start .shared ops = some ((ws', proj), flag)
  entry : ∀ r ∈ s.perActor.entries,
    ∃ ws', lastPublish start (.entry r.key) ops = some ((ws', r.value.proj), r.value.defaultGlobal)
  flag : s.singleDefaultGlobal = lastFlag ops

section Tracks

variable {start : ActiveProject} {ops : List Op}

lemma insert_tracks {m : PerActorMap} {order : MapOrder} {k : ActorKey} {value : Entry}
    (last : ActorKey → Option (Target × Bool))
    (hrow : ∀ r ∈ m.entries, r.key ≠ k →
      ∃ ws', last r.key = some ((ws', r.value.proj), r.value.defaultGlobal))
    (hnew : last k = some (value.target, value.defaultGlobal)) :
    ∀ r ∈ (m.insert order k value now).entries,
      ∃ ws', last r.key = some ((ws', r.value.proj), r.value.defaultGlobal) := by
  intro r hr
  rcases TimedMap.mem_of_mem_insert hr with hother | rfl
  · exact hrow r (mem_others.mp hother).1 (mem_others.mp hother).2.2
  · exact ⟨value.ws, hnew⟩

lemma Tracks.quiet (h : Tracks start ops s) {op : Op} (hnone : ∀ slot, publishedTo start slot op = none)
    (hflag : lastFlag (ops ++ [op]) = lastFlag ops) {s' : ActiveProject} (hmode : s'.mode = s.mode)
    (hdefault : s'.singleDefaultGlobal = s.singleDefaultGlobal)
    (hsingle : ∀ ws proj, s'.single = some (ws, proj) → ∃ ws', s.single = some (ws', proj))
    (hentries : ∀ r' ∈ s'.perActor.entries, ∃ r ∈ s.perActor.entries, r'.key = r.key ∧
      r'.value.proj = r.value.proj ∧ r'.value.defaultGlobal = r.value.defaultGlobal) :
    Tracks start (ops ++ [op]) s' where
  mode := hmode.trans h.mode
  shared := by
    intro ws proj hs'
    obtain ⟨ws', hs⟩ := hsingle ws proj hs'
    rw [lastPublish_append, hnone, Option.none_or]
    exact h.shared ws' proj hs
  entry := by
    intro r' hr'
    obtain ⟨r, hr, hkey, hproj, hglobal⟩ := hentries r' hr'
    rw [lastPublish_append, hnone, Option.none_or, hkey, hproj, hglobal]
    exact h.entry r hr
  flag := by rw [hflag, hdefault, h.flag]

lemma Tracks.purged (h : Tracks start ops s) {op : Op}
    (hnone : ∀ slot, publishedTo start slot op = none)
    (hflag : lastFlag (ops ++ [op]) = lastFlag ops) (now : ℕ) :
    Tracks start (ops ++ [op]) (s.purged now) :=
  h.quiet hnone hflag rfl rfl (fun ws _ hs => ⟨ws, hs⟩)
    fun r hr => ⟨r, (mem_purge.mp hr).1, rfl, rfl, rfl⟩

lemma Tracks.same (h : Tracks start ops s) {op : Op}
    (hnone : ∀ slot, publishedTo start slot op = none)
    (hflag : lastFlag (ops ++ [op]) = lastFlag ops) : Tracks start (ops ++ [op]) s :=
  h.quiet hnone hflag rfl rfl (fun ws _ hs => ⟨ws, hs⟩) fun r hr => ⟨r, hr, rfl, rfl, rfl⟩

lemma lastFlag_append (ops : List Op) (op : Op) : lastFlag (ops ++ [op]) = match op with
    | .setFor _ _ _ defaultGlobal _ _ _ _ => defaultGlobal
    | _ => lastFlag ops := List.foldl_append

lemma Tracks.setFor (h : Tracks start ops s) (actor : ActorKey) (ws : WorkspaceId)
    (proj : ProjectId) (defaultGlobal : Bool) (order order' : MapOrder) (now now' : ℕ) :
    Tracks start (ops ++ [.setFor actor ws proj defaultGlobal order order' now now'])
      (s.setFor actor ws proj defaultGlobal order order' now now') := by
  have hshared : ∀ w p, some (ws, proj) = some (w, p) → ∃ ws' flag, lastPublish start .shared
      (ops ++ [.setFor actor ws proj defaultGlobal order order' now now']) =
        some ((ws', p), flag) := by
    intro w p heq
    obtain ⟨rfl, rfl⟩ : ws = w ∧ proj = p := by simpa using heq
    exact ⟨ws, defaultGlobal, lastPublish_append⟩
  have hflag := lastFlag_append ops (.setFor actor ws proj defaultGlobal order order' now now')
  have hkeys := keyed_congr h.mode actor
  have hscoped := scopedKey_congr h.mode actor
  have hpublished : ∀ k, lastPublish start (.entry k)
      (ops ++ [.setFor actor ws proj defaultGlobal order order' now now']) =
        if s.keyed actor && (k = s.scopedKey actor ||
          (s.writesIdentity actor && k = actor.identityOnly))
        then some ((ws, proj), defaultGlobal) else lastPublish start (.entry k) ops := by
    intro k
    rw [lastPublish_append, publishedTo, hkeys, hscoped]
    have hwrites : s.writesIdentity actor = start.writesIdentity actor := by
      rw [writesIdentity, writesIdentity, h.mode]
    rw [hwrites]
    split <;> rfl
  rw [ActiveProject.setFor]
  split
  · rename_i hkeyed
    refine ⟨h.mode, hshared, insert_tracks (fun k => lastPublish start (.entry k) _) ?_ ?_,
      hflag.symm⟩
    · -- the slot of the user is written first
      rw [withIdentity]
      split
      · rename_i hwrites
        intro r hr hne
        rcases TimedMap.mem_of_mem_insert hr with hother | rfl
        · obtain ⟨hr, -, hne'⟩ := mem_others.mp hother
          rw [hpublished, if_neg (by simp [hne, hne'])]
          exact h.entry r hr
        · refine ⟨ws, ?_⟩
          rw [hpublished, if_pos (by simp [hkeyed, hwrites])]
      · rename_i hwrites
        intro r hr hne
        rw [hpublished, if_neg (by simp [hne, hwrites])]
        exact h.entry r hr
    · rw [hpublished, if_pos (by simp [hkeyed])]
      rfl
  · rename_i hkeyed
    refine ⟨h.mode, hshared, fun r hr => ?_, hflag.symm⟩
    rw [hpublished, if_neg (by simp [hkeyed])]
    exact h.entry r hr

lemma Tracks.setScopedFor (h : Tracks start ops s) (actor : ActorKey) (ws : WorkspaceId)
    (proj : ProjectId) (defaultGlobal : Bool) (order : MapOrder) (now : ℕ) :
    Tracks start (ops ++ [.setScopedFor actor ws proj defaultGlobal order now])
      (s.setScopedFor actor ws proj defaultGlobal order now) := by
  have hpublished : ∀ k, lastPublish start (.entry k)
      (ops ++ [.setScopedFor actor ws proj defaultGlobal order now]) =
        if s.keyed actor && k = s.scopedKey actor then some ((ws, proj), defaultGlobal)
        else lastPublish start (.entry k) ops := by
    intro k
    rw [lastPublish_append, publishedTo, keyed_congr h.mode actor, scopedKey_congr h.mode actor]
    split <;> rfl
  have hshared : lastPublish start .shared
      (ops ++ [.setScopedFor actor ws proj defaultGlobal order now]) =
        lastPublish start .shared ops := lastPublish_append
  have hflag : lastFlag (ops ++ [.setScopedFor actor ws proj defaultGlobal order now]) =
      lastFlag ops := lastFlag_append ops _
  rw [ActiveProject.setScopedFor]
  split
  · rename_i hkeyed
    refine ⟨h.mode, ?_, insert_tracks (fun k => lastPublish start (.entry k) _)
      (fun r hr hne => ?_) ?_, hflag ▸ h.flag⟩
    · rw [hshared]
      exact h.shared
    · rw [hpublished, if_neg (by simp [hne])]
      exact h.entry r hr
    · rw [hpublished, if_pos (by simp [hkeyed])]
      rfl
  · rename_i hkeyed
    refine ⟨h.mode, ?_, fun r hr => ?_, hflag ▸ h.flag⟩
    · rw [hshared]
      exact h.shared
    · rw [hpublished, if_neg (by simp [hkeyed])]
      exact h.entry r hr

lemma step_tracks (h : Tracks start ops s) (op : Op) : Tracks start (ops ++ [op]) (step s op) := by
  have hfilter : ∀ (q : Target → Bool) ws proj, s.single.filter q = some (ws, proj) →
      ∃ ws', s.single = some (ws', proj) := fun q ws proj hs =>
    ⟨ws, (Option.filter_eq_some_iff.mp hs).1⟩
  cases op with
  | setFor actor ws proj defaultGlobal order order' now now' =>
    exact h.setFor actor ws proj defaultGlobal order order' now now'
  | setScopedFor actor ws proj defaultGlobal order now =>
    exact h.setScopedFor actor ws proj defaultGlobal order now
  | set ws proj =>
    refine ⟨h.mode, fun w p heq => ?_, fun r hr => ?_, ?_⟩
    · obtain ⟨rfl, rfl⟩ : ws = w ∧ proj = p := by simpa [step, ActiveProject.set] using heq
      exact ⟨ws, false, lastPublish_append⟩
    · rw [lastPublish_append]
      exact h.entry r hr
    · rw [lastFlag_append]
      exact h.flag
  | seedReadFallback ws proj =>
    exact h.quiet (fun slot => by cases slot <;> rfl) (lastFlag_append ops _) rfl rfl
      (fun ws _ hs => ⟨ws, hs⟩) fun r hr => ⟨r, hr, rfl, rfl, rfl⟩
  | clear =>
    exact h.quiet (fun slot => by cases slot <;> rfl) (lastFlag_append ops _) rfl rfl
      (fun _ _ hs => by cases hs) fun r hr => ⟨r, (mem_retain.mp hr).1, rfl, rfl, rfl⟩
  | retargetProjectWorkspace proj ws now =>
    refine h.quiet (fun slot => by cases slot <;> rfl) (lastFlag_append ops _) rfl rfl ?_ ?_
    · intro w p hs
      obtain ⟨t, ht, heq⟩ := Option.map_eq_some_iff.mp hs
      refine ⟨t.1, ?_⟩
      rw [ht]
      split at heq
      · cases heq
        rfl
      · rw [heq]
    · intro r' hr'
      obtain ⟨r, hr, rfl⟩ := List.mem_map.mp hr'
      refine ⟨r, (mem_purge.mp hr).1, rfl, ?_, ?_⟩
      · dsimp only
        split <;> rfl
      · dsimp only
        split <;> rfl
  | clearProject proj now | clearWorkspace ws now =>
    exact h.quiet (fun slot => by cases slot <;> rfl) (lastFlag_append ops _) rfl rfl (hfilter _)
      fun r hr => ⟨r, (mem_purge.mp (mem_retain.mp hr).1).1, rfl, rfl, rfl⟩
  | lookup actor now =>
    rw [step, afterLookup]
    split
    · exact h.purged (fun slot => by cases slot <;> rfl) (lastFlag_append ops _) now
    · exact h.same (fun slot => by cases slot <;> rfl) (lastFlag_append ops _)
  | containsProject proj now =>
    rw [step, ActiveProject.containsProject]
    split
    · exact h.same (fun slot => by cases slot <;> rfl) (lastFlag_append ops _)
    · exact h.purged (fun slot => by cases slot <;> rfl) (lastFlag_append ops _) now
  | containsWorkspace ws now =>
    rw [step, ActiveProject.containsWorkspace]
    split
    · exact h.same (fun slot => by cases slot <;> rfl) (lastFlag_append ops _)
    · exact h.purged (fun slot => by cases slot <;> rfl) (lastFlag_append ops _) now

lemma exec_tracks (mode : ActiveProjectMode) (ttl maxEntries : ℕ) (ops : List Op) :
    Tracks (withConfig mode ttl maxEntries) ops (exec step (withConfig mode ttl maxEntries) ops) := by
  induction ops using List.reverseRecOn with
  | nil => exact ⟨rfl, (fun _ _ h => nomatch h), (fun _ h => nomatch h), rfl⟩
  | append_singleton ops op ih =>
    rw [exec_append, exec_cons, exec_nil]
    exact step_tracks ih op

end Tracks

/-- Whenever `get_for` returns a project, it is the one that was last published into the
slot it read; and the flag that is read is the one that was passed there, exactly when the
caller reads its own entry; or reads the shared slot with a key, and `false` was passed; or
without one, and the last `set_for` passed that flag. -/
theorem default_global_law (mode : ActiveProjectMode) (ttl maxEntries : ℕ) (ops : List Op)
    (actor : ActorKey) (now : ℕ) (s : ActiveProject)
    (hs : s = exec step (withConfig mode ttl maxEntries) ops) (ws : WorkspaceId) (proj : ProjectId)
    (hget : s.getFor actor now = some (ws, proj)) :
    ∃ ws' flag, lastPublish (withConfig mode ttl maxEntries) (readSlot s actor now) ops =
        some ((ws', proj), flag) ∧
      (s.defaultGlobalFor actor now = flag ↔
        readSlot s actor now = .entry (s.scopedKey actor) ∨
        (s.keyed actor = true ∧ flag = false) ∨
        (s.keyed actor = false ∧ lastFlag ops = flag)) := by
  have htracks : Tracks (withConfig mode ttl maxEntries) ops s := by
    rw [hs]
    exact exec_tracks mode ttl maxEntries ops
  have hshared : ∀ answer : ActiveProjectLookup, answer = .fromSingle s.single →
      answer = .resolved ws proj → s.single = some (ws, proj) := by
    intro answer hanswer hresolved
    cases hsingle : s.single with
    | none =>
      rw [hanswer, hsingle] at hresolved
      cases hresolved
    | some t =>
      rw [hanswer, hsingle] at hresolved
      simp only [ActiveProjectLookup.fromSingle, ActiveProjectLookup.resolved.injEq] at hresolved
      rw [← hresolved.1, ← hresolved.2]
  have hresolved : s.lookupFor actor now = .resolved ws proj := by
    rw [getFor] at hget
    cases hlookup : s.lookupFor actor now with
    | resolved w p =>
      rw [hlookup] at hget
      simp only [Option.some.injEq, Prod.mk.injEq] at hget
      rw [hget.1, hget.2]
    | mismatch =>
      rw [hlookup] at hget
      cases hget
    | unset =>
      rw [hlookup] at hget
      cases hget
  cases hkeyed : s.keyed actor with
  | false =>
    have hslot : readSlot s actor now = .shared := by
      rw [readSlot, hkeyed]
      rfl
    have hsingle : s.single = some (ws, proj) := by
      refine hshared _ ?_ hresolved
      rw [lookupFor, lookupTraced, hkeyed]
      rfl
    obtain ⟨ws', flag, hlast⟩ := htracks.shared ws proj hsingle
    refine ⟨ws', flag, hslot ▸ hlast, ?_⟩
    have hflag : s.defaultGlobalFor actor now = lastFlag ops := by
      rw [defaultGlobalFor, hkeyed, ← htracks.flag]
      rfl
    rw [hflag, hslot]
    simp
  | true =>
    cases hentry : s.perActor.get (s.scopedKey actor) now with
    | some value =>
      have hslot : readSlot s actor now = .entry (s.scopedKey actor) := by
        rw [readSlot, hkeyed, hentry]
        rfl
      obtain ⟨r, hr, -, hk, rfl⟩ := TimedMap.get_eq_some.mp hentry
      have hproj : r.value.proj = proj := by
        rw [lookupFor, lookupTraced, if_pos hkeyed, hentry] at hresolved
        simpa using (ActiveProjectLookup.resolved.inj hresolved).2
      obtain ⟨ws', hlast⟩ := htracks.entry r hr
      rw [hk, hproj] at hlast
      refine ⟨ws', r.value.defaultGlobal, hslot ▸ hlast, ?_⟩
      have hflag : s.defaultGlobalFor actor now = r.value.defaultGlobal := by
        rw [defaultGlobalFor, if_pos hkeyed, hentry]
        rfl
      rw [hflag, hslot]
      simp
    | none =>
      have hslot : readSlot s actor now = .shared := by
        rw [readSlot, hkeyed, hentry]
        rfl
      have hsingle : s.single = some (ws, proj) := by
        rw [lookupFor, lookupTraced_miss hkeyed hentry] at hresolved
        split at hresolved
        · cases hresolved
        · exact hshared _ rfl hresolved
      obtain ⟨ws', flag, hlast⟩ := htracks.shared ws proj hsingle
      refine ⟨ws', flag, hslot ▸ hlast, ?_⟩
      have hflag : s.defaultGlobalFor actor now = false := by
        rw [defaultGlobalFor, if_pos hkeyed, hentry]
        rfl
      rw [hflag, hslot]
      simp only [reduceCtorEq, true_and, Bool.true_eq_false, false_and, or_false, false_or]
      exact eq_comm

/-- A session that opted in reads its own entry. -/
theorem default_global_law_own_entry :
    (exec step (withConfig .perActor 100 10)
      [.setFor (session "a") 1 5 true asIs asIs 10 11]).getFor (session "a") 20 = some (1, 5) ∧
    ∃ ws' flag, lastPublish (withConfig .perActor 100 10)
        (readSlot (exec step (withConfig .perActor 100 10)
          [.setFor (session "a") 1 5 true asIs asIs 10 11]) (session "a") 20)
        [.setFor (session "a") 1 5 true asIs asIs 10 11] = some ((ws', 5), flag) ∧
      (exec step (withConfig .perActor 100 10)
        [.setFor (session "a") 1 5 true asIs asIs 10 11]).defaultGlobalFor (session "a") 20 =
          flag := by
  have hget : (exec step (withConfig .perActor 100 10)
      [.setFor (session "a") 1 5 true asIs asIs 10 11]).getFor (session "a") 20 = some (1, 5) := by
    decide
  obtain ⟨ws', flag, hlast, hflag⟩ := default_global_law .perActor 100 10
    [.setFor (session "a") 1 5 true asIs asIs 10 11] (session "a") 20 _ rfl 1 5 hget
  exact ⟨hget, ws', flag, hlast, hflag.mpr (.inl (by decide))⟩

/-- The legacy setter leaves the flag of an earlier project; and a caller whose session
was never keyed reads a project that was published with the flag, but not the flag. -/
theorem reads_stale_flag :
    ((exec step (withConfig .single 100 10)
        [.setFor anonymous 1 5 true asIs asIs 10 11, .set 1 7]).getFor anonymous 20 = some (1, 7) ∧
      lastPublish (withConfig .single 100 10) .shared
        [.setFor anonymous 1 5 true asIs asIs 10 11, .set 1 7] = some ((1, 7), false) ∧
      (exec step (withConfig .single 100 10)
        [.setFor anonymous 1 5 true asIs asIs 10 11, .set 1 7]).defaultGlobalFor anonymous 20 =
          true) ∧
    (exec step (withConfig .perActor 100 10)
        [.setFor anonymous 1 5 true asIs asIs 10 11]).getFor (session "b") 20 = some (1, 5) ∧
      lastPublish (withConfig .perActor 100 10) .shared
        [.setFor anonymous 1 5 true asIs asIs 10 11] = some ((1, 5), true) ∧
      (exec step (withConfig .perActor 100 10)
        [.setFor anonymous 1 5 true asIs asIs 10 11]).defaultGlobalFor (session "b") 20 = false := by
  decide

end ActiveProjects
