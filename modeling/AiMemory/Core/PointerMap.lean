/-
The keyed map over whole runs.
-/
import AiMemory.Core.FailClosed

open Runs

namespace ActiveProjects

open Store ActiveProject
open TimedMap (fits_insert mem_of_mem_insert mem_others get_eq_some find?_eq_some mem_purge mem_retain)

variable {s : ActiveProject} {actor : ActorKey} {now now' : ℕ}

lemma step_fits (h : s.perActor.Fits) (op : Op) :
    (step s op).perActor.Fits ∧ (step s op).perActor.cap = s.perActor.cap := by
  have hwith : ∀ actor entry order now, (s.withIdentity actor entry order now).cap = s.perActor.cap := by
    intro actor entry order now
    rw [withIdentity]
    split <;> rfl
  cases op with
  | setFor actor ws proj defaultGlobal order order' now now' =>
    rw [step, setFor]
    split
    · exact ⟨fits_insert _ _ _ _ _, hwith _ _ _ _⟩
    · exact ⟨h, rfl⟩
  | setScopedFor actor ws proj defaultGlobal order now =>
    rw [step, setScopedFor]
    split
    · exact ⟨fits_insert _ _ _ _ _, rfl⟩
    · exact ⟨h, rfl⟩
  | set ws proj | seedReadFallback ws proj => exact ⟨h, rfl⟩
  | clear => exact ⟨h.retain _, rfl⟩
  | retargetProjectWorkspace proj ws now => exact ⟨(h.purge now).mapValues _, rfl⟩
  | clearProject proj now | clearWorkspace ws now => exact ⟨(h.purge now).retain _, rfl⟩
  | lookup actor now =>
    rw [step, afterLookup]
    split
    · exact ⟨h.purge now, rfl⟩
    · exact ⟨h, rfl⟩
  | containsProject proj now =>
    rw [step, ActiveProject.containsProject]
    split
    · exact ⟨h, rfl⟩
    · exact ⟨h.purge now, rfl⟩
  | containsWorkspace ws now =>
    rw [step, ActiveProject.containsWorkspace]
    split
    · exact ⟨h, rfl⟩
    · exact ⟨h.purge now, rfl⟩

lemma exec_fits (h : s.perActor.Fits) (ops : List Op) :
    (exec step s ops).perActor.Fits ∧ (exec step s ops).perActor.cap = s.perActor.cap := by
  refine exec_invariant
    (I := fun t : ActiveProject => t.perActor.Fits ∧ t.perActor.cap = s.perActor.cap)
    (fun t op ht => ?_) ⟨h, rfl⟩ ops
  obtain ⟨hfits, hcap⟩ := step_fits ht.1 op
  exact ⟨hfits, hcap.trans ht.2⟩

lemma get_insert_iff {m : PerActorMap} (hfits : m.Fits) (k : ActorKey) (entry : Entry)
    (now later : ℕ) :
    (∀ order, (m.insert order k entry now).get k later = some entry) ↔
      later - now < m.ttl ∧ ((m.others k now).length < m.cap ∨
        ∃ r ∈ m.others k now, r.inserted < now) := by
  rw [← TimedMap.find?_insert_self_iff hfits]
  have hown : ∀ order, ∀ r ∈ (m.insert order k entry now).entries, r.key = k →
      r = ⟨k, entry, now⟩ := by
    intro order r hr hk
    rcases mem_of_mem_insert hr with hother | rfl
    · exact absurd hk (mem_others.mp hother).2.2
    · rfl
  constructor
  · intro hall
    refine ⟨?_, fun order => ?_⟩
    · obtain ⟨r, hr, hlive, hk, -⟩ := get_eq_some.mp (hall asIs)
      rw [hown asIs r hr hk] at hlive
      exact hlive
    · obtain ⟨r, hr, -, hk, hv⟩ := get_eq_some.mp (hall order)
      exact find?_eq_some.mpr ⟨r, hr, hk, hv⟩
  · rintro ⟨hlive, hall⟩ order
    obtain ⟨r, hr, hk, hv⟩ := find?_eq_some.mp (hall order)
    refine get_eq_some.mpr ⟨r, hr, ?_, hk, hv⟩
    rw [hown order r hr hk]
    exact hlive

lemma withIdentity_fits (h : s.perActor.Fits) (actor : ActorKey) (entry : Entry)
    (order : MapOrder) (now : ℕ) : (s.withIdentity actor entry order now).Fits := by
  rw [withIdentity]
  split
  · exact fits_insert _ _ _ _ _
  · exact h

lemma setFor_resolves_iff (hfits : s.perActor.Fits) (actor : ActorKey) (ws : WorkspaceId)
    (proj : ProjectId) (defaultGlobal : Bool) (order : MapOrder) (now now' later : ℕ) :
    (∀ order', (s.setFor actor ws proj defaultGlobal order order' now now').lookupFor actor later =
      .resolved ws proj) ↔
      s.keyed actor = false ∨ (later - now' < s.perActor.ttl ∧
          (((s.withIdentity actor ⟨ws, proj, defaultGlobal⟩ order now).others (s.scopedKey actor)
            now').length < s.perActor.cap ∨
          ∃ r ∈ (s.withIdentity actor ⟨ws, proj, defaultGlobal⟩ order now).others
            (s.scopedKey actor) now', r.inserted < now')) := by
  have hkeys : ∀ order', (s.setFor actor ws proj defaultGlobal order order' now now').keyed actor =
      s.keyed actor := fun order' =>
    keyed_congr (step_mode s (.setFor actor ws proj defaultGlobal order order' now now')) actor
  cases hkeyed : s.keyed actor with
  | false =>
    refine ⟨fun _ => .inl rfl, fun _ order' => ?_⟩
    have hsingle : (s.setFor actor ws proj defaultGlobal order order' now now').single =
        some (ws, proj) := by
      rw [setFor, hkeyed]
      rfl
    rw [lookupFor, lookupTraced, hkeys, hkeyed, hsingle]
    rfl
  | true =>
    set base := s.withIdentity actor ⟨ws, proj, defaultGlobal⟩ order now with hbase
    have hshape : base.ttl = s.perActor.ttl ∧ base.cap = s.perActor.cap := by
      rw [hbase, withIdentity]
      split <;> exact ⟨rfl, rfl⟩
    have hlookup : ∀ order', (s.setFor actor ws proj defaultGlobal order order' now now').lookupFor
        actor later = .resolved ws proj ↔
          (base.insert order' (s.scopedKey actor) ⟨ws, proj, defaultGlobal⟩ now').get
            (s.scopedKey actor) later = some ⟨ws, proj, defaultGlobal⟩ := by
      intro order'
      have hscoped : (s.setFor actor ws proj defaultGlobal order order' now now').scopedKey actor =
          s.scopedKey actor :=
        scopedKey_congr (step_mode s (.setFor actor ws proj defaultGlobal order order' now now')) actor
      have hmap : (s.setFor actor ws proj defaultGlobal order order' now now').perActor =
          base.insert order' (s.scopedKey actor) ⟨ws, proj, defaultGlobal⟩ now' := by
        rw [setFor, if_pos hkeyed]
      have hflag : (s.setFor actor ws proj defaultGlobal order order' now now').everKeyed := by
        rw [setFor, if_pos hkeyed]
      cases hget : (base.insert order' (s.scopedKey actor) ⟨ws, proj, defaultGlobal⟩ now').get
          (s.scopedKey actor) later with
      | none =>
        rw [lookupFor, lookupTraced_miss ((hkeys order').trans hkeyed) (by rw [hscoped, hmap, hget]),
          hflag, Bool.or_true]
        simp
      | some entry =>
        obtain ⟨r, hr, -, hk, hv⟩ := get_eq_some.mp hget
        rcases mem_of_mem_insert hr with hother | hnew
        · exact absurd hk (mem_others.mp hother).2.2
        · rw [lookupFor, lookupTraced, if_pos ((hkeys order').trans hkeyed), hscoped, hmap, hget,
            ← hv, hnew]
          simp
    have hget := get_insert_iff (withIdentity_fits hfits actor ⟨ws, proj, defaultGlobal⟩ order now)
      (s.scopedKey actor) ⟨ws, proj, defaultGlobal⟩ now' later
    rw [← hbase, hshape.1, hshape.2] at hget
    rw [forall_congr' hlookup, hget]
    simp

/-! ### What was cleared -/

structure Lacks (p : Target → Prop) (s : ActiveProject) : Prop where
  single : ∀ t ∈ s.single, ¬ p t
  seeded : ∀ t ∈ s.seeded, ¬ p t
  entries : ∀ r ∈ s.perActor.entries, ¬ p r.value.target

def Op.published : Op → Option Target
  | .setFor _ ws proj _ _ _ _ _ => some (ws, proj)
  | .setScopedFor _ ws proj _ _ _ => some (ws, proj)
  | .set ws proj => some (ws, proj)
  | .seedReadFallback ws proj => some (ws, proj)
  | _ => none

def Op.moved : Op → Target → Target
  | .retargetProjectWorkspace proj ws _, t => if t.2 = proj then (ws, t.2) else t
  | _, t => t

/-- The call neither publishes a target of this kind nor turns another into one. -/
def Op.Spares (p : Target → Prop) (op : Op) : Prop :=
  (∀ t ∈ op.published, ¬ p t) ∧ ∀ t, ¬ p t → ¬ p (op.moved t)

section Lacks

variable {p : Target → Prop}

lemma some_lacks {t : Target} (h : ¬ p t) : ∀ u ∈ some t, ¬ p u := by
  intro u hu
  rw [← Option.mem_some_iff.mp hu]
  exact h

lemma insert_lacks {m : PerActorMap} {order : MapOrder} {k : ActorKey} {entry : Entry}
    (h : ∀ r ∈ m.entries, ¬ p r.value.target) (hentry : ¬ p entry.target) :
    ∀ r ∈ (m.insert order k entry now).entries, ¬ p r.value.target := by
  intro r hr
  rcases mem_of_mem_insert hr with hother | rfl
  · exact h r (mem_others.mp hother).1
  · exact hentry

lemma Lacks.purged (h : Lacks p s) (now : ℕ) : Lacks p (s.purged now) :=
  ⟨h.single, h.seeded, fun r hr => h.entries r (mem_purge.mp hr).1⟩

lemma filter_lacks {slot : Option Target} {q : Target → Bool} (h : ∀ t ∈ slot, ¬ p t) :
    ∀ t ∈ slot.filter q, ¬ p t := fun t ht => h t (Option.mem_filter_iff.mp ht).1

lemma step_lacks (h : Lacks p s) {op : Op} (hop : op.Spares p) : Lacks p (step s op) := by
  cases op with
  | setFor actor ws proj defaultGlobal order order' now now' =>
    have hnew : ¬ p (ws, proj) := hop.1 (ws, proj) rfl
    rw [step, setFor]
    split
    · refine ⟨some_lacks hnew, h.seeded, insert_lacks ?_ hnew⟩
      rw [withIdentity]
      split
      · exact insert_lacks h.entries hnew
      · exact h.entries
    · exact ⟨some_lacks hnew, h.seeded, h.entries⟩
  | setScopedFor actor ws proj defaultGlobal order now =>
    rw [step, setScopedFor]
    split
    · exact ⟨h.single, h.seeded, insert_lacks h.entries (hop.1 (ws, proj) rfl)⟩
    · exact h
  | set ws proj =>
    exact ⟨some_lacks (hop.1 (ws, proj) rfl), h.seeded, h.entries⟩
  | seedReadFallback ws proj =>
    exact ⟨h.single, some_lacks (hop.1 (ws, proj) rfl), h.entries⟩
  | clear => exact ⟨by simp [step, ActiveProject.clear], by simp [step, ActiveProject.clear],
      fun r hr => h.entries r (mem_retain.mp hr).1⟩
  | retargetProjectWorkspace proj ws now =>
    have hslot : ∀ slot : Option Target, (∀ t ∈ slot, ¬ p t) →
        ∀ t ∈ retargetSlot proj ws slot, ¬ p t := by
      intro slot hslot t ht
      obtain ⟨t', ht', rfl⟩ := Option.map_eq_some_iff.mp ht
      exact hop.2 t' (hslot t' ht')
    refine ⟨hslot _ h.single, hslot _ h.seeded, fun r hr => ?_⟩
    obtain ⟨r', hr', rfl⟩ := List.mem_map.mp hr
    have hkept := hop.2 r'.value.target (h.entries r' (mem_purge.mp hr').1)
    change ¬ p (if r'.value.proj = proj then { r'.value with ws := ws } else r'.value : Entry).target
    change ¬ p (if r'.value.proj = proj then (ws, r'.value.proj) else r'.value.target) at hkept
    split
    · rename_i hproj
      rw [if_pos hproj] at hkept
      exact hkept
    · rename_i hproj
      rw [if_neg hproj] at hkept
      exact hkept
  | clearProject proj now | clearWorkspace ws now =>
    exact ⟨filter_lacks h.single, filter_lacks h.seeded, fun r hr =>
      h.entries r (mem_purge.mp (mem_retain.mp hr).1).1⟩
  | lookup actor now =>
    rw [step, afterLookup]
    split
    · exact h.purged now
    · exact h
  | containsProject proj now =>
    rw [step, ActiveProject.containsProject]
    split
    · exact h
    · exact h.purged now
  | containsWorkspace ws now =>
    rw [step, ActiveProject.containsWorkspace]
    split
    · exact h
    · exact h.purged now

lemma exec_lacks (h : Lacks p s) {ops : List Op} (hops : ∀ op ∈ ops, op.Spares p) :
    Lacks p (exec step s ops) := by
  induction ops generalizing s with
  | nil => exact h
  | cons op ops ih =>
    exact ih (step_lacks h (hops op List.mem_cons_self)) fun q hq =>
      hops q (List.mem_cons_of_mem op hq)

lemma clearProject_lacks (s : ActiveProject) (proj : ProjectId) (now : ℕ) :
    Lacks (fun t => t.2 = proj) (s.clearProject proj now) := by
  refine ⟨fun t ht => ?_, fun t ht => ?_, fun r hr => ?_⟩
  · simpa using (Option.mem_filter_iff.mp ht).2
  · simpa using (Option.mem_filter_iff.mp ht).2
  · simpa [Entry.target] using (mem_retain.mp hr).2

lemma clearWorkspace_lacks (s : ActiveProject) (ws : WorkspaceId) (now : ℕ) :
    Lacks (fun t => t.1 = ws) (s.clearWorkspace ws now) := by
  refine ⟨fun t ht => ?_, fun t ht => ?_, fun r hr => ?_⟩
  · simpa using (Option.mem_filter_iff.mp ht).2
  · simpa using (Option.mem_filter_iff.mp ht).2
  · simpa [Entry.target] using (mem_retain.mp hr).2

end Lacks

/-- Some lookup, or a slot behind it, still holds the target. -/
def Yields (s : ActiveProject) (t : Target) : Prop :=
  (∃ actor now, s.getFor actor now = some t ∨ s.getForRead actor now = some t) ∨
    s.single = some t ∨ s.seeded = some t

lemma lookupTraced_resolved {ws : WorkspaceId} {proj : ProjectId} {own : Bool}
    (h : s.lookupTraced actor now = (.resolved ws proj, own)) :
    s.single = some (ws, proj) ∨ ∃ r ∈ s.perActor.entries, r.value.target = (ws, proj) := by
  have hshared : ∀ b : Bool, (ActiveProjectLookup.fromSingle s.single, false) =
      (ActiveProjectLookup.resolved ws proj, b) → s.single = some (ws, proj) := by
    intro b heq
    cases hsingle : s.single with
    | none =>
      rw [hsingle] at heq
      simp [ActiveProjectLookup.fromSingle] at heq
    | some t =>
      rw [hsingle] at heq
      obtain ⟨w, q⟩ := t
      simp only [ActiveProjectLookup.fromSingle, Prod.mk.injEq, ActiveProjectLookup.resolved.injEq]
        at heq
      rw [heq.1.1, heq.1.2]
  rw [lookupTraced] at h
  split at h
  · cases hget : s.perActor.get (s.scopedKey actor) now with
    | some entry =>
      rw [hget] at h
      simp only [Prod.mk.injEq, ActiveProjectLookup.resolved.injEq] at h
      obtain ⟨r, hr, -, -, hv⟩ := get_eq_some.mp hget
      refine .inr ⟨r, hr, ?_⟩
      rw [hv, Entry.target, h.1.1, h.1.2]
    | none =>
      rw [hget] at h
      simp only at h
      split at h
      · simp at h
      · split at h
        · simp at h
        · exact .inl (hshared own h)
  · exact .inl (hshared own h)

lemma Yields.held {t : Target} (h : Yields s t) :
    s.single = some t ∨ s.seeded = some t ∨ ∃ r ∈ s.perActor.entries, r.value.target = t := by
  obtain ⟨ws, proj⟩ := t
  rcases h with ⟨actor, now, hget | hread⟩ | hsingle | hseeded
  · rw [getFor, lookupFor] at hget
    rcases hlookup : s.lookupTraced actor now with ⟨answer, own⟩
    rw [hlookup] at hget
    cases answer with
    | resolved w q =>
      simp only [Option.some.injEq, Prod.mk.injEq] at hget
      obtain ⟨rfl, rfl⟩ := hget
      exact (lookupTraced_resolved hlookup).imp_right .inr
    | mismatch | unset => cases hget
  · rw [getForRead, readPointer] at hread
    rcases hlookup : s.lookupTraced actor now with ⟨answer, own⟩
    rw [hlookup] at hread
    cases answer with
    | resolved w q =>
      have heq : (w, q) = (ws, proj) := by
        cases own <;> simpa [ReadPointer.ids] using hread
      rw [heq.symm]
      exact (lookupTraced_resolved hlookup).imp_right .inr
    | mismatch => cases hread
    | unset =>
      cases hseeded : s.seeded with
      | none => simp [hseeded, ReadPointer.ids] at hread
      | some u =>
        have heq : u = (ws, proj) := by simpa [hseeded, ReadPointer.ids] using hread
        exact .inr (.inl (by rw [heq]))
  · exact .inl hsingle
  · exact .inr (.inl hseeded)

lemma Lacks.not_yields {p : Target → Prop} (h : Lacks p s) {t : Target} (ht : p t) :
    ¬ Yields s t := by
  intro hyields
  rcases hyields.held with hsingle | hseeded | ⟨r, hr, rfl⟩
  · exact h.single t hsingle ht
  · exact h.seeded t hseeded ht
  · exact h.entries r hr ht

def PublishesElsewhere (s : ActiveProject) (k : ActorKey) : Op → Prop
  | .setFor actor _ _ _ _ _ _ _ => s.scopedKey actor ≠ k
  | .setScopedFor actor _ _ _ _ _ => s.scopedKey actor ≠ k
  | _ => False

/-- A publish finds the entry of `k` expired, or, where it inserts, the map full. -/
def Evicts (k : ActorKey) (s : ActiveProject) : Op → Prop
  | .setFor actor ws proj defaultGlobal order _ now now' =>
    s.perActor.Drops k actor.identityOnly now ∨
      (s.withIdentity actor ⟨ws, proj, defaultGlobal⟩ order now).Drops k (s.scopedKey actor) now'
  | .setScopedFor actor _ _ _ _ now => s.perActor.Drops k (s.scopedKey actor) now
  | _ => False

/-- The entry of `k` is what it was, or it is gone and `why`. -/
def KeptOrEvicted (k : ActorKey) (m m' : PerActorMap) (why : Prop) : Prop :=
  (m'.ttl = m.ttl ∧ ∀ r, r.key = k → (r ∈ m'.entries ↔ r ∈ m.entries)) ∨
    (why ∧ ∀ r ∈ m'.entries, r.key ≠ k)

section Elsewhere

variable {k : ActorKey} {m m' m'' : PerActorMap} {why why' : Prop}

lemma KeptOrEvicted.refl (k : ActorKey) (m : PerActorMap) : KeptOrEvicted k m m why :=
  .inl ⟨rfl, fun _ _ => Iff.rfl⟩

lemma KeptOrEvicted.trans (h : KeptOrEvicted k m m' why) (h' : KeptOrEvicted k m' m'' why') :
    KeptOrEvicted k m m'' (why ∨ why') := by
  rcases h' with ⟨httl', hsame'⟩ | ⟨hwhy', hgone⟩
  · rcases h with ⟨httl, hsame⟩ | ⟨hwhy, hgone⟩
    · exact .inl ⟨httl'.trans httl, fun r hk => (hsame' r hk).trans (hsame r hk)⟩
    · exact .inr ⟨.inl hwhy, fun r hr hk => hgone r ((hsame' r hk).mp hr) hk⟩
  · exact .inr ⟨.inr hwhy', hgone⟩

lemma keptOrEvicted_insert {order : MapOrder} {k' : ActorKey} {entry : Entry} (hne : k' ≠ k) :
    KeptOrEvicted k m (m.insert order k' entry now) (m.Drops k k' now) :=
  (TimedMap.insert_of_ne hne.symm order entry now).imp_left fun hsame => ⟨rfl, hsame⟩

lemma KeptOrEvicted.get (h : KeptOrEvicted k m m' why) :
    m'.get k now = m.get k now ∨ (m'.get k now = none ∧ why) := by
  rcases h with ⟨httl, hsame⟩ | ⟨hwhy, hgone⟩
  · exact .inl (TimedMap.get_congr httl hsame)
  · refine .inr ⟨Option.eq_none_iff_forall_ne_some.mpr fun v hv => ?_, hwhy⟩
    obtain ⟨r, hr, -, hk, -⟩ := get_eq_some.mp hv
    exact hgone r hr hk

lemma publish_keptOrEvicted {op : Op} (hsession : k.sessionId.isSome)
    (hop : PublishesElsewhere s k op) :
    KeptOrEvicted k s.perActor (step s op).perActor (Evicts k s op) := by
  cases op with
  | setFor actor ws proj defaultGlobal order order' now now' =>
    rw [step, setFor]
    split
    · have hidentity : KeptOrEvicted k s.perActor
          (s.withIdentity actor ⟨ws, proj, defaultGlobal⟩ order now)
          (s.perActor.Drops k actor.identityOnly now) := by
        rw [withIdentity]
        split
        · refine keptOrEvicted_insert ?_
          -- the slot of a user has no session
          rintro rfl
          simp [ActorKey.identityOnly] at hsession
        · exact .refl k _
      exact hidentity.trans (keptOrEvicted_insert hop)
    · exact .refl k _
  | setScopedFor actor ws proj defaultGlobal order now =>
    rw [step, setScopedFor]
    split
    · exact keptOrEvicted_insert hop
    · exact .refl k _
  | _ => exact hop.elim

lemma exec_keptOrEvicted {ops : List Op} (hsession : k.sessionId.isSome)
    (hops : ∀ op ∈ ops, PublishesElsewhere s k op) :
    KeptOrEvicted k s.perActor (exec step s ops).perActor
      (∃ as op bs, ops = as ++ op :: bs ∧ Evicts k (exec step s as) op) := by
  induction ops generalizing s with
  | nil => exact .refl k _
  | cons op ops ih =>
    have hrest : ∀ q ∈ ops, PublishesElsewhere (step s op) k q := by
      intro q hq
      have helse := hops q (List.mem_cons_of_mem op hq)
      cases q with
      | setFor actor ws proj defaultGlobal order order' now now'
      | setScopedFor actor ws proj defaultGlobal order now =>
        rw [PublishesElsewhere, scopedKey_congr (step_mode s op)]
        exact helse
      | _ => exact helse.elim
    refine ((publish_keptOrEvicted hsession (hops op List.mem_cons_self)).trans (ih hrest)).imp_right
      fun hgone => ⟨?_, hgone.2⟩
    rcases hgone.1 with hevicts | ⟨as, op', bs, rfl, hevicts⟩
    · exact ⟨[], op, ops, rfl, hevicts⟩
    · exact ⟨op :: as, op', bs, rfl, hevicts⟩

end Elsewhere

lemma spares_project {proj : ProjectId} {op : Op}
    (h : ∀ t ∈ op.published, t.2 ≠ proj) : op.Spares fun t => t.2 = proj := by
  refine ⟨h, fun t ht => ?_⟩
  cases op with
  | retargetProjectWorkspace proj' ws now =>
    rw [Op.moved]
    split
    · exact ht
    · exact ht
  | _ => exact ht

lemma spares_workspace {ws : WorkspaceId} {op : Op} (h : ∀ t ∈ op.published, t.1 ≠ ws)
    (hmove : ∀ proj now, op ≠ .retargetProjectWorkspace proj ws now) :
    op.Spares fun t => t.1 = ws := by
  refine ⟨h, fun t ht => ?_⟩
  cases op with
  | retargetProjectWorkspace proj ws' now =>
    rw [Op.moved]
    split
    · rintro rfl
      exact hmove proj now rfl
    · exact ht
  | _ => exact ht

/-- After any calls: the keyed map is within its capacity; a publish is found by its own
actor, however the map is walked, exactly when the actor has no key, or the entry has not
expired and there was room for it, or an older entry of another key; a project that was
cleared, and a workspace, is not read again before it is published, or moved to, again;
and what a session reads of its own entry is unaffected by any publishes of others, unless
one of them found the entry expired or the map full. -/
theorem pointer_map_law (mode : ActiveProjectMode) (ttl maxEntries : ℕ) (ops : List Op)
    (s : ActiveProject) (hs : s = exec step (withConfig mode ttl maxEntries) ops) :
    s.perActor.entries.length ≤ max maxEntries 1 ∧
    (∀ actor ws proj defaultGlobal order now now' later,
      (∀ order', (s.setFor actor ws proj defaultGlobal order order' now now').lookupFor actor later =
        .resolved ws proj) ↔
      s.keyed actor = false ∨
        (later - now' < s.perActor.ttl ∧
          (((s.withIdentity actor ⟨ws, proj, defaultGlobal⟩ order now).others (s.scopedKey actor)
            now').length < s.perActor.cap ∨
          ∃ r ∈ (s.withIdentity actor ⟨ws, proj, defaultGlobal⟩ order now).others
            (s.scopedKey actor) now', r.inserted < now'))) ∧
    (∀ proj now later, (∀ op ∈ later, ∀ t ∈ op.published, t.2 ≠ proj) →
      ∀ ws, ¬ Yields (exec step (s.clearProject proj now) later) (ws, proj)) ∧
    (∀ ws now later, (∀ op ∈ later, (∀ t ∈ op.published, t.1 ≠ ws) ∧
        ∀ proj now, op ≠ .retargetProjectWorkspace proj ws now) →
      ∀ proj, ¬ Yields (exec step (s.clearWorkspace ws now) later) (ws, proj)) ∧
    ∀ actor, (s.scopedKey actor).sessionId.isSome →
      ∀ later, (∀ op ∈ later, PublishesElsewhere s (s.scopedKey actor) op) → ∀ now,
        (exec step s later).perActor.get (s.scopedKey actor) now =
          s.perActor.get (s.scopedKey actor) now ∨
        ((exec step s later).perActor.get (s.scopedKey actor) now = none ∧
          ∃ as op bs, later = as ++ op :: bs ∧ Evicts (s.scopedKey actor) (exec step s as) op) := by
  have hstart : (withConfig mode ttl maxEntries).perActor.Fits := Nat.zero_le _
  have hfits := exec_fits hstart ops
  rw [← hs] at hfits
  refine ⟨?_, setFor_resolves_iff hfits.1, ?_, ?_, ?_⟩
  · have hbound : s.perActor.entries.length ≤ s.perActor.cap := hfits.1
    rw [hfits.2] at hbound
    exact hbound
  · intro proj now later hlater ws
    exact (exec_lacks (clearProject_lacks s proj now) fun op hop =>
      spares_project (hlater op hop)).not_yields rfl
  · intro ws now later hlater proj
    exact (exec_lacks (clearWorkspace_lacks s ws now) fun op hop =>
      spares_workspace (hlater op hop).1 (hlater op hop).2).not_yields rfl
  · intro actor hsession later hlater now
    exact (exec_keptOrEvicted hsession hlater).get

def alice : ActorKey := ⟨some "user:alice", some "a"⟩

/-- A map with room for one entry, and a clock that ticks between the two writes of a
publish. -/
theorem pointer_map_law_ticking : ((withConfig .perActor 100 1).setFor alice 1 5 false
    asIs asIs 10 11).lookupFor alice 12 = .resolved 1 5 := by
  refine ((pointer_map_law .perActor 100 1 [] (withConfig .perActor 100 1) rfl).2.1 alice 1 5 false
    asIs 10 11 12).mpr (.inr ⟨by decide, .inr ⟨⟨⟨some "user:alice", none⟩, ⟨1, 5, false⟩, 10⟩, ?_⟩⟩) asIs
  decide

def newestFirst : MapOrder := ⟨List.reverse, List.reverse_perm⟩

/-- Both writes of a publish read the same clock: the actor's own entry is the one that is
dropped, and the actor does not find its project. -/
theorem drops_own_entry : ((withConfig .perActor 100 1).setFor alice 1 5 false asIs newestFirst
    10 10).lookupFor alice 10 = .mismatch := by
  decide

end ActiveProjects
