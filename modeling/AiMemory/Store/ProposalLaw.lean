/-
What holds of proposals over every run.

A decided proposal stays as it is, but for its references to page versions that are deleted;
it has one decision event.  A target has one pending proposal of each owner.  And an
approval writes only over the version, or the absence, that was there when the proposal was
staged: the snapshot names a version by its id, versions do not change, and a deleted one is
no longer named.
-/
import AiMemory.Store.AutoImprove

open Table Runs List

namespace AutoImprove

open Store

/-! ### Versions -/

/-- The same version, but for what a successor writes into it. -/
def SameVersion (r' r : PageRow) : Prop :=
  ∃ isLatest supersedes supersededAt validTo, r' = { r with
    isLatest := isLatest
    supersedes := supersedes
    supersededAt := supersededAt
    validTo := validTo }

lemma SameVersion.refl (r : PageRow) : SameVersion r r := ⟨_, _, _, _, rfl⟩

lemma SameVersion.trans {a b c : PageRow} (h : SameVersion a b) (h' : SameVersion b c) :
    SameVersion a c := by
  obtain ⟨_, _, _, _, rfl⟩ := h
  obtain ⟨_, _, _, _, rfl⟩ := h'
  exact ⟨_, _, _, _, rfl⟩

lemma SameVersion.id_eq {a b : PageRow} (h : SameVersion a b) : a.id = b.id := by
  obtain ⟨_, _, _, _, rfl⟩ := h
  rfl

def Keeps (s s' : Store) : Prop := ∀ r ∈ s.pages, ∃ r' ∈ s'.pages, SameVersion r' r

variable {s : Store} {C : PageCodec} {input : StageAutoImproveRun} {db : Db} {p : Proposal}

lemma keeps_update {p : PageRow → Bool} {f : PageRow → PageRow}
    (hf : ∀ r, SameVersion (f r) r) : Keeps s { s with pages := update p f s.pages } := by
  intro r hr
  by_cases hp : p r
  · exact ⟨f r, mem_update_of_match hr hp, hf r⟩
  · exact ⟨r, mem_update_of_not hr (Bool.eq_false_iff.mpr hp), SameVersion.refl r⟩

lemma Keeps.insert {s₁ s₂ s' : Store} {row : PageRow} (h : Keeps s₁ s₂)
    (hins : s₂.insertPage row = .ok s') : Keeps s₁ s' := by
  obtain ⟨rfl, -⟩ := insertPage_ok hins
  intro r hr
  obtain ⟨r', hr', hsame⟩ := h r hr
  exact ⟨r', mem_append_left _ hr', hsame⟩

lemma upsertPage_keeps {s s' : Store} {page : NewPage} {id id' : PageId} {now : ℤ}
    {tie : ℕ} (hok : upsertPage C s page id now tie = .ok (id', s')) : Keeps s s' := by
  rcases upsertPage_ok hok with ⟨existing, -, -, -, rfl⟩ | ⟨existing, -, -, hins⟩ | ⟨-, -, -, hins⟩
  · exact fun r hr => ⟨r, hr, SameVersion.refl r⟩
  · exact (keeps_update fun r => ⟨_, _, _, _, rfl⟩ : Keeps s (s.retire existing.id now)).insert hins
  · refine Keeps.insert ?_ hins
    cases s.mostRecentTombstoneAtPath page tie with
    | none => exact fun r hr => ⟨r, hr, SameVersion.refl r⟩
    | some b => exact (keeps_update fun r => ⟨_, _, _, _, rfl⟩ : Keeps s (s.unbury b.id))

def KeptOrGone (s s' : Store) : Prop :=
  ∀ r ∈ s.pages, (∃ r' ∈ s'.pages, SameVersion r' r) ∨ ∀ r' ∈ s'.pages, r'.id ≠ r.id

lemma Keeps.keptOrGone {s s' : Store} (h : Keeps s s') : KeptOrGone s s' :=
  fun r hr => .inl (h r hr)

lemma keptOrGone_deletePages (h : PageInv s.pages) (p : PageRow → Bool) :
    KeptOrGone s (s.deletePages p) := by
  intro r hr
  by_cases hp : p r
  · right
    intro r' hr' hid
    obtain ⟨q, hq, rfl⟩ := mem_update.mp hr'
    obtain ⟨hq, hkeep⟩ := mem_delete.mp hq
    have hqr : q.id = r.id := by
      split at hid
      · exact hid
      · exact hid
    rw [h.chained.keys.eq hq hr hqr, hp] at hkeep
    cases hkeep
  · left
    have hmem : r ∈ delete p s.pages := mem_delete.mpr ⟨hr, Bool.eq_false_iff.mpr hp⟩
    refine ⟨_, mem_update.mpr ⟨r, hmem, rfl⟩, ?_⟩
    split
    · exact ⟨_, _, _, _, rfl⟩
    · exact SameVersion.refl r

lemma pageStep_versions (C : PageCodec) (h : PageInv s.pages) (op : PageOp) :
    KeptOrGone s (pageStep C s op) := by
  refine pageStep_elim (P := KeptOrGone s) op (fun r hr => .inl ⟨r, hr, SameVersion.refl r⟩)
    (fun hok => (upsertPage_keeps hok).keptOrGone) (fun ws proj path expected now => ?_)
    (keptOrGone_deletePages h)
  exact (keeps_update fun r => ⟨_, _, _, _, rfl⟩ :
    Keeps s (s.softDeleteIfLatest ws proj path expected now).2).keptOrGone

lemma upsertPage_projects {s s' : Store} {page : NewPage} {id id' : PageId}
    {now : ℤ} {tie : ℕ} (hok : upsertPage C s page id now tie = .ok (id', s')) :
    s'.projects = s.projects := by
  rcases upsertPage_ok hok with ⟨existing, -, -, -, rfl⟩ | ⟨existing, -, -, hins⟩ | ⟨-, -, -, hins⟩
  · rfl
  · obtain ⟨rfl, -⟩ := insertPage_ok hins
    rfl
  · obtain ⟨rfl, -⟩ := insertPage_ok hins
    cases s.mostRecentTombstoneAtPath page tie with
    | none => rfl
    | some b => rfl

lemma pageStep_projects (C : PageCodec) (s : Store) (op : PageOp) :
    (pageStep C s op).projects = s.projects :=
  pageStep_elim (P := fun s' => s'.projects = s.projects) op rfl upsertPage_projects
    (fun _ _ _ _ _ => rfl) fun _ => rfl

/-! ### What a call can do -/

def Status.decision : Status → Option EventKind
  | .pending => none
  | .approved => some .approved
  | .rejected => some .rejected
  | .conflict => some .conflict
  | .failed => some .failed

def Proposal.staged (p : Proposal) :=
  (p.id, p.workspaceId, p.projectId, p.operation, p.targetPath, p.targetLatestPageIdAtStage,
    p.stagedByActorUser)

def Snapshot (s : Store) (p : Proposal) : Prop :=
  (p.operation = .create ∧ s.latestAt p.workspaceId p.projectId p.targetPath = none) ∨
    (p.operation = .update ∧ ∃ r, s.latestAt p.workspaceId p.projectId p.targetPath = some r ∧
      p.targetLatestPageIdAtStage = some r.id)

inductive Staged (db : Db) : List Proposal → List Event → Prop
  | nil : Staged db [] []
  | row {new : List Proposal} {events : List Event} (h : Staged db new events) (p : Proposal)
      (e : Event) (hstatus : p.status = .pending)
      (hpaired : db.store.paired p.workspaceId p.projectId = true)
      (hfresh : ∀ q ∈ db.proposals ++ new, q.id ≠ p.id)
      (hfree : ∀ q ∈ db.proposals ++ new, q.blocks p = false)
      (hsnapshot : Snapshot db.store p) (hkind : e.kind = .staged) (hevent : e.proposalId = p.id) :
      Staged db (new ++ [p]) (events ++ [e])

inductive Change (C : PageCodec) (db : Db) : Db → Prop
  | same : Change C db db
  | staged (runs : List RunRow) {new : List Proposal} {events : List Event}
      (h : Staged db new events) : Change C db
        { db with
          runs := runs
          proposals := db.proposals ++ new
          events := db.events ++ events }
  | decided (d : Decision) (f : Proposal → Proposal) (kind : EventKind) (detail : String)
      (store : Store) (hone : ∃ p ∈ db.proposals, d.addresses p = true)
      (hf : ∀ p, (f p).staged = p.staged ∧ (f p).status.decision = some kind)
      (hkind : kind ≠ .staged)
      (hstore : store = db.store ∨ ∃ page id now tie id',
        upsertPage C db.store page id now tie = .ok (id', store)) : Change C db
        ({ db with
          store := store
          proposals := update d.addresses f db.proposals }.record (d.event kind detail))
  | page (op : PageOp) : Change C db (pageChange C db op)

def Stage.Extends (db : Db) (st : Stage) : Prop :=
  ∃ runs new events, Staged db new events ∧ st.db =
    { db with
      runs := runs
      proposals := db.proposals ++ new
      events := db.events ++ events }

lemma snapshot_of_target (C : PageCodec) (owner : Option String)
    {new : NewProposal} {target : Option PageRow} (h : targetAtStage new.operation
      (s.latestAt input.workspaceId input.projectId new.targetPath) = .ok target) :
    Snapshot s (pendingRow C input owner new target) := by
  cases hoperation : new.operation with
  | create =>
    cases hlatest : s.latestAt input.workspaceId input.projectId new.targetPath with
    | none => exact .inl ⟨hoperation, hlatest⟩
    | some r =>
      rw [hoperation, hlatest] at h
      cases h
  | update =>
    cases hlatest : s.latestAt input.workspaceId input.projectId new.targetPath with
    | none =>
      rw [hoperation, hlatest] at h
      cases h
    | some r =>
      rw [hoperation, hlatest] at h
      cases h
      exact .inr ⟨hoperation, r, hlatest, rfl⟩

lemma stageProposal_extends
    {owner : Option String} {skips : Bool} {st st' : Stage} {new : NewProposal}
    (h : st.Extends db) (hok : stageProposal C input owner skips st new = .ok st') :
    st'.Extends db := by
  rw [stageProposal] at hok
  by_cases hseen : new.targetPath ∈ st.seen
  · rw [if_pos hseen] at hok
    cases hok
  rw [if_neg hseen] at hok
  dsimp only at hok
  cases htarget : targetAtStage new.operation
      (st.db.store.latestAt input.workspaceId input.projectId new.targetPath) with
  | error reason =>
    rw [htarget] at hok
    cases hok
    exact h
  | ok target =>
    rw [htarget] at hok
    obtain ⟨-, -, hok⟩ := bind_ok.mp hok
    split at hok
    · cases hok
    · rename_i hconstraints
      split at hok
      · split at hok
        · cases hok
          exact h
        · cases hok
      · rename_i hfree
        cases hok
        obtain ⟨runs, rows, events, hstaged, hdb⟩ := h
        rw [hdb] at hconstraints hfree htarget ⊢
        simp only [Bool.or_eq_true, Bool.not_eq_true', not_or, Bool.not_eq_false] at hconstraints
        simp only [any_eq_true, not_exists, not_and, Bool.not_eq_true] at hconstraints hfree
        have hsnapshot := snapshot_of_target C owner htarget
        refine ⟨runs, rows ++ [pendingRow C input owner new target], events ++
          [⟨new.id, .staged, input.proposalActor, none, "", input.now⟩], ?_, ?_⟩
        · exact hstaged.row _ _ rfl hconstraints.1.1
            (fun q hq => of_decide_eq_false (hconstraints.2 q hq)) (fun q hq => hfree q hq) hsnapshot
            rfl rfl
        · simp [Db.record, pendingRow]

lemma stageRunImpl_change {owner : Option IdentityKey} {skips : Bool} {st : Stage}
    (hok : stageRunImpl C db input owner skips = .ok st) : Change C db st.db := by
  rw [stageRunImpl] at hok
  split at hok
  · cases hok
  · split at hok
    · cases hok
    · split at hok
      · cases hok
      · obtain ⟨runs, new, events, hstaged, hdb⟩ := foldlM_invariant (I := Stage.Extends db)
          (fun _ _ _ _ h hp => stageProposal_extends h hp)
          ⟨_, [], [], .nil, by rw [append_nil, append_nil]⟩ hok
        rw [hdb]
        exact .staged runs hstaged

lemma decide_change (C : PageCodec) {d : Decision} {status : Status} {kind : EventKind}
    (reason : String) (hone : db.proposals.countP d.addresses = 1)
    (hstatus : status.decision = some kind) (hkind : kind ≠ .staged) :
    Change C db (db.decide d status kind reason) := by
  refine .decided d (d.mark status (some reason)) kind reason db.store ?_ (fun p => ⟨rfl, hstatus⟩)
    hkind (.inl rfl)
  exact countP_pos_iff.mp (by omega)

lemma approveProposal_ok {K : SlotCodec} {db db' : Db}
    {input : ApproveAutoImproveProposal} {result : ApproveResult}
    (hok : approveProposal C K db input = .ok (result, db')) :
    ∃ p ∈ db.proposals, input.addresses p = true ∧ input.page.path = p.targetPath ∧
      ((result = .conflict ∧ ∃ reason, db' = db.conflict input reason) ∨
        ∃ pageId store, result = .approved pageId ∧
          (∀ page ∈ db.store.latestAt input.workspaceId input.projectId p.targetPath,
            pinnedRefusalApplies K p.targetPath page.pinned page.frontmatterJson = false) ∧
          drifted p (db.store.latestAt input.workspaceId input.projectId p.targetPath) = false ∧
          upsertPage C db.store input.page input.pageId input.now input.tie = .ok (pageId, store) ∧
          db' = { db with
            store := store
            proposals := update input.addresses (fun p => { input.mark .approved none p with
                appliedPageId := some pageId
                checkpoint := input.checkpoint }) db.proposals }.record
              (input.event .approved "")) := by
  rw [approveProposal] at hok
  split at hok
  · cases hok
  · cases hfind : db.proposals.find? input.addresses with
    | none =>
      rw [hfind] at hok
      cases hok
    | some p =>
      rw [hfind] at hok
      dsimp only at hok
      split at hok
      · cases hok
      · rename_i hpath
        refine ⟨p, mem_of_find?_eq_some hfind, find?_some hfind, not_not.mp hpath, ?_⟩
        split at hok
        · cases hok
          exact .inl ⟨rfl, _, rfl⟩
        · rename_i hpinned
          split at hok
          · cases hok
            exact .inl ⟨rfl, _, rfl⟩
          · rename_i hdrift
            obtain ⟨⟨pageId, store⟩, hupsert, hret⟩ := bind_ok.mp hok
            cases hret
            refine .inr ⟨pageId, store, rfl, ?_, Bool.eq_false_iff.mpr hdrift, hupsert, rfl⟩
            intro page hpage
            rw [Option.mem_def.mp hpage, Option.any_some] at hpinned
            exact Bool.eq_false_iff.mpr hpinned

lemma approve_change {K : SlotCodec} {db db' : Db}
    {input : ApproveAutoImproveProposal} {result : ApproveResult}
    (hok : approveProposal C K db input = .ok (result, db')) : Change C db db' := by
  obtain ⟨p, hp, haddress, -, ⟨-, reason, rfl⟩ | ⟨pageId, store, -, -, -, hupsert, rfl⟩⟩ :=
    approveProposal_ok hok
  · exact .decided _ _ .conflict reason db.store ⟨p, hp, haddress⟩ (fun p => ⟨rfl, rfl⟩)
      (by decide) (.inl rfl)
  · exact .decided _ _ .approved _ store ⟨p, hp, haddress⟩ (fun p => ⟨rfl, rfl⟩) (by decide)
      (.inr ⟨_, _, _, _, _, hupsert⟩)

lemma step_change (C : PageCodec) (K : SlotCodec) (db : Db) (op : Op) :
    Change C db (step C K db op) := by
  cases op with
  | stageRun input =>
    rw [step]
    cases hok : stageRun C db input with
    | ok st => exact stageRunImpl_change hok
    | error e => exact .same
  | stageRunForOwner input owner =>
    rw [step]
    cases hok : stageRunForOwner C db input owner with
    | ok st => exact stageRunImpl_change hok
    | error e => exact .same
  | approve input =>
    rw [step]
    cases hok : approveProposal C K db input with
    | ok res =>
      obtain ⟨result, db'⟩ := res
      exact approve_change hok
    | error e => exact .same
  | reject d reason =>
    rw [step, rejectProposal]
    split
    · exact decide_change C reason ‹_› rfl (by decide)
    · exact .same
  | fail d reason =>
    rw [step, failProposal]
    split
    · exact decide_change C reason ‹_› rfl (by decide)
    · exact .same
  | page op => exact .page op

/-! ### The invariant -/

def decisions (db : Db) (id : ProposalId) : List EventKind :=
  ((db.events.filter fun e => e.proposalId = id && e.kind ≠ .staged).map (·.kind))

structure Inv (db : Db) : Prop where
  pages : PageInv db.store.pages
  projects : KeyUnique ProjectRow.id db.store.projects
  keys : KeyUnique Proposal.id db.proposals
  paired : ∀ p ∈ db.proposals, db.store.paired p.workspaceId p.projectId = true
  pending : ∀ p ∈ db.proposals, ∀ q ∈ db.proposals, p.status = .pending → q.blocks p = true → q = p
  owned : ∀ e ∈ db.events, ∃ p ∈ db.proposals, p.id = e.proposalId
  decided : ∀ p ∈ db.proposals, decisions db p.id = p.status.decision.toList

lemma decisions_append (db : Db) (events : List Event) (runs : List RunRow)
    (proposals : List Proposal) (store : Store) (id : ProposalId) :
    decisions ⟨store, runs, proposals, db.events ++ events⟩ id = decisions db id ++
        (events.filter fun e => e.proposalId = id && e.kind ≠ .staged).map (·.kind) := by
  rw [decisions, decisions, filter_append, map_append]

lemma blocks_iff {q p : Proposal} : q.blocks p ↔ q.status = .pending ∧
    q.workspaceId = p.workspaceId ∧ q.projectId = p.projectId ∧ q.targetPath = p.targetPath ∧
      q.stagedByActorUser.getD "" = p.stagedByActorUser.getD "" := by
  simp [Proposal.blocks, and_assoc]

lemma Staged.inv (h : Inv db) {new : List Proposal} {events : List Event}
    (hstaged : Staged db new events) (runs : List RunRow) :
    Inv ⟨db.store, runs, db.proposals ++ new, db.events ++ events⟩ := by
  induction hstaged with
  | nil =>
    refine ⟨h.pages, h.projects, ?_, ?_, ?_, ?_, ?_⟩
    · simpa using h.keys
    · simpa using h.paired
    · simpa using h.pending
    · simpa using h.owned
    · intro p hp
      rw [append_nil] at hp
      rw [decisions_append, h.decided p hp]
      simp
  | row hstaged p e hstatus hpaired hfresh hfree hsnapshot hkind hevent ih =>
    rename_i new events
    rw [← append_assoc, ← append_assoc]
    have hmem : ∀ q ∈ (db.proposals ++ new) ++ [p], q ∈ db.proposals ++ new ∨ q = p := by
      intro q hq
      simpa [or_assoc] using hq
    refine ⟨h.pages, h.projects, ?_, ?_, ?_, ?_, ?_⟩
    · exact keyUnique_append_singleton.mpr ⟨ih.keys, hfresh⟩
    · intro q hq
      rcases hmem q hq with hq | rfl
      · exact ih.paired q hq
      · exact hpaired
    · -- the new row blocks no other, since no other blocks it
      intro a ha b hb hpending hblocks
      rcases hmem a ha with hold | rfl
      · rcases hmem b hb with hold' | rfl
        · exact ih.pending a hold b hold' hpending hblocks
        · exfalso
          obtain ⟨-, hws, hproj, hpath, howner⟩ := blocks_iff.mp hblocks
          have hno := hfree a hold
          rw [blocks_iff.mpr ⟨hpending, hws.symm, hproj.symm, hpath.symm, howner.symm⟩] at hno
          cases hno
      · rcases hmem b hb with hold' | rfl
        · rw [hfree b hold'] at hblocks
          cases hblocks
        · rfl
    · intro e' he'
      rcases mem_append.mp he' with he' | he'
      · obtain ⟨q, hq, hid⟩ := ih.owned e' he'
        exact ⟨q, mem_append_left _ hq, hid⟩
      · rw [mem_singleton.mp he', hevent]
        exact ⟨p, mem_append_right _ (mem_singleton_self p), rfl⟩
    · -- a stage event is no decision, and the new row has no event before it
      intro q hq
      have hsame : decisions ⟨db.store, runs, (db.proposals ++ new) ++ [p],
          db.events ++ events ++ [e]⟩ q.id =
            decisions ⟨db.store, runs, db.proposals ++ new, db.events ++ events⟩ q.id := by
        have hnone : [e].filter (fun e => e.proposalId = q.id && e.kind ≠ .staged) = [] := by
          simp [hkind]
        rw [decisions_append ⟨db.store, runs, db.proposals ++ new, db.events ++ events⟩, hnone]
        simp
      rw [hsame]
      rcases hmem q hq with hq | rfl
      · exact ih.decided q hq
      · rw [hstatus, decisions, map_eq_nil_iff.mpr]
        · rfl
        · rw [filter_eq_nil_iff]
          intro e' he' hmine
          simp only [Bool.and_eq_true, decide_eq_true_eq] at hmine
          obtain ⟨q', hq', hid⟩ := ih.owned e' he'
          exact hfresh q' hq' (hid.trans hmine.1)

lemma addresses_iff {d : Decision} : d.addresses p ↔ p.id = d.proposalId ∧
    p.workspaceId = d.workspaceId ∧ p.projectId = d.projectId ∧ p.status = .pending := by
  simp [Decision.addresses, and_assoc]

lemma staged_id {p q : Proposal} (h : p.staged = q.staged) : p.id = q.id ∧
    p.workspaceId = q.workspaceId ∧ p.projectId = q.projectId ∧ p.operation = q.operation ∧
    p.targetPath = q.targetPath ∧ p.targetLatestPageIdAtStage = q.targetLatestPageIdAtStage ∧
    p.stagedByActorUser = q.stagedByActorUser := by
  simpa [Proposal.staged] using h

lemma Inv.decide (h : Inv db) (d : Decision) (f : Proposal → Proposal)
    (kind : EventKind) (detail : String) (store : Store)
    (hone : ∃ p ∈ db.proposals, d.addresses p = true)
    (hf : ∀ p, (f p).staged = p.staged ∧ (f p).status.decision = some kind) (hkind : kind ≠ .staged)
    (hstore : store = db.store ∨ ∃ page id now tie id',
      upsertPage C db.store page id now tie = .ok (id', store)) :
    Inv ({ db with
      store := store
      proposals := update d.addresses f db.proposals }.record (d.event kind detail)) := by
  have hpages : PageInv store.pages := by
    rcases hstore with rfl | ⟨page, id, now, tie, id', hok⟩
    · exact h.pages
    · exact upsertPage_inv h.pages hok
  have hprojects : store.projects = db.store.projects := by
    rcases hstore with rfl | ⟨page, id, now, tie, id', hok⟩
    · rfl
    · exact upsertPage_projects hok
  -- a row afterwards is one from before, with the same columns of the stage
  have hfrom : ∀ p' ∈ update d.addresses f db.proposals, ∃ p ∈ db.proposals, p'.staged = p.staged ∧
      ((d.addresses p ∧ p' = f p) ∨ (d.addresses p = false ∧ p' = p)) := by
    intro p' hp'
    obtain ⟨p, hp, rfl⟩ := mem_update.mp hp'
    by_cases haddress : d.addresses p
    · rw [if_pos haddress]
      exact ⟨p, hp, (hf p).1, .inl ⟨haddress, rfl⟩⟩
    · rw [if_neg haddress]
      exact ⟨p, hp, rfl, .inr ⟨Bool.eq_false_iff.mpr haddress, rfl⟩⟩
  have hnotPending : ∀ p, (f p).status ≠ .pending := by
    intro p hp
    have := (hf p).2
    rw [hp] at this
    cases this
  refine ⟨hpages, ?_, ?_, ?_, ?_, ?_, ?_⟩
  · show KeyUnique ProjectRow.id store.projects
    rw [hprojects]
    exact h.projects
  · exact h.keys.update fun p => (staged_id (hf p).1).1
  · intro p' hp'
    obtain ⟨p, hp, hstaged, -⟩ := hfrom p' hp'
    obtain ⟨-, hws, hproj, -⟩ := staged_id hstaged
    show store.paired p'.workspaceId p'.projectId = true
    rw [hws, hproj, Store.paired, hprojects]
    exact h.paired p hp
  · intro p' hp' q' hq' hpending hblocks
    obtain ⟨p, hp, -, ⟨-, rfl⟩ | ⟨-, rfl⟩⟩ := hfrom p' hp'
    · exact absurd hpending (hnotPending p)
    · obtain ⟨q, hq, -, ⟨-, rfl⟩ | ⟨-, rfl⟩⟩ := hfrom q' hq'
      · exact absurd (blocks_iff.mp hblocks).1 (hnotPending q)
      · exact h.pending _ hp _ hq hpending hblocks
  · intro e he
    have hkeep : ∀ p ∈ db.proposals, ∃ p' ∈ update d.addresses f db.proposals, p'.id = p.id := by
      intro p hp
      refine ⟨_, mem_update.mpr ⟨p, hp, rfl⟩, ?_⟩
      split
      · exact (staged_id (hf p).1).1
      · rfl
    rcases mem_append.mp he with he | he
    · obtain ⟨p, hp, hid⟩ := h.owned e he
      obtain ⟨p', hp', hid'⟩ := hkeep p hp
      exact ⟨p', hp', hid'.trans hid⟩
    · obtain ⟨p, hp, haddress⟩ := hone
      obtain ⟨p', hp', hid'⟩ := hkeep p hp
      rw [mem_singleton.mp he]
      exact ⟨p', hp', hid'.trans (addresses_iff.mp haddress).1⟩
  · intro p' hp'
    obtain ⟨p, hp, hstaged, hcase⟩ := hfrom p' hp'
    rw [(staged_id hstaged).1]
    show decisions ⟨store, db.runs, _, db.events ++ [d.event kind detail]⟩ p.id = _
    rw [decisions_append, h.decided p hp]
    rcases hcase with ⟨haddress, rfl⟩ | ⟨haddress, rfl⟩
    · obtain ⟨hid, -, -, hpending⟩ := addresses_iff.mp haddress
      rw [(hf p).2, hpending]
      simp [Status.decision, Decision.event, hid, hkind]
    · -- the addressed row is another one
      obtain ⟨q, hq, hq'⟩ := hone
      have hne : (d.event kind detail).proposalId ≠ p'.id := by
        intro hid
        rw [h.keys.eq hp hq (hid.symm.trans (addresses_iff.mp hq').1.symm)] at haddress
        rw [hq'] at haddress
        cases haddress
      simp [hne]

lemma Inv.pageChange (h : Inv db) (op : PageOp) :
    Inv (pageChange C db op) := by
  have hprojects := pageStep_projects C db.store op
  refine ⟨pageStep_inv C db.store op h.pages, ?_, ?_, ?_, ?_, ?_, ?_⟩
  · show KeyUnique ProjectRow.id (pageStep C db.store op).projects
    rw [hprojects]
    exact h.projects
  · show ((db.proposals.map _).map Proposal.id).Nodup
    rw [map_map]
    exact h.keys
  · intro p' hp'
    obtain ⟨p, hp, rfl⟩ := mem_map.mp hp'
    show (pageStep C db.store op).paired p.workspaceId p.projectId = true
    rw [Store.paired, hprojects]
    exact h.paired p hp
  · intro p' hp' q' hq' hpending hblocks
    obtain ⟨p, hp, rfl⟩ := mem_map.mp hp'
    obtain ⟨q, hq, rfl⟩ := mem_map.mp hq'
    rw [h.pending p hp q hq hpending hblocks]
  · intro e he
    obtain ⟨p, hp, hid⟩ := h.owned e he
    exact ⟨_, mem_map_of_mem hp, hid⟩
  · intro p' hp'
    obtain ⟨p, hp, rfl⟩ := mem_map.mp hp'
    exact h.decided p hp

lemma step_inv (C : PageCodec) (K : SlotCodec) (h : Inv db) (op : Op) :
    Inv (step C K db op) := by
  have hchange := step_change C K db op
  generalize step C K db op = db' at hchange
  cases hchange with
  | same => exact h
  | staged runs hstaged => exact hstaged.inv h runs
  | decided d f kind detail store hone hf hkind hstore =>
    exact h.decide d f kind detail store hone hf hkind hstore
  | page op => exact h.pageChange op

lemma exec_inv (C : PageCodec) (K : SlotCodec) (h : Inv db) (ops : List Op) :
    Inv (exec (step C K) db ops) :=
  exec_invariant (I := Inv) (fun _ op h => step_inv C K h op) h ops

/-- The same proposal; a page that is gone may no longer be named. -/
def SameButRefs (p' p : Proposal) : Prop :=
  ∃ target applied, (target = p.targetLatestPageIdAtStage ∨ target = none) ∧
    (applied = p.appliedPageId ∨ applied = none) ∧ p' = { p with
      targetLatestPageIdAtStage := target
      appliedPageId := applied }

lemma SameButRefs.refl (p : Proposal) : SameButRefs p p := ⟨_, _, .inl rfl, .inl rfl, rfl⟩

lemma SameButRefs.trans {a b c : Proposal} (h : SameButRefs a b) (h' : SameButRefs b c) :
    SameButRefs a c := by
  obtain ⟨target, applied, htarget, happlied, rfl⟩ := h
  obtain ⟨target', applied', htarget', happlied', rfl⟩ := h'
  refine ⟨target, applied, ?_, ?_, rfl⟩
  · rcases htarget with rfl | rfl
    · exact htarget'
    · exact .inr rfl
  · rcases happlied with rfl | rfl
    · exact happlied'
    · exact .inr rfl

lemma sameButRefs_clear (gone : PageId → Bool) (p : Proposal) : SameButRefs (p.clear gone) p := by
  have hfilter : ∀ ref : Option PageId, ref.filter (fun id => !gone id) = ref ∨
      ref.filter (fun id => !gone id) = none := by
    intro ref
    cases ref with
    | none => exact .inl rfl
    | some id =>
      rw [Option.filter_some]
      split
      · exact .inl rfl
      · exact .inr rfl
  exact ⟨_, _, hfilter _, hfilter _, rfl⟩

lemma Change.keeps_decided {db db' : Db} (hchange : Change C db db')
    (hp : p ∈ db.proposals) (hdecided : p.status ≠ .pending) :
    ∃ p' ∈ db'.proposals, SameButRefs p' p := by
  cases hchange with
  | same => exact ⟨p, hp, .refl p⟩
  | staged runs hstaged => exact ⟨p, mem_append_left _ hp, .refl p⟩
  | decided d f kind detail store hone hf hkind hstore =>
    refine ⟨p, mem_update_of_not hp (Bool.eq_false_iff.mpr fun haddress => ?_), .refl p⟩
    exact hdecided (addresses_iff.mp haddress).2.2.2
  | page op => exact ⟨_, mem_map_of_mem hp, sameButRefs_clear _ p⟩

lemma exec_keeps_decided (C : PageCodec) (K : SlotCodec) (ops : List Op)
    (hp : p ∈ db.proposals) (hdecided : p.status ≠ .pending) :
    ∃ p' ∈ (exec (step C K) db ops).proposals, SameButRefs p' p := by
  induction ops generalizing db p with
  | nil => exact ⟨p, hp, .refl p⟩
  | cons op ops ih =>
    obtain ⟨p₁, hp₁, hsame⟩ := (step_change C K db op).keeps_decided hp hdecided
    have hstatus : p₁.status = p.status := by
      obtain ⟨_, _, _, _, rfl⟩ := hsame
      rfl
    obtain ⟨p₂, hp₂, hsame₂⟩ := ih hp₁ (by rwa [hstatus])
    exact ⟨p₂, hp₂, hsame₂.trans hsame⟩

/-- What a proposal's snapshot says of the store it was taken from, and of the store now: a
version that it still names is still there. -/
def Recorded (past now : Store) (p : Proposal) : Prop :=
  (p.operation = .create ∧ past.latestAt p.workspaceId p.projectId p.targetPath = none) ∨
    (p.operation = .update ∧ ∃ r, past.latestAt p.workspaceId p.projectId p.targetPath = some r ∧
      ∀ id, p.targetLatestPageIdAtStage = some id → id = r.id ∧
        ∃ r' ∈ now.pages, SameVersion r' r)

lemma Snapshot.recorded (h : Snapshot s p) : Recorded s s p := by
  rcases h with h | ⟨hoperation, r, hlatest, htarget⟩
  · exact .inl h
  · refine .inr ⟨hoperation, r, hlatest, fun id hid => ?_⟩
    rw [htarget] at hid
    cases hid
    exact ⟨rfl, r, (latestAt_some hlatest).1, .refl r⟩

lemma Recorded.keeps {past now now' : Store} {p p' : Proposal} (h : Recorded past now p)
    (hstaged : p'.staged = p.staged) (hkeeps : Keeps now now') : Recorded past now' p' := by
  obtain ⟨-, hws, hproj, hoperation, hpath, htarget, -⟩ := staged_id hstaged
  rw [Recorded, hws, hproj, hoperation, hpath, htarget]
  rcases h with h | ⟨hupdate, r, hlatest, hnamed⟩
  · exact .inl h
  · refine .inr ⟨hupdate, r, hlatest, fun id hid => ?_⟩
    obtain ⟨hid, r', hr', hsame⟩ := hnamed id hid
    obtain ⟨r'', hr'', hsame'⟩ := hkeeps r' hr'
    exact ⟨hid, r'', hr'', hsame'.trans hsame⟩

lemma Recorded.clear {past now now' : Store} (h : Recorded past now p)
    (hkept : KeptOrGone now now') : Recorded past now' (p.clear (deletedBetween now now')) := by
  rcases h with h | ⟨hupdate, r, hlatest, hnamed⟩
  · exact .inl h
  · refine .inr ⟨hupdate, r, hlatest, fun id hid => ?_⟩
    obtain ⟨hid, hstays⟩ := Option.filter_eq_some_iff.mp hid
    obtain ⟨rfl, r', hr', hsame⟩ := hnamed id hid
    rcases hkept r' hr' with ⟨r'', hr'', hsame'⟩ | hgone
    · exact ⟨rfl, r'', hr'', hsame'.trans hsame⟩
    · exfalso
      have hbefore : now.pages.any (fun q => q.id = r.id) :=
        any_eq_true.mpr ⟨r', hr', decide_eq_true hsame.id_eq⟩
      have hafter : now'.pages.any (fun q => q.id = r.id) = false := by
        rw [any_eq_false]
        intro q hq
        rw [decide_eq_true_eq, ← hsame.id_eq]
        exact hgone q hq
      rw [deletedBetween, hbefore, hafter] at hstays
      cases hstays

lemma Change.recorded {db db' : Db} (h : Inv db) (hchange : Change C db db')
    {p' : Proposal} (hp' : p' ∈ db'.proposals) :
    (∃ p ∈ db.proposals, p.id = p'.id ∧
        ∀ past, Recorded past db.store p → Recorded past db'.store p') ∨
      ((∀ p ∈ db.proposals, p.id ≠ p'.id) ∧ Recorded db.store db'.store p') := by
  have hrefl : Keeps db.store db.store := fun r hr => ⟨r, hr, .refl r⟩
  cases hchange with
  | same => exact .inl ⟨p', hp', rfl, fun _ h => h⟩
  | staged runs hstaged =>
    rcases mem_append.mp hp' with hold | hnew
    · exact .inl ⟨p', hold, rfl, fun _ h => h⟩
    · right
      clear hp'
      induction hstaged with
      | nil => cases hnew
      | row hstaged p e hstatus hpaired hfresh hfree hsnapshot hkind hevent ih =>
        rcases mem_append.mp hnew with hnew | hnew
        · exact ih hnew
        · rw [mem_singleton.mp hnew]
          exact ⟨fun q hq => hfresh q (mem_append_left _ hq), hsnapshot.recorded⟩
  | decided d f kind detail store hone hf hkind hstore =>
    have hkeeps : Keeps db.store store := by
      rcases hstore with rfl | ⟨page, id, now, tie, id', hok⟩
      · exact hrefl
      · exact upsertPage_keeps hok
    obtain ⟨p, hp, rfl⟩ := mem_update.mp hp'
    refine .inl ⟨p, hp, ?_, ?_⟩
    · split
      · exact (staged_id (hf p).1).1.symm
      · rfl
    · intro past hrecorded
      refine hrecorded.keeps ?_ hkeeps
      split
      · exact (hf p).1
      · rfl
  | page op =>
    obtain ⟨p, hp, rfl⟩ := mem_map.mp hp'
    exact .inl ⟨p, hp, rfl, fun past hrecorded =>
      hrecorded.clear (pageStep_versions C h.pages op)⟩

structure Fresh (db : Db) : Prop where
  pages : PageInv db.store.pages
  projects : KeyUnique ProjectRow.id db.store.projects
  proposals : db.proposals = []
  events : db.events = []

lemma Fresh.inv (h : Fresh db) : Inv db := by
  refine ⟨h.pages, h.projects, ?_, ?_, ?_, ?_, ?_⟩
  · rw [KeyUnique, h.proposals]
    exact .nil
  · rw [h.proposals]
    exact fun _ hp => nomatch hp
  · rw [h.proposals]
    exact fun _ hp => nomatch hp
  · rw [h.events]
    exact fun _ he => nomatch he
  · rw [h.proposals]
    exact fun _ hp => nomatch hp

lemma exec_recorded (C : PageCodec) (K : SlotCodec) {start : Db} (hstart : Fresh start)
    (ops : List Op) : ∀ p ∈ (exec (step C K) start ops).proposals, ∃ before op after,
      ops = before ++ op :: after ∧
      (∀ q ∈ (exec (step C K) start before).proposals, q.id ≠ p.id) ∧
      (∃ q ∈ (exec (step C K) start (before ++ [op])).proposals, q.id = p.id) ∧
      Recorded (exec (step C K) start before).store (exec (step C K) start ops).store p := by
  induction ops using List.reverseRecOn with
  | nil =>
    intro p hp
    rw [exec_nil, hstart.proposals] at hp
    cases hp
  | append_singleton ops op ih =>
    intro p' hp'
    rw [exec_append, exec_cons, exec_nil] at hp' ⊢
    rcases (step_change C K _ op).recorded (exec_inv C K hstart.inv ops) hp' with ⟨p, hp, hid, hkeep⟩ | ⟨hnew, hrecorded⟩
    · obtain ⟨before, op', after, rfl, hfirst, hstaged, hrecorded⟩ := ih p hp
      rw [hid] at hfirst hstaged
      exact ⟨before, op', after ++ [op], by simp, hfirst, hstaged, hkeep _ hrecorded⟩
    · refine ⟨ops, op, [], rfl, hnew, ⟨p', ?_, rfl⟩, hrecorded⟩
      rw [exec_append, exec_cons, exec_nil]
      exact hp'

/-! ### The law -/

/-- The path has the same head in both stores, or none in both. -/
def SameLatest (past now : Store) (ws : WorkspaceId) (proj : ProjectId) (path : String) : Prop :=
  (past.latestAt ws proj path = none ∧ now.latestAt ws proj path = none) ∨
    ∃ r r', past.latestAt ws proj path = some r ∧ now.latestAt ws proj path = some r' ∧
      SameVersion r' r

lemma Recorded.sameLatest {past now : Store} (h : Recorded past now p) (hinv : PageInv now.pages)
    (hdrift : drifted p (now.latestAt p.workspaceId p.projectId p.targetPath) = false) :
    SameLatest past now p.workspaceId p.projectId p.targetPath := by
  cases hlatest : now.latestAt p.workspaceId p.projectId p.targetPath with
  | none =>
    rw [hlatest] at hdrift
    rcases h with ⟨-, hnone⟩ | ⟨hupdate, -⟩
    · exact .inl ⟨hnone, hlatest⟩
    · rw [drifted, hupdate] at hdrift
      cases hdrift
  | some page =>
    rw [hlatest] at hdrift
    simp only [drifted, Bool.or_eq_false_iff, decide_eq_false_iff_not, ne_eq, not_not] at hdrift
    rcases h with ⟨hcreate, -⟩ | ⟨-, r, hr, hnamed⟩
    · exact absurd hcreate hdrift.1.1.1
    · -- the version named by the snapshot is the one with its id
      obtain ⟨hid, r', hr', hsame⟩ := hnamed page.id hdrift.1.1.2.symm
      have hpage : page = r' :=
        hinv.chained.keys.eq (latestAt_some hlatest).1 hr' (hid.trans hsame.id_eq.symm)
      exact .inr ⟨r, page, hr, hlatest, hpage ▸ hsame⟩

lemma Inv.workspace_eq (h : Inv db) {p q : Proposal} (hp : p ∈ db.proposals)
    (hq : q ∈ db.proposals) (hproj : p.projectId = q.projectId) : p.workspaceId = q.workspaceId := by
  obtain ⟨a, ha, hpair⟩ := any_eq_true.mp (h.paired p hp)
  obtain ⟨b, hb, hpair'⟩ := any_eq_true.mp (h.paired q hq)
  simp only [Bool.and_eq_true, decide_eq_true_eq] at hpair hpair'
  have hab := h.projects.eq ha hb (by rw [hpair.1, hpair'.1, hproj])
  rw [← hpair.2, ← hpair'.2, hab]

/-- In every state that calls, page upserts and deletes lead to: a decided proposal has one
decision event, the one of its status, and both stay whatever comes later, but for the
references of the proposal to page versions that are deleted; a target has at most one
pending proposal of each owner; an approval that writes finds the very version, or the
absence, that the call that staged the proposal (the one that brings its row) found, and no
protected page; and one that ends in a conflict or an error leaves the pages as they are. -/
theorem proposal_law (C : PageCodec) (K : SlotCodec) (start : Db) (hstart : Fresh start)
    (ops : List Op) (db : Db) (hdb : db = exec (step C K) start ops) :
    (∀ p ∈ db.proposals, p.status ≠ .pending → ∀ later : List Op, ∃ kind,
      p.status.decision = some kind ∧ decisions db p.id = [kind] ∧
      (∃ p' ∈ (exec (step C K) db later).proposals, SameButRefs p' p) ∧
      decisions (exec (step C K) db later) p.id = [kind]) ∧
    (∀ p ∈ db.proposals, ∀ q ∈ db.proposals, p.status = .pending → q.status = .pending →
      p.projectId = q.projectId → p.targetPath = q.targetPath →
      p.stagedByActorUser = q.stagedByActorUser → p = q) ∧
    ∀ input : ApproveAutoImproveProposal,
      (∀ pageId db', approveProposal C K db input = .ok (.approved pageId, db') →
        ∃ p ∈ db.proposals, input.addresses p = true ∧ input.page.path = p.targetPath ∧
          (∀ page ∈ db.store.latestAt p.workspaceId p.projectId p.targetPath,
            pinnedRefusalApplies K p.targetPath page.pinned page.frontmatterJson = false) ∧
          ∃ before op after, ops = before ++ op :: after ∧
            (∀ q ∈ (exec (step C K) start before).proposals, q.id ≠ p.id) ∧
            (∃ q ∈ (exec (step C K) start (before ++ [op])).proposals, q.id = p.id) ∧
            SameLatest (exec (step C K) start before).store db.store p.workspaceId p.projectId
              p.targetPath) ∧
      (∀ db', approveProposal C K db input = .ok (.conflict, db') → db'.store = db.store) ∧
      ∀ e, approveProposal C K db input = .error e → step C K db (.approve input) = db := by
  have hinv : Inv db := hdb ▸ exec_inv C K hstart.inv ops
  refine ⟨fun p hp hdecided later => ?_, fun p hp q hq hpending hpending' hproj hpath howner => ?_,
    fun input => ⟨fun pageId db' hok => ?_, fun db' hok => ?_, fun e herror => ?_⟩⟩
  · obtain ⟨kind, hkind⟩ : ∃ kind, p.status.decision = some kind := by
      cases hstatus : p.status with
      | pending => exact absurd hstatus hdecided
      | approved => exact ⟨_, rfl⟩
      | rejected => exact ⟨_, rfl⟩
      | conflict => exact ⟨_, rfl⟩
      | failed => exact ⟨_, rfl⟩
    obtain ⟨p', hp', hsame⟩ := exec_keeps_decided C K later hp hdecided
    refine ⟨kind, hkind, ?_, ⟨p', hp', hsame⟩, ?_⟩
    · rw [hinv.decided p hp, hkind]
      rfl
    · have hlater := (exec_inv C K hinv later).decided p' hp'
      obtain ⟨_, _, -, -, rfl⟩ := hsame
      rw [hkind] at hlater
      exact hlater
  · refine hinv.pending q hq p hp hpending' (blocks_iff.mpr ⟨hpending, ?_, hproj, hpath, ?_⟩)
    · exact hinv.workspace_eq hp hq hproj
    · rw [howner]
  · obtain ⟨p, hp, haddress, hpath, ⟨hconflict, -⟩ | ⟨_, _, -, hpinned, hdrift, -⟩⟩ :=
      approveProposal_ok hok
    · cases hconflict
    · obtain ⟨-, hws, hproj, -⟩ := addresses_iff.mp haddress
      rw [← hws, ← hproj] at hpinned hdrift
      obtain ⟨before, op, after, hops, hfirst, hstaged, hrecorded⟩ :=
        exec_recorded C K hstart ops p (hdb ▸ hp)
      rw [← hdb] at hrecorded
      exact ⟨p, hp, haddress, hpath, hpinned, before, op, after, hops, hfirst, hstaged,
        hrecorded.sameLatest hinv.pages hdrift⟩
  · obtain ⟨_, -, -, -, ⟨-, reason, rfl⟩ | ⟨_, _, happroved, -⟩⟩ := approveProposal_ok hok
    · rfl
    · cases happroved
  · rw [step, herror]
    rfl

section Examples

def plainCodec : PageCodec where
  sha256 body := body
  conform _ frontmatter := frontmatter
  sameFrontmatter a b := a = b
  stamped frontmatter _ := frontmatter
  compacted _ := false
  portablePageKey path := path

def noSlots : SlotCodec := ⟨fun _ => none⟩

def oneProject : Db := ⟨⟨[⟨1, 1⟩], [], [], [], [], [], []⟩, [], [], []⟩

lemma fresh_oneProject : Fresh oneProject := ⟨pageInv_nil, by decide, rfl, rfl⟩

def stageNote : Op := .stageRun ⟨1, 1, 1, none, "",
  [⟨5, .create, "notes/a.md", "learning", "A", "", "[]", "text", none, none, none⟩], 10⟩

def approveNote : ApproveAutoImproveProposal :=
  ⟨⟨1, 1, 5, "", none, 20⟩, ⟨1, 1, "notes/a.md", "A", "semantic", "text", "", false, none, none⟩,
    7, 0, none⟩

/-- A staged creation is approved: nothing was there then, and nothing is there now. -/
theorem proposal_law_create :
    ∃ p ∈ (exec (step plainCodec noSlots) oneProject [stageNote]).proposals, p.id = 5 ∧
      ∃ before op after, [stageNote] = before ++ op :: after ∧
        SameLatest (exec (step plainCodec noSlots) oneProject before).store
          (exec (step plainCodec noSlots) oneProject [stageNote]).store p.workspaceId p.projectId
            p.targetPath := by
  obtain ⟨-, -, happrove⟩ := proposal_law plainCodec noSlots oneProject fresh_oneProject [stageNote]
    _ rfl
  obtain ⟨p, hp, haddress, -, -, before, op, after, hops, -, -, hsame⟩ :=
    (happrove approveNote).1 7 (step plainCodec noSlots
      (exec (step plainCodec noSlots) oneProject [stageNote]) (.approve approveNote)) (by rfl)
  exact ⟨p, hp, (addresses_iff.mp haddress).1, before, op, after, hops, hsame⟩

/-- The page an approval wrote is deleted: the approved proposal is another row. -/
theorem delete_changes_approved :
    ((exec (step plainCodec noSlots) oneProject [stageNote, .approve approveNote]).proposals.map
        fun p => (p.status, p.appliedPageId)) = [(.approved, some 7)] ∧
      ((exec (step plainCodec noSlots) oneProject [stageNote, .approve approveNote,
        .page (.delete 1 1 "notes/a.md")]).proposals.map
          fun p => (p.status, p.appliedPageId)) = [(.approved, none)] := by
  decide +kernel

end Examples

end AutoImprove
