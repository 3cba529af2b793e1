/-
The sync converges, up to a size limit.

After a run that applied its plan, with no notices and nobody else around, every
page it looked at is gone from the three places or the same in all of them
(`Landed`).  The next run has nothing to do for such a page, unless its file is
over the limit: planning refuses a file by its whole size, while a page is
rendered as long as its body is within that size.
-/
import AiMemory.Wikisync.Applying

open Programs List

namespace Wikisync

open Option (some_inj)
open Except (ok.injEq ok.inj)

/-- The page is there, and the base says what the file is: by the tag of the
server version, or by its rendering. -/
def Cell.Agrees (x : Externals) (c : Cell) (file : ByteArray) : Prop :=
  c.entry = some (.file file) ∧ ∃ v entry, c.page = some v ∧ c.recorded = some entry ∧
    entry.hash = x.sha256Hex file ∧
    (v.Matches entry.etag ∨ x.sha256Hex file = x.sha256Hex v.content.file.toUTF8 ∧
      v.content.bodyMarkdown.utf8ByteSize ≤ maxBodyBytes)

section

variable (x : Externals) (srv : Server) (args : SyncArgs) (old : SyncState) (w : World)

/-- The file that the run writes at `p`, if any, is within the limit that planning
puts on files: of an export, the server page as a file; of an import, what the
server makes of the file. -/
def FitsAt (p : String) : Prop :=
  match actionAt x args old w p with
  | .exportPage _ => ∀ v, w.pages.latest.lookup p = some v →
      v.content.file.utf8ByteSize ≤ maxBodyBytes
  | .importPage _ => ∀ disk m body stored, diskAt w p = some disk →
      parse x.fromStr disk = .ok (m, body) → srv.stores p m body = some stored →
      stored.file.utf8ByteSize ≤ maxBodyBytes
  | _ => True

def SizeSafe : Prop :=
  ∀ p, validatePagePath p = true → familyOf p ∈ args.includes →
    FitsAt x srv args (args.baseline w.state) w p

/-- A run finds nothing to do: its outcome is `InSync`. -/
def InSync (mode : SyncMode) : Prop :=
  ∃ o, (alone (serve x srv) (run x args mode w.state) w).2 = .ok o ∧ o.status = .inSync

def Landed (p : String) (c : Cell) : Prop :=
  c.Gone ∧ FitsAt x srv args old w p ∨
    ∃ file, c.Agrees x file ∧ (file.size ≤ maxBodyBytes ↔ FitsAt x srv args old w p)

variable {x srv args old w} {w' : World} {p : String} {families : List String}

/-! ### After a run -/

variable {c : ByteArray} {onServer : List String} {statelessCheck : Bool} {item : Item}
  {plan : Plan} {o : Outcome}

lemma entry_of_diskAt_some (h : diskAt w p = some c) :
    w.repo.entries.lookup p = some (.file c) := by
  rw [diskAt] at h
  split at h
  · rename_i bytes hentry
    rw [hentry, some_inj.mp h]
  · cases h

lemma entry_of_diskAt_none (hread : w.repo.readDisk p = .ok (diskAt w p))
    (h : diskAt w p = none) : w.repo.entries.lookup p = none := by
  cases hentry : w.repo.entries.lookup p with
  | none => rfl
  | some entry =>
    cases entry with
    | file c =>
      rw [diskAt, hentry] at h
      cases h
    | link target =>
      rw [Repo.readDisk] at hread
      split at hread
      · cases hread
      · rw [hentry] at hread
        cases hread

lemma size_le_of_planned (hlisted : onServer.contains p = (w.pages.latest.lookup p).isSome)
    (h : (alone (serve x srv) (planPage x args old statelessCheck onServer p) w).2 = .ok item)
    (hitem : item.reason? = none) (hdisk : diskAt w p = some c) : c.size ≤ maxBodyBytes := by
  obtain ⟨-, h⟩ := (planPage_ok hlisted).mp h
  by_contra hlarge
  have htoo : tooLarge (diskAt w p) := by
    rw [hdisk]
    simpa [tooLarge] using hlarge
  rw [if_pos htoo] at h
  rw [h] at hitem
  cases hitem

lemma agrees_rendered {c : Cell} {v : Version} {entry : PageState}
    (hcell : c = ⟨some (.file v.content.file.toUTF8), some v, some entry⟩)
    (hhash : entry.hash = x.sha256Hex v.content.file.toUTF8)
    (hbody : v.content.bodyMarkdown.utf8ByteSize ≤ maxBodyBytes) :
    c.Agrees x v.content.file.toUTF8 := by
  rw [hcell]
  exact ⟨rfl, v, entry, rfl, rfl, hhash, .inr ⟨rfl, hbody⟩⟩

lemma landed_of_planned {c : Cell}
    (hlisted : onServer.contains p = (w.pages.latest.lookup p).isSome)
    (h : (alone (serve x srv) (planPage x args old false onServer p) w).2 = .ok item)
    (hreason : item.reason? = none) (hnotice : item.notice? = none)
    (hleads : item.Leads x srv (cellAt w old p) c) : Landed x srv args old w p c := by
  have hread := ((planPage_ok hlisted).mp h).1
  have hsize : ∀ disk, diskAt w p = some disk → disk.size ≤ maxBodyBytes := fun disk =>
    size_le_of_planned hlisted h hreason
  have hplanned := planPage_planned hlisted h
  rw [Landed, FitsAt]
  generalize actionAt x args old w p = action at hplanned
  cases hplanned with
  | absent hdisk hpage hbase =>
    rw [hleads]
    exact .inl ⟨⟨entry_of_diskAt_none hread hdisk, hpage, hbase⟩, trivial⟩
  | revalidated hdisk hpage hbase hhash hmatch =>
    rw [hleads]
    refine .inr ⟨_, ⟨entry_of_diskAt_some hdisk, _, _, hpage, hbase, hhash, .inl hmatch⟩, ?_⟩
    exact iff_of_true (hsize _ hdisk) trivial
  | adopted hdisk hpage hbody hsame hhash =>
    rw [hleads]
    refine .inr ⟨_, ⟨entry_of_diskAt_some hdisk, _, _, hpage, rfl, hhash.trans hsame.symm,
      .inr ⟨hsame, hbody⟩⟩, ?_⟩
    exact iff_of_true (hsize _ hdisk) trivial
  | @exported v e hpage hbody hpath hbytes =>
    have hcell : c = ⟨some (.file v.content.file.toUTF8), some v,
        some ⟨x.sha256Hex v.content.file.toUTF8, e.etag, e.pageId⟩⟩ := by
      rw [show c = _ from hleads, hbytes, cellAt, hpage]
    refine .inr ⟨_, agrees_rendered hcell rfl hbody, ?_⟩
    rw [hpage]
    simp
  | @imported i hdisk hpath hparse =>
    obtain ⟨v, entry, hcell, hstores, hbody, hhash⟩ := hleads
    refine .inr ⟨_, agrees_rendered hcell hhash hbody, ?_⟩
    rw [hpath] at hstores
    constructor
    · intro hfits disk m body stored hdisk' hparse' hstores'
      obtain rfl : i.disk = disk := some_inj.mp (hdisk.symm.trans hdisk')
      rw [hparse, ok.injEq, Prod.mk.injEq] at hparse'
      rw [← hparse'.1, ← hparse'.2, hstores, some_inj] at hstores'
      rw [← hstores']
      exact hfits
    · intro hfits
      exact hfits _ _ _ _ hdisk hparse hstores
  | serverDelete hpath => exact .inl ⟨hleads, trivial⟩
  | fileDelete hpath hpage =>
    rw [show c = _ from hleads]
    exact .inl ⟨⟨rfl, hpage, rfl⟩, trivial⟩
  | forgotten hdisk hpage =>
    rw [show c = _ from hleads]
    exact .inl ⟨⟨entry_of_diskAt_none hread hdisk, hpage, rfl⟩, trivial⟩
  | refused reason => cases hreason
  | noticed n => cases hnotice
  | differs hstateless => cases hstateless

lemma quiet_ensureIfWriting : Quiet (serve x srv) (ensureIfWriting plan) :=
  free_ensureIfWriting.quiet serve_of_writes_eq_zero

lemma performPlan_ok (h : alone (serve x srv) (performPlan x args old plan) w = (w', .ok o)) :
    plan.batchRefusal = none ∧ plan.refused = [] ∧ plan.outcome = o ∧
      ∃ g, alone (serve x srv) (applyPlan x args old plan) w = (w', .ok g) ∧ g.raced = [] := by
  rw [performPlan] at h
  cases hbatch : plan.batchRefusal with
  | some deletes =>
    rw [hbatch] at h
    cases h
  | none =>
    simp only [hbatch] at h
    split at h
    · rename_i hrefused
      obtain ⟨w₁, _, hensure, hrest⟩ := alone_bind_ok.mp h
      obtain ⟨rfl, -⟩ := quiet_ensureIfWriting.alone_eq.mp hensure
      obtain ⟨w₂, g, happly, hend⟩ := alone_bind_ok.mp hrest
      split at hend
      · rename_i hraced
        cases hend
        exact ⟨rfl, isEmpty_iff.mp hrefused, rfl, g, happly, isEmpty_iff.mp hraced⟩
      · cases hend
    · cases h

lemma run_ok {mode : SyncMode} {loaded : Option SyncState} :
    alone (serve x srv) (run x args mode loaded) w = (w', .ok o) ↔
      ∃ old plan, (alone (serve x srv) (planRun x args mode loaded) w).2 = .ok (old, plan) ∧
        if mode = .apply then alone (serve x srv) (performPlan x args old plan) w = (w', .ok o)
        else w = w' ∧ plan.outcome = o := by
  rw [run, alone_bind_ok]
  constructor
  · rintro ⟨w₁, ⟨old, plan⟩, hplan, h⟩
    obtain ⟨rfl, hplan⟩ := quiet_planRun.alone_eq.mp hplan
    refine ⟨old, plan, hplan, ?_⟩
    by_cases hmode : mode = .apply
    · simpa only [hmode, if_true] using h
    · simp only [hmode, if_false] at h ⊢
      cases h
      exact ⟨rfl, rfl⟩
  · rintro ⟨old, plan, hplan, h⟩
    refine ⟨w, (old, plan), quiet_planRun.alone_eq.mpr ⟨rfl, hplan⟩, ?_⟩
    by_cases hmode : mode = .apply
    · simpa only [hmode, if_true] using h
    · simp only [hmode, if_false] at h ⊢
      rw [← h.1, ← h.2]
      rfl

lemma validatePagePath_of_planned
    (hlisted : onServer.contains p = (w.pages.latest.lookup p).isSome)
    (h : (alone (serve x srv) (planPage x args old statelessCheck onServer p) w).2 = .ok item) :
    validatePagePath p :=
  (readDisk_ok ((planPage_ok hlisted).mp h).1).2

lemma itemized {all : List String} {item : String → Item} (hnodup : all.Nodup)
    (hplanned : ∀ p ∈ all, ∃ action, Planned x old statelessCheck w p (item p) action) :
    Itemized all item := by
  refine ⟨hnodup, fun p hp i hi => ?_, fun p hp e he => ?_, fun p hp d hd => ?_,
    fun p hp d hd => ?_⟩
  · obtain ⟨_, h⟩ := hplanned p hp
    rw [hi] at h
    cases h
    assumption
  · obtain ⟨_, h⟩ := hplanned p hp
    rw [he] at h
    cases h
    assumption
  all_goals
    obtain ⟨_, h⟩ := hplanned p hp
    rw [hd] at h
    cases h
    assumption

structure Landing (x : Externals) (srv : Server) (args : SyncArgs) (old : SyncState) (w : World)
    (families : List String) (w' : World) (state : SyncState) : Prop where
  saved : w'.state = some state
  scope : state.scope = some args.scope
  plannable : Plannable old w families
  unrefused : refusedPages w families = []
  valid : ∀ p ∈ pagesOf old w families, validatePagePath p = true
  landed : ∀ p ∈ pagesOf old w families, Landed x srv args old w p (cellAt w' state p)
  outside : ∀ p ∉ pagesOf old w families, cellAt w' state p = cellAt w old p

lemma run_landed (hrun : alone (serve x srv) (run x args .apply w.state) w = (w', .ok o))
    (hplan : (alone (serve x srv) (planRun x args .apply w.state) w).2 = .ok (old, plan))
    (hnotices : plan.notices = []) :
    ∃ families state, validateAllowlist args.includes = .ok families ∧
      baselineFor (w.state.getD {}) args.scope args.adoptScope = .ok old ∧
      Landing x srv args old w families w' state := by
  obtain ⟨old', plan', hplan', hperform⟩ := run_ok.mp hrun
  rw [hplan, ok.injEq, Prod.mk.injEq] at hplan'
  obtain ⟨rfl, rfl⟩ := hplan'
  rw [if_pos rfl] at hperform
  obtain ⟨-, hrefused, -, g, happly, hraced⟩ := performPlan_ok hperform
  obtain ⟨families, hfamilies, hbaseline, hbuild⟩ := planRun_ok.mp hplan
  rw [show (SyncMode.apply == .check && w.state.isNone) = false from rfl] at hbuild
  obtain ⟨hplannable, hitems, hholds⟩ := buildPlan_holds hbuild
  -- nothing is refused, neither by the walk nor by an item
  rw [hholds.refused, append_eq_nil_iff] at hrefused
  obtain ⟨hfound, hreasons⟩ := hrefused
  rw [hholds.notices] at hnotices
  have hlisted : ∀ p ∈ pagesOf old w families, (serverPages w families).contains p
      = (w.pages.latest.lookup p).isSome := fun p hp =>
    contains_serverPages (family_of_mem_pagesOf hfound hp)
  have hplanned : ∀ p ∈ pagesOf old w families, ∃ action,
      Planned x old false w p (itemAt x srv args old false (serverPages w families) w p) action :=
    fun p hp => ⟨_, planPage_planned (hlisted p hp) (hitems p hp)⟩
  have hfiles : ∀ p ∈ pagesOf old w families, ∀ i,
      itemAt x srv args old false (serverPages w families) w p = .importPage i →
        w.repo.entries.lookup p = some (.file i.disk) := by
    intro p hp i hi
    obtain ⟨_, h⟩ := hplanned p hp
    rw [hi] at h
    cases h with
    | imported hdisk hpath hparse => exact entry_of_diskAt_some hdisk
  obtain ⟨hsaved, hscope, hcells, houtside⟩ :=
    applyPlan_cells (itemized nodup_pagesOf hplanned) hholds hfiles happly hraced
  refine ⟨families, g.state, hfamilies, hbaseline, hsaved, hscope, hplannable, hfound,
    fun p hp => validatePagePath_of_planned (hlisted p hp) (hitems p hp), fun p hp => ?_, houtside⟩
  refine landed_of_planned (hlisted p hp) (hitems p hp) ?_ ?_ (hcells p hp)
  · simpa using filterMap_eq_nil_iff.mp hreasons p hp
  · simpa using filterMap_eq_nil_iff.mp hnotices p hp

lemma readDisk_of_file {r : Repo} (hvalid : validatePagePath p)
    (h : r.entries.lookup p = some (.file c)) : r.readDisk p = .ok (some c) := by
  have hp : p ∈ r.entries := AList.lookup_isSome.mp (by rw [h]; rfl)
  have hjoin : r.secureJoin p := by
    rw [Repo.secureJoin, h, hvalid, Bool.and_true, Bool.true_and, all_eq_true]
    intro q hq
    rw [r.tree q (AList.mem_keys.mpr hq) p hp]
    rfl
  rw [Repo.readDisk, if_neg (by simp [hjoin]), h]

lemma actionAt_agrees (h : (cellAt w old p).Agrees x c) :
    Readable w p (hintAt x old w p) ∧ actionAt x args old w p = .unchanged := by
  obtain ⟨hentry, v, entry, hpage, hrecorded, hhash, hsame⟩ := h
  have hdisk : diskAt w p = some c := by
    rw [diskAt, show w.repo.entries.lookup p = _ from hentry]
  have hbase : diskIsBase x (diskAt w p) (old.pages.lookup p) := by
    rw [hdisk, show old.pages.lookup p = _ from hrecorded, diskIsBase, hhash, beq_self_eq_true]
  have hhint : hintAt x old w p = entry.etag := by
    rw [hintAt, hintFor, if_pos hbase, show old.pages.lookup p = _ from hrecorded]
    rfl
  have hpage : w.pages.latest.lookup p = some v := hpage
  rw [actionAt, hhint, Readable, sideAt, hpage]
  by_cases hmatch : v.Matches entry.etag
  · -- the server answers `304`, and the file is the base
    constructor
    · intro v' hv' hno
      obtain rfl := some_inj.mp hv'
      exact absurd hmatch hno
    · simp only [hmatch, if_true, Policy.decide, hbase]
      rw [hdisk]
      rfl
  · -- the page is rendered, into the bytes of the file
    obtain ⟨hsame, hbody⟩ := hsame.resolve_left hmatch
    constructor
    · intro v' hv' _
      obtain rfl := some_inj.mp hv'
      exact hbody
    · simp only [hmatch, if_false, Policy.decide, hdisk, hsame, if_true]

lemma planPage_settled (hvalid : validatePagePath p) (h : (cellAt w old p).Agrees x c)
    (hlisted : onServer.contains p = (w.pages.latest.lookup p).isSome) :
    ∃ item, (alone (serve x srv) (planPage x args old statelessCheck onServer p) w).2 = .ok item ∧
      if c.size ≤ maxBodyBytes then ∃ adopted, item = .unchanged adopted
      else item = .refuse .tooLarge := by
  have hunchanged : Readable w p (hintAt x old w p) ∧ actionAt x args old w p = .unchanged :=
    actionAt_agrees h
  have hdisk : diskAt w p = some c := by
    rw [diskAt, show w.repo.entries.lookup p = _ from h.1]
  have hread : w.repo.readDisk p = .ok (diskAt w p) := by
    rw [hdisk]
    exact readDisk_of_file hvalid h.1
  have hlarge : tooLarge (diskAt w p) ↔ ¬ c.size ≤ maxBodyBytes := by
    rw [hdisk]
    simp [tooLarge]
  by_cases hsize : c.size ≤ maxBodyBytes
  · obtain ⟨adopted, hdone⟩ : ∃ adopted, (alone (serve x srv) (planAction x args statelessCheck p
        (diskAt w p) (old.pages.lookup p) (seenAt srv w p (hintAt x old w p))
        (actionAt x args old w p)) w).2 = .ok (.unchanged adopted) := by
      rw [hunchanged.2]
      exact ⟨_, rfl⟩
    refine ⟨.unchanged adopted, (planPage_ok hlisted).mpr ⟨hread, ?_⟩, ?_⟩
    · rw [if_neg (by rw [hlarge]; exact not_not.mpr hsize)]
      exact ⟨hunchanged.1, hdone⟩
    · rw [if_pos hsize]
      exact ⟨adopted, rfl⟩
  · refine ⟨.refuse .tooLarge, (planPage_ok hlisted).mpr ⟨hread, ?_⟩, ?_⟩
    · rw [if_pos (hlarge.mpr hsize)]
    · rw [if_neg hsize]

lemma status_inSync : plan.outcome.status = .inSync ↔
    plan.imports = [] ∧ plan.exports = [] ∧ plan.serverDeletes = [] ∧ plan.fileDeletes = [] ∧
      plan.notices = [] ∧ plan.differs = [] ∧ plan.refused = [] ∧ plan.batchRefusal = none := by
  rw [Outcome.status, Plan.outcome]
  by_cases hblocked : (!plan.refused.isEmpty || plan.batchRefusal.isSome)
  · have hno : ¬ (plan.refused = [] ∧ plan.batchRefusal = none) := by
      rintro ⟨hrefused, hbatch⟩
      rw [hrefused, hbatch] at hblocked
      cases hblocked
    simp only [hblocked, if_true, reduceCtorEq, false_iff]
    exact fun h => hno ⟨h.2.2.2.2.2.2.1, h.2.2.2.2.2.2.2⟩
  · have hclear : plan.refused = [] ∧ plan.batchRefusal = none := by
      simpa using hblocked
    rw [if_neg hblocked, and_iff_left hclear.2]
    simp only [hclear.1, and_true, ← length_eq_zero_iff]
    split
    · simp only [reduceCtorEq, false_iff]
      omega
    · simp only [true_iff]
      omega

lemma status_of_unchanged {all : List String} {item : String → Item}
    {maxDeletes : ℕ} (hholds : plan.Holds [] all item) (hbatch : plan.batchRefusal = none)
    (h : ∀ p ∈ all, ∃ adopted, item p = .unchanged adopted) :
    (plan.withCeiling maxDeletes).outcome.status = .inSync := by
  have hnone : ∀ {γ : Type} (pick : String → Item → Option γ),
      (∀ p adopted, pick p (.unchanged adopted) = none) →
        all.filterMap (fun p => pick p (item p)) = [] := by
    intro γ pick hpick
    rw [filterMap_eq_nil_iff]
    intro p hp
    obtain ⟨adopted, hitem⟩ := h p hp
    rw [hitem]
    exact hpick p adopted
  have hserver := hholds.serverDeletes.trans (hnone (fun _ => Item.serverDelete?) fun _ _ => rfl)
  have hfile := hholds.fileDeletes.trans (hnone (fun _ => Item.fileDelete?) fun _ _ => rfl)
  have hdiffers : plan.differs = [] := by
    rw [hholds.differs, filter_eq_nil_iff]
    intro p hp
    obtain ⟨adopted, hitem⟩ := h p hp
    rw [hitem]
    exact Bool.false_ne_true
  have hceiling : plan.withCeiling maxDeletes = plan := by
    rw [Plan.withCeiling, if_neg]
    rw [Plan.deletes, hserver, hfile]
    exact Nat.not_lt_zero maxDeletes
  rw [hceiling, status_inSync]
  refine ⟨?_, ?_, hserver, hfile, ?_, hdiffers, ?_, hbatch⟩
  · exact hholds.imports.trans (hnone (fun _ => Item.import?) fun _ _ => rfl)
  · exact hholds.exports.trans (hnone (fun _ => Item.export?) fun _ _ => rfl)
  · exact hholds.notices.trans (hnone (fun p t => t.notice?.map (Prod.mk p)) fun _ _ => rfl)
  · exact hholds.refused.trans (hnone (fun p t => t.reason?.map (Refusal.mk p)) fun _ _ => rfl)

lemma performPlan_idle (h : plan.outcome.status = .inSync) :
    ∃ w', alone (serve x srv) (performPlan x args old plan) w = (w', .ok plan.outcome) := by
  obtain ⟨himports, hexports, hserver, hfile, -, -, hrefused, hbatch⟩ := status_inSync.mp h
  refine ⟨{ w with state := some (startState args old plan) }, ?_⟩
  simp only [performPlan, hbatch, hrefused, ensureIfWriting, applyPlan, himports, hexports, hserver,
    hfile]
  rfl

lemma inSync_iff {mode : SyncMode} : InSync x srv args w mode ↔
    ∃ old plan, (alone (serve x srv) (planRun x args mode w.state) w).2 = .ok (old, plan) ∧
      plan.outcome.status = .inSync := by
  constructor
  · rintro ⟨o, hrun, hstatus⟩
    obtain ⟨old, plan, hplan, h⟩ := run_ok.mp (Prod.ext rfl hrun)
    refine ⟨old, plan, hplan, ?_⟩
    split at h
    · rw [(performPlan_ok h).2.2.1, hstatus]
    · rw [h.2, hstatus]
  · rintro ⟨old, plan, hplan, hstatus⟩
    refine ⟨plan.outcome, ?_, hstatus⟩
    by_cases hmode : mode = .apply
    · obtain ⟨w', hperform⟩ : ∃ w', alone (serve x srv) (performPlan x args old plan) w
          = (w', .ok plan.outcome) := performPlan_idle hstatus
      rw [run_ok.mpr ⟨old, plan, hplan, by rw [if_pos hmode]; exact hperform⟩]
    · rw [run_ok.mpr ⟨old, plan, hplan, by rw [if_neg hmode]; exact ⟨rfl, rfl⟩⟩]

/-! ### The next run -/

section landing

variable {state : SyncState} (land : Landing x srv args old w families w' state)

include land

lemma Landing.present (hp : p ∉ pagesOf old w families) :
    diskAt w' p = diskAt w p ∧ w'.pages.latest.lookup p = w.pages.latest.lookup p ∧
      state.pages.lookup p = old.pages.lookup p := by
  have hcell := land.outside p hp
  rw [cellAt, cellAt, Cell.mk.injEq] at hcell
  exact ⟨by rw [diskAt, diskAt, hcell.1], hcell.2⟩

lemma Landing.unrefused_next : refusedPages w' families = [] := by
  rw [refusedPages_eq_nil]
  intro p entry hentry hfamily hhidden
  by_cases hp : p ∈ pagesOf old w families
  · rcases land.landed p hp with ⟨hgone, -⟩ | ⟨file, hagrees, -⟩
    · have hnone : w'.repo.entries.lookup p = none := hgone.1
      rw [hnone] at hentry
      cases hentry
    · have hfile : w'.repo.entries.lookup p = some (.file file) := hagrees.1
      rw [hfile, some_inj] at hentry
      rw [← hentry]
      exact ⟨fun target => by simp, fun _ => land.valid p hp⟩
  · have hcell := land.outside p hp
    rw [cellAt, cellAt, Cell.mk.injEq] at hcell
    rw [hcell.1] at hentry
    exact refusedPages_eq_nil.mp land.unrefused p entry hentry hfamily hhidden

lemma Landing.pagesOf_subset : pagesOf state w' families ⊆ pagesOf old w families := by
  intro p hp
  by_contra hnew
  obtain ⟨hdisk, hpage, hbase⟩ := land.present hnew
  refine hnew ((mem_pagesOf land.unrefused).mpr ?_)
  rcases (mem_pagesOf land.unrefused_next).mp hp with h | h | h
  · exact .inl (mem_serverPages.mpr (hpage ▸ mem_serverPages.mp h))
  · exact .inr (.inl (mem_repoPages.mpr (hdisk ▸ mem_repoPages.mp h)))
  · exact .inr (.inr (hbase ▸ h))

lemma Landing.agrees (hp : p ∈ pagesOf state w' families) :
    ∃ file, (cellAt w' state p).Agrees x file ∧
      (file.size ≤ maxBodyBytes ↔ FitsAt x srv args old w p) := by
  rcases land.landed p (land.pagesOf_subset hp) with ⟨hgone, -⟩ | h
  · -- a page gone from the three places is no page of a plan
    obtain ⟨hentry, hpage, hbase⟩ := hgone
    have hpage : w'.pages.latest.lookup p = none := hpage
    have hbase : state.pages.lookup p = none := hbase
    have hentry : w'.repo.entries.lookup p = none := hentry
    rcases (mem_pagesOf land.unrefused_next).mp hp with h | h | h
    · have hsome := (mem_serverPages.mp h).1
      rw [hpage] at hsome
      cases hsome
    · have hsome := (mem_repoPages.mp h).1
      rw [diskAt, hentry] at hsome
      cases hsome
    · have hsome := h.1
      rw [hbase] at hsome
      cases hsome
  · exact h

lemma Landing.plannable_next : Plannable state w' families := by
  have hserver : serverPages w' families ⊆ pagesOf old w families := fun p hp =>
    land.pagesOf_subset ((mem_pagesOf land.unrefused_next).mpr (.inl hp))
  have hrepo : repoPages w' families ⊆ pagesOf old w families := fun p hp =>
    land.pagesOf_subset ((mem_pagesOf land.unrefused_next).mpr (.inr (.inl hp)))
  -- fewer pages than the first plan had, each of them once
  have hbound : ∀ {l : List String}, l.Nodup → l ⊆ pagesOf old w families →
      l.length ≤ maxPages := fun hnodup hsub =>
    (subperm_of_subset hnodup hsub).length_le.trans land.plannable.bound
  constructor
  · exact fun p hp => land.valid p (hserver hp)
  · exact hbound (nodup_sortedSet _) hserver
  · exact noCaseFoldCollisions_subset land.plannable.names hserver
  · exact hbound nodup_repoPages hrepo
  · exact hbound nodup_pagesOf land.pagesOf_subset
  · exact noCaseFoldCollisions_subset land.plannable.names land.pagesOf_subset

lemma Landing.item_next {statelessCheck : Bool} (hp : p ∈ pagesOf state w' families) :
    ∃ item, (alone (serve x srv) (planPage x args state statelessCheck (serverPages w' families) p)
        w').2 = .ok item ∧ (FitsAt x srv args old w p → ∃ adopted, item = .unchanged adopted) ∧
      (¬ FitsAt x srv args old w p → item = .refuse .tooLarge) := by
  obtain ⟨file, hagrees, hfits⟩ := land.agrees hp
  obtain ⟨item, hitem, hcase⟩ := planPage_settled (land.valid p (land.pagesOf_subset hp)) hagrees
    (contains_serverPages (family_of_mem_pagesOf land.unrefused_next hp))
  refine ⟨item, hitem, ?_⟩
  rw [← hfits]
  by_cases hsize : file.size ≤ maxBodyBytes
  · rw [if_pos hsize] at hcase
    exact ⟨fun _ => hcase, absurd hsize⟩
  · rw [if_neg hsize] at hcase
    exact ⟨fun h => absurd h hsize, fun _ => hcase⟩

lemma Landing.plan_next (statelessCheck : Bool) :
    ∃ plan, (alone (serve x srv) (buildPlan x args families state statelessCheck) w').2 = .ok plan ∧
      (plan.outcome.status = .inSync ↔
        ∀ p ∈ pagesOf state w' families, FitsAt x srv args old w p) := by
  have hitems : ∀ p ∈ pagesOf state w' families,
      (alone (serve x srv) (planPage x args state statelessCheck (serverPages w' families) p) w').2
        = .ok (itemAt x srv args state statelessCheck (serverPages w' families) w' p) := by
    intro p hp
    obtain ⟨item, hitem, -⟩ := land.item_next hp
    rw [itemAt, hitem]
    rfl
  have hcase : ∀ p ∈ pagesOf state w' families, (FitsAt x srv args old w p → ∃ adopted,
        itemAt x srv args state statelessCheck (serverPages w' families) w' p = .unchanged adopted) ∧
      (¬ FitsAt x srv args old w p →
        itemAt x srv args state statelessCheck (serverPages w' families) w' p
          = .refuse .tooLarge) := by
    intro p hp
    obtain ⟨item, hitem, hcase⟩ := land.item_next hp
    rw [hitems p hp, ok.injEq] at hitem
    rw [hitem]
    exact hcase
  refine ⟨_, buildPlan_ok.mpr ⟨land.plannable_next, _, by rw [alone_planPages hitems], rfl⟩, ?_⟩
  generalize itemAt x srv args state statelessCheck (serverPages w' families) w' = item at hcase
  have hholds := holds_foldl_push (refusedPages w' families) (pagesOf state w' families) item
  constructor
  · intro hsync p hp
    by_contra hfits
    have hrefused := (status_inSync.mp hsync).2.2.2.2.2.2.1
    rw [(hholds.withCeiling _).refused, append_eq_nil_iff, filterMap_eq_nil_iff]
      at hrefused
    have hnone := hrefused.2 p hp
    rw [(hcase p hp).2 hfits] at hnone
    cases hnone
  · intro hfits
    rw [land.unrefused_next] at hholds ⊢
    refine status_of_unchanged hholds ?_ fun p hp => (hcase p hp).1 (hfits p hp)
    rw [foldl_push]

lemma Landing.baseline_next :
    baselineFor (w'.state.getD {}) args.scope args.adoptScope = .ok state := by
  rw [land.saved, Option.getD_some, baselineFor, land.scope]
  simp

lemma Landing.fits_outside (hvalid : validatePagePath p) (hfamily : familyOf p ∈ families)
    (hp : p ∉ pagesOf old w families) : FitsAt x srv args old w p := by
  have hpage : w.pages.latest.lookup p = none := by
    by_contra hsome
    refine hp ((mem_pagesOf land.unrefused).mpr (.inl (mem_serverPages.mpr ⟨?_, hfamily⟩)))
    exact Option.isSome_iff_ne_none.mpr hsome
  have hdisk : diskAt w p = none := by
    by_contra hsome
    refine hp ((mem_pagesOf land.unrefused).mpr (.inr (.inl (mem_repoPages.mpr ⟨?_, hfamily, hvalid⟩))))
    exact Option.isSome_iff_ne_none.mpr hsome
  rw [FitsAt]
  split
  · intro v hv
    rw [hpage] at hv
    cases hv
  · intro disk m body stored hd
    rw [hdisk] at hd
    cases hd
  · trivial

lemma Landing.fits_iff : (∀ p ∈ pagesOf state w' families, FitsAt x srv args old w p) ↔
    ∀ p, validatePagePath p = true → familyOf p ∈ families → FitsAt x srv args old w p := by
  constructor
  · intro h p hvalid hfamily
    by_cases hp : p ∈ pagesOf old w families
    · rcases land.landed p hp with ⟨-, hfits⟩ | ⟨file, ⟨-, v, entry, hpage, -⟩, -⟩
      · exact hfits
      · refine h p ((mem_pagesOf land.unrefused_next).mpr (.inl (mem_serverPages.mpr ⟨?_, hfamily⟩)))
        rw [show w'.pages.latest.lookup p = some v from hpage]
        rfl
    · exact land.fits_outside hvalid hfamily hp
  · intro h p hp
    have hp' := land.pagesOf_subset hp
    exact h p (land.valid p hp') (family_of_mem_pagesOf land.unrefused hp')

lemma Landing.inSync_iff (hfamilies : validateAllowlist args.includes = .ok families)
    (mode : SyncMode) : InSync x srv args w' mode ↔
      ∀ p, validatePagePath p = true → familyOf p ∈ families → FitsAt x srv args old w p := by
  obtain ⟨next, hnext, hstatus⟩ := land.plan_next (mode == .check && w'.state.isNone)
  rw [Wikisync.inSync_iff, ← land.fits_iff, ← hstatus]
  constructor
  · rintro ⟨state', next', hrun', hsync⟩
    obtain ⟨families', hfamilies', hbaseline', hbuild⟩ := planRun_ok.mp hrun'
    obtain rfl := ok.inj (hfamilies.symm.trans hfamilies')
    obtain rfl := ok.inj (land.baseline_next.symm.trans hbaseline')
    obtain rfl := ok.inj (hnext.symm.trans hbuild)
    exact hsync
  · intro hsync
    exact ⟨state, next, planRun_ok.mpr ⟨families, hfamilies, land.baseline_next, hnext⟩, hsync⟩

end landing

lemma mem_of_validateAllowlist (h : validateAllowlist args.includes = .ok families) :
    p ∈ families ↔ p ∈ args.includes := by
  rw [validateAllowlist] at h
  split at h
  · cases h
  · split at h
    · cases h
    · rw [← ok.inj h]
      exact mem_eraseDups

/-- After a run that went through with no notices, the next one, in any mode, is
in sync exactly when every file the first one wrote is within the limit. -/
theorem sync_converges_iff (x : Externals) (srv : Server) (args : SyncArgs) (w w' : World)
    (o : Outcome) (old : SyncState) (plan : Plan) (mode : SyncMode)
    (hrun : alone (serve x srv) (run x args .apply w.state) w = (w', .ok o))
    (hplan : (alone (serve x srv) (planRun x args .apply w.state) w).2 = .ok (old, plan))
    (hnotices : plan.notices = []) :
    InSync x srv args w' mode ↔ SizeSafe x srv args w := by
  obtain ⟨families, state, hfamilies, hbaseline, land⟩ := run_landed hrun hplan hnotices
  have hold : args.baseline w.state = old := by
    rw [SyncArgs.baseline, hbaseline]
    rfl
  rw [land.inSync_iff hfamilies, SizeSafe, hold]
  simp only [mem_of_validateAllowlist hfamilies]

end

/-! ### One page on the server -/

def taggingServer : Server :=
  { plainServer with etag := fun _ id _ => some ("\"" ++ toString id ++ "\"") }

def titled (body : String) : Content :=
  ⟨"T", defaultTier, false, .object [("title", .string "T")], body⟩

def unexported (body : String) : World where
  repo := emptyRepo
  pages := emptyPages.put taggingServer "notes/a.md" (titled body)
  state := none

def exportHash : ByteArray → String :=
  hashWith [("---\ntitle: \"T\"\n---\n# T\n".toUTF8,
    "5ee73441b392a24a9a6bd43ebe28a29158226f804650d68c30bd7a85dacffd5d")]

def exportExternals : Externals := ⟨exportHash, fun _ => none⟩

/-- A small page is exported, and the next check finds nothing to do. -/
theorem sync_converges_exported :
    ∃ w' o old plan,
      alone (serve exportExternals taggingServer) (run exportExternals sampleArgs .apply none)
        (unexported "# T\n") = (w', .ok o) ∧
      (alone (serve exportExternals taggingServer) (planRun exportExternals sampleArgs .apply none)
        (unexported "# T\n")).2 = .ok (old, plan) ∧
      plan.notices = [] ∧ o.pending = 1 ∧
      InSync exportExternals taggingServer sampleArgs w' .check ∧
      SizeSafe exportExternals taggingServer sampleArgs (unexported "# T\n") := by
  have hsync : InSync exportExternals taggingServer sampleArgs
      (alone (serve exportExternals taggingServer) (run exportExternals sampleArgs .apply none)
        (unexported "# T\n")).1 .check := ⟨⟨0, false⟩, rfl, rfl⟩
  exact ⟨_, ⟨1, false⟩, _, _, Prod.ext rfl rfl, rfl, rfl, rfl, hsync,
    (sync_converges_iff _ _ _ _ _ _ _ _ _ (Prod.ext rfl rfl) rfl rfl).mp hsync⟩

section

variable {body : String}

lemma serverPages_unexported (body : String) :
    serverPages (unexported body) ["notes"] = ["notes/a.md"] := by
  have hkeys : (unexported body).pages.latest.keys = ["notes/a.md"] := rfl
  rw [serverPages, hkeys]
  decide

lemma pagesOf_unexported (body : String) :
    pagesOf { scope := some sampleArgs.scope } (unexported body) ["notes"] = ["notes/a.md"] := by
  have hrepo : repoPages (unexported body) ["notes"] = [] := rfl
  have hrefused : refusedPages (unexported body) ["notes"] = [] := rfl
  rw [pagesOf, serverPages_unexported, hrepo, hrefused]
  decide

def exportOf (body : String) : Export :=
  ⟨"notes/a.md", true, render { title := some "T" } body, some "\"0\"", some 0, none⟩

lemma planPage_unexported (x : Externals) (h : body.utf8ByteSize ≤ maxBodyBytes) :
    alone (serve x taggingServer) (planPage x sampleArgs { scope := some sampleArgs.scope } false
      ["notes/a.md"] "notes/a.md") (unexported body)
        = (unexported body, .ok (.exportPage (exportOf body))) := by
  refine quiet_planPage.alone_eq.mpr ⟨rfl, (planPage_ok rfl).mpr ⟨rfl, ?_⟩⟩
  have hdisk : diskAt (unexported body) "notes/a.md" = none := rfl
  rw [if_neg (by simp [hdisk, tooLarge])]
  refine ⟨?_, rfl⟩
  intro v hv _
  obtain rfl := some_inj.mp hv
  exact h

lemma planRun_unexported (x : Externals) (h : body.utf8ByteSize ≤ maxBodyBytes) :
    (alone (serve x taggingServer) (planRun x sampleArgs .apply none) (unexported body)).2 =
      .ok ({ scope := some sampleArgs.scope }, { exports := [exportOf body] }) := by
  refine planRun_ok.mpr ⟨["notes"], rfl, rfl, buildPlan_ok.mpr ⟨?_,
    { exports := [exportOf body] }, ?_, rfl⟩⟩
  · have hrepo : repoPages (unexported body) ["notes"] = [] := rfl
    constructor
    · rw [serverPages_unexported]
      decide
    · rw [serverPages_unexported]
      decide
    · rw [serverPages_unexported]
      decide
    · rw [hrepo]
      decide
    · rw [pagesOf_unexported]
      decide
    · rw [pagesOf_unexported]
      decide
  · rw [pagesOf_unexported, serverPages_unexported, planPages, foldlM_cons,
      alone_bind_of_ok (alone_bind_of_ok (planPage_unexported x h))]
    rfl

lemma applyExport_unexported (x : Externals) (body : String) (g : Progress) :
    ∃ w', alone (serve x taggingServer) (applyExport x g (exportOf body)) (unexported body) =
      (w', .ok { g.record "notes/a.md"
        ⟨x.sha256Hex (exportOf body).bytes.toUTF8, some "\"0\"", some 0⟩ with wroteFiles := true }) := by
  have hread : (unexported body).repo.readDisk "notes/a.md" = .ok none := rfl
  have hwrite : alone (serve x taggingServer)
      (writeIfUnchanged "notes/a.md" none (exportOf body).bytes) (unexported body)
        = ({ unexported body with repo :=
          (unexported body).repo.put "notes/a.md" (.file (exportOf body).bytes.toUTF8) }, .ok true) := by
    show alone _ (Prog.request _) _ = _
    rw [alone_request, serve, World.writeIfUnchanged, hread]
    exact if_pos rfl
  exact ⟨_, alone_attempt_bind.mpr ⟨_, _, hwrite, rfl⟩⟩

lemma performPlan_unexported (x : Externals) (body : String) (old : SyncState) :
    ∃ w', alone (serve x taggingServer) (performPlan x sampleArgs old { exports := [exportOf body] })
        (unexported body) = (w', .ok ⟨1, false⟩) := by
  obtain ⟨w₁, hexport⟩ := applyExport_unexported x body
    { state := startState sampleArgs old { exports := [exportOf body] } }
  have happly : alone (serve x taggingServer) (applyPlan x sampleArgs old
      { exports := [exportOf body] }) (unexported body) = _ :=
    alone_bind_ok.mpr ⟨_, _, rfl, alone_bind_ok.mpr ⟨w₁, _,
      alone_foldlM_cons_ok.mpr ⟨w₁, _, hexport, rfl⟩, alone_bind_ok.mpr ⟨w₁, _, rfl,
        alone_bind_ok.mpr ⟨w₁, _, rfl, alone_bind_ok.mpr ⟨_, _, rfl, rfl⟩⟩⟩⟩⟩
  exact ⟨_, alone_bind_ok.mpr ⟨_, _, rfl, alone_bind_ok.mpr ⟨_, _, happly, rfl⟩⟩⟩


lemma run_unexported (x : Externals) (h : body.utf8ByteSize ≤ maxBodyBytes) :
    ∃ w', alone (serve x taggingServer) (run x sampleArgs .apply none) (unexported body)
      = (w', .ok ⟨1, false⟩) := by
  obtain ⟨w', hperform⟩ := performPlan_unexported x body { scope := some sampleArgs.scope }
  refine ⟨w', run_ok.mpr ⟨_, _, planRun_unexported x h, ?_⟩⟩
  rw [if_pos rfl]
  exact hperform

lemma not_fits_unexported (x : Externals) (h : body.utf8ByteSize = maxBodyBytes) :
    ¬ FitsAt x taggingServer sampleArgs { scope := some sampleArgs.scope } (unexported body)
      "notes/a.md" := by
  have haction : actionAt x sampleArgs { scope := some sampleArgs.scope } (unexported body)
      "notes/a.md" = .exportPage true := rfl
  have hpage : (unexported body).pages.latest.lookup "notes/a.md"
      = some ⟨0, some "\"0\"", titled body⟩ := rfl
  have hfile : (titled body).file = render { title := some "T" } body := rfl
  rw [FitsAt, haction]
  intro hfits
  have hsize := hfits _ hpage
  rw [hfile] at hsize
  have hover := utf8ByteSize_render { title := some "T" } body
  rw [h] at hover
  exact absurd (hover.trans hsize) (Nat.not_le.mpr (Nat.lt_add_of_pos_right (by decide)))

lemma unexported_never_settles (x : Externals) (h : body.utf8ByteSize = maxBodyBytes) :
    ∃ w' o old plan, alone (serve x taggingServer) (run x sampleArgs .apply none) (unexported body)
        = (w', .ok o) ∧
      (alone (serve x taggingServer) (planRun x sampleArgs .apply none) (unexported body)).2
        = .ok (old, plan) ∧
      plan.notices = [] ∧ ∀ mode, ¬ InSync x taggingServer sampleArgs w' mode := by
  obtain ⟨w', hrun⟩ := run_unexported x h.le
  have hplan := planRun_unexported x h.le
  refine ⟨w', _, _, _, hrun, hplan, rfl, fun mode hsync => ?_⟩
  obtain ⟨families, state, hfamilies, -, land⟩ := run_landed (w := unexported body) hrun hplan rfl
  obtain rfl : ["notes"] = families := ok.inj hfamilies
  refine not_fits_unexported x h ?_
  exact (land.inSync_iff hfamilies mode).mp hsync "notes/a.md" (by decide) (by decide)

end

def letters : ℕ → String
  | 0 => ""
  | n + 1 => letters n ++ "a"

lemma utf8ByteSize_letters (n : ℕ) : (letters n).utf8ByteSize = n := by
  induction n with
  | zero => rfl
  | succ n ih =>
    have hletter : ("a" : String).utf8ByteSize = 1 := by decide
    rw [letters, String.utf8ByteSize_append, ih, hletter]

/-- The sync does not converge on a page with a body of the full size. -/
theorem full_page_never_settles :
    ∃ w' o old plan,
      alone (serve exportExternals taggingServer) (run exportExternals sampleArgs .apply none)
        (unexported (letters maxBodyBytes)) = (w', .ok o) ∧
      (alone (serve exportExternals taggingServer) (planRun exportExternals sampleArgs .apply none)
        (unexported (letters maxBodyBytes))).2 = .ok (old, plan) ∧
      plan.notices = [] ∧
      ∀ mode, ¬ InSync exportExternals taggingServer sampleArgs w' mode :=
  unexported_never_settles exportExternals (utf8ByteSize_letters maxBodyBytes)

end Wikisync
