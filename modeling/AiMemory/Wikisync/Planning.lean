/-
What a plan is, when nobody else moves.

Planning only reads (`quiet_planRun`), so alone it is a function of the world:
each page is classified from its file, its server version and its recorded
entry as they stand.

* `allPages` of a world — the pages of the server, the repository and the state,
  and the conditions under which planning gets to them (`buildPlan_ok`).
-/
import AiMemory.Wikisync.NoLostUpdate

open Programs List

namespace Wikisync

open Except (ok.inj ok.injEq)

/-! ### A page as it stands -/

def diskAt (w : World) (p : String) : Option ByteArray :=
  match w.repo.entries.lookup p with
  | some (.file c) => some c
  | _ => none

def Version.Matches (v : Version) (hint : Option String) : Prop :=
  v.etag.isSome = true ∧ v.etag = hint

instance (v : Version) (hint : Option String) : Decidable (v.Matches hint) :=
  inferInstanceAs (Decidable (_ ∧ _))

def sideAt (w : World) (p : String) (hint : Option String) : ServerSide :=
  match w.pages.latest.lookup p with
  | none => .absent
  | some v => if v.Matches hint then .notModified else .rendered v.content.file

def seenAt (srv : Server) (w : World) (p : String) (hint : Option String) : Seen :=
  match w.pages.latest.lookup p with
  | none => {}
  | some v =>
    if v.Matches hint then { etag := v.etag }
    else
      { etag := v.etag.or hint
        current := some (Pages.toApi srv v)
        rendered := some v.content.file }

/-- The page, unless it is known by its tag, is small enough to be read. -/
def Readable (w : World) (p : String) (hint : Option String) : Prop :=
  ∀ v, w.pages.latest.lookup p = some v → ¬ v.Matches hint →
    v.content.bodyMarkdown.utf8ByteSize ≤ maxBodyBytes

instance (w : World) (p : String) (hint : Option String) : Decidable (Readable w p hint) :=
  match h : w.pages.latest.lookup p with
  | none => isTrue fun v hv => by rw [h] at hv; cases hv
  | some v => decidable_of_iff
      (¬ v.Matches hint → v.content.bodyMarkdown.utf8ByteSize ≤ maxBodyBytes)
      ⟨fun hv v' hv' => Option.some_inj.mp (h.symm.trans hv') ▸ hv, fun hall => hall v h⟩

section

variable (x : Externals) (srv : Server) (args : SyncArgs) (old : SyncState)

def hintAt (w : World) (p : String) : Option String :=
  hintFor x (diskAt w p) (old.pages.lookup p)

def actionAt (w : World) (p : String) : Action :=
  args.policy.decide x (diskAt w p) (old.pages.lookup p) (sideAt w p (hintAt x old w p))

variable {x srv args old} {w w' : World} {p : String} (hint : Option String)

lemma serverSide_seenAt :
    (seenAt srv w p hint).serverSide (w.pages.latest.lookup p).isSome = sideAt w p hint := by
  rw [seenAt, sideAt]
  cases w.pages.latest.lookup p with
  | none => rfl
  | some v =>
    show Seen.serverSide (if _ then _ else _) _ = if _ then _ else _
    split <;> rfl

/-- The requests that change anything. -/
def Call.writes : Call → ℕ
  | .writePage .. | .deletePage .. | .writeIfUnchanged .. | .removeFile _ | .saveState _ => 1
  | _ => 0

lemma serve_of_writes_eq_zero (e : Call) (w : World) (h : e.writes = 0) :
    (serve x srv e w).1 = w := by
  cases e <;> first | rfl | cases h

lemma free_readDisk : Free Call.writes (readDisk p) := spends_request le_rfl

lemma free_readPage : Free Call.writes (readPage p hint) :=
  spends_request le_rfl

lemma free_seePage (listed : Bool) (hint : Option String) :
    Free Call.writes (seePage p listed hint) := by
  rw [seePage]
  split
  · refine (free_readPage hint).next fun read _ => ?_
    cases read.page with
    | none => trivial
    | some page => exact (free_ofExcept _).next fun file _ => trivial
  · trivial

lemma free_fullPage : Free Call.writes (fullPage p) := by
  refine (free_readPage none).next fun read _ => ?_
  cases read.page <;> trivial

variable {statelessCheck : Bool} {disk : Option ByteArray} {onServer : List String} {plan : Plan}
  {loaded : Option SyncState}

lemma free_planAction {base : Option PageState} {seen : Seen} (action : Action) :
    Free Call.writes (planAction x args statelessCheck p disk base seen action) := by
  cases action with
  | unchanged | deletedOnServer | deletedInRepo | goneOnBothSides => trivial
  | conflict =>
    rw [planAction]
    split <;> trivial
  | exportPage create =>
    rw [planAction]
    cases seen.rendered <;> trivial
  | importPage create =>
    refine Spends.next (Q := fun _ => True) ?_ fun current _ => trivial
    rw [importTarget]
    split
    · exact free_fullPage.next fun page _ => trivial
    · trivial
  | deleteOnServer =>
    refine Spends.next (Q := fun _ => True) ?_ fun page _ => ?_
    · rw [deleteTarget]
      cases seen.current with
      | none => exact free_fullPage
      | some page => trivial
    · show Free _ (if _ then _ else _)
      split <;> trivial
  | deleteInRepo => cases disk <;> trivial

lemma free_planPage :
    Free Call.writes (planPage x args old statelessCheck onServer p) := by
  refine free_readDisk.next fun disk _ => ?_
  show Free _ (if _ then _ else _)
  split
  · trivial
  · exact (free_seePage _ _).next fun seen _ => free_planAction _

lemma quiet_planPage :
    Quiet (serve x srv) (planPage x args old statelessCheck onServer p) :=
  free_planPage.quiet serve_of_writes_eq_zero

lemma alone_seePage (x : Externals) (srv : Server) (w : World) (p : String) (hint : Option String) :
    alone (serve x srv) (seePage p (w.pages.latest.lookup p).isSome hint) w =
      (w, if Readable w p hint then .ok (seenAt srv w p hint) else .error .bodyTooLarge) := by
  rw [seePage, seenAt]
  cases hv : w.pages.latest.lookup p with
  | none =>
    have hreadable : Readable w p hint := fun v hv' => by rw [hv] at hv'; cases hv'
    rw [if_pos hreadable]
    rfl
  | some v =>
    have hread : alone (serve x srv) (readPage p hint) w = (w, .ok
        (if v.Matches hint then ⟨none, v.etag⟩
          else ⟨some (Pages.toApi srv v), v.etag.or hint⟩)) := by
      show alone _ (Prog.request _) w = _
      rw [alone_request, serve, Pages.read, hv]
      rfl
    have hreadable : Readable w p hint ↔
        (¬ v.Matches hint → v.content.bodyMarkdown.utf8ByteSize ≤ maxBodyBytes) := by
      rw [Readable, hv]
      simp
    simp only [Option.isSome_some, if_true, alone_bind_of_ok hread, hreadable]
    by_cases hmatch : v.Matches hint
    · simp [hmatch]
    · by_cases hsize : v.content.bodyMarkdown.utf8ByteSize > maxBodyBytes
      · have hrender : renderPage (Pages.toApi srv v) = .error .bodyTooLarge := if_pos hsize
        simp only [hmatch, if_false, hrender, not_false_eq_true, true_imp_iff, not_le.mpr hsize]
        exact alone_bind_of_error (alone_ofExcept _)
      · have hrender : renderPage (Pages.toApi srv v) = .ok v.content.file := if_neg hsize
        simp only [hmatch, if_false, hrender, not_false_eq_true, true_imp_iff, not_lt.mp hsize,
          if_true]
        exact alone_bind_of_ok (alone_ofExcept _)

lemma readDisk_ok (h : w.repo.readDisk p = .ok disk) :
    disk = diskAt w p ∧ validatePagePath p := by
  rw [Repo.readDisk] at h
  by_cases hjoin : w.repo.secureJoin p = false
  · rw [if_pos hjoin] at h
    cases h
  · rw [if_neg hjoin] at h
    have hvalid : validatePagePath p := by
      rw [Bool.not_eq_false, Repo.secureJoin, Bool.and_eq_true, Bool.and_eq_true] at hjoin
      exact hjoin.1.1
    refine ⟨?_, hvalid⟩
    rw [diskAt]
    cases hentry : w.repo.entries.lookup p with
    | none =>
      simp only [hentry] at h
      split at h
      · cases h
      · exact (ok.inj h).symm
    | some entry =>
      cases entry with
      | file c =>
        simp only [hentry] at h
        exact (ok.inj h).symm
      | link target =>
        simp only [hentry] at h
        cases h

lemma planPage_ok {item : Item} (hlisted : onServer.contains p = (w.pages.latest.lookup p).isSome) :
    (alone (serve x srv) (planPage x args old statelessCheck onServer p) w).2 = .ok item ↔
      w.repo.readDisk p = .ok (diskAt w p) ∧ if tooLarge (diskAt w p) then item = .refuse .tooLarge
        else Readable w p (hintAt x old w p) ∧
          (alone (serve x srv) (planAction x args statelessCheck p (diskAt w p)
            (old.pages.lookup p) (seenAt srv w p (hintAt x old w p)) (actionAt x args old w p)) w).2
            = .ok item := by
  have hread : alone (serve x srv) (readDisk p) w = (w, w.repo.readDisk p) := alone_request _
  cases hdisk : w.repo.readDisk p with
  | error f =>
    rw [hdisk] at hread
    rw [planPage, alone_bind_of_error hread]
    simp
  | ok disk =>
    rw [hdisk] at hread
    obtain ⟨rfl, -⟩ := readDisk_ok hdisk
    rw [planPage, alone_bind_of_ok hread]
    by_cases hlarge : tooLarge (diskAt w p)
    · simp only [hlarge, if_true, Prog.pure_eq, alone_done, true_and, ok.injEq]
      exact eq_comm
    · simp only [hlarge, true_and, hlisted]
      have hseen := alone_seePage x srv w p (hintAt x old w p)
      rw [hintAt] at hseen ⊢
      -- the read decides whether the action is reached
      by_cases hreadable : Readable w p (hintFor x (diskAt w p) (old.pages.lookup p))
      · rw [if_pos hreadable] at hseen
        simp only [hreadable, true_and, Bool.false_eq_true, if_false, alone_bind_of_ok hseen,
          serverSide_seenAt]
        rfl
      · rw [if_neg hreadable] at hseen
        simp only [hreadable, false_and, Bool.false_eq_true, if_false, alone_bind_of_error hseen,
          reduceCtorEq]

def Action.Presupposes (x : Externals) (disk : Option ByteArray) (base : Option PageState)
    (server : ServerSide) : Action → Prop
  | .unchanged =>
    match server with
    | .absent => disk = none ∧ base = none
    | .notModified => True
    | .rendered file => ∃ c, disk = some c ∧ x.sha256Hex c = x.sha256Hex file.toUTF8
  | .exportPage _ => ∃ file, server = .rendered file
  | .importPage _ => ∃ c, disk = some c
  | .deleteInRepo => server = .absent
  | .goneOnBothSides => server = .absent ∧ disk = none
  | _ => True

lemma decide_presupposes (policy : Policy) (disk : Option ByteArray) (base : Option PageState)
    (server : ServerSide) :
    (policy.decide x disk base server).Presupposes x disk base server := by
  cases server with
  | absent | notModified =>
    cases disk <;> cases base <;> simp only [Policy.decide, Option.isSome]
    all_goals repeat' split
    all_goals simp_all [Action.Presupposes]
  | rendered file =>
    cases disk <;> simp only [Policy.decide]
    all_goals repeat' split
    all_goals simp_all [Action.Presupposes]

inductive Planned (x : Externals) (old : SyncState) (statelessCheck : Bool) (w : World)
    (p : String) : Item → Action → Prop
  | absent (hdisk : diskAt w p = none) (hpage : w.pages.latest.lookup p = none)
      (hbase : old.pages.lookup p = none) :
      Planned x old statelessCheck w p (.unchanged none) .unchanged
  | revalidated {c : ByteArray} {v : Version} {entry : PageState} (hdisk : diskAt w p = some c)
      (hpage : w.pages.latest.lookup p = some v) (hbase : old.pages.lookup p = some entry)
      (hhash : entry.hash = x.sha256Hex c) (hmatch : v.Matches entry.etag) :
      Planned x old statelessCheck w p (.unchanged none) .unchanged
  | adopted {c : ByteArray} {v : Version} {entry : PageState} (hdisk : diskAt w p = some c)
      (hpage : w.pages.latest.lookup p = some v)
      (hbody : v.content.bodyMarkdown.utf8ByteSize ≤ maxBodyBytes)
      (hsame : x.sha256Hex c = x.sha256Hex v.content.file.toUTF8)
      (hhash : entry.hash = x.sha256Hex v.content.file.toUTF8) :
      Planned x old statelessCheck w p (.unchanged (some entry)) .unchanged
  | exported {v : Version} {e : Export} (hpage : w.pages.latest.lookup p = some v)
      (hbody : v.content.bodyMarkdown.utf8ByteSize ≤ maxBodyBytes) (hpath : e.path = p)
      (hbytes : e.bytes = v.content.file) :
      Planned x old statelessCheck w p (.exportPage e) (.exportPage e.create)
  | imported {i : Import} (hdisk : diskAt w p = some i.disk) (hpath : i.path = p)
      (hparse : parse x.fromStr i.disk = .ok (i.m, i.body)) :
      Planned x old statelessCheck w p (.importPage i) (.importPage i.create)
  | serverDelete {d : ServerDelete} (hpath : d.path = p) :
      Planned x old statelessCheck w p (.deleteOnServer d) .deleteOnServer
  | fileDelete {d : FileDelete} (hpath : d.path = p) (hpage : w.pages.latest.lookup p = none) :
      Planned x old statelessCheck w p (.deleteInRepo d) .deleteInRepo
  | forgotten (hdisk : diskAt w p = none) (hpage : w.pages.latest.lookup p = none) :
      Planned x old statelessCheck w p .forget .goneOnBothSides
  | refused {action : Action} (reason : Reason) :
      Planned x old statelessCheck w p (.refuse reason) action
  | noticed {action : Action} (n : Notice) : Planned x old statelessCheck w p (.notice n) action
  | differs {action : Action} (hstateless : statelessCheck = true) :
      Planned x old statelessCheck w p .differs action

lemma hintAt_some {tag : String} (h : hintAt x old w p = some tag) :
    ∃ c entry, diskAt w p = some c ∧ old.pages.lookup p = some entry ∧
      entry.hash = x.sha256Hex c ∧ entry.etag = some tag := by
  rw [hintAt, hintFor] at h
  split at h
  · rename_i hbase
    cases hdisk : diskAt w p with
    | none =>
      rw [hdisk] at hbase
      cases hbase
    | some c =>
      rw [hdisk] at hbase
      cases hentry : old.pages.lookup p with
      | none =>
        rw [hentry] at hbase
        cases hbase
      | some entry =>
        rw [hentry] at hbase h
        exact ⟨c, entry, rfl, rfl, (beq_iff_eq.mp hbase).symm, h⟩
  · cases h

lemma sideAt_absent {hint : Option String} (h : sideAt w p hint = .absent) :
    w.pages.latest.lookup p = none := by
  rw [sideAt] at h
  cases hv : w.pages.latest.lookup p with
  | none => rfl
  | some v =>
    simp only [hv] at h
    split at h <;> cases h

lemma sideAt_rendered {hint : Option String} {file : String}
    (h : sideAt w p hint = .rendered file) :
    ∃ v, w.pages.latest.lookup p = some v ∧ ¬ v.Matches hint ∧ file = v.content.file := by
  rw [sideAt] at h
  cases hv : w.pages.latest.lookup p with
  | none => simp only [hv] at h; cases h
  | some v =>
    simp only [hv] at h
    split at h
    · cases h
    · rename_i hmatch
      exact ⟨v, rfl, hmatch, (ServerSide.rendered.inj h).symm⟩

lemma planned_unchanged (hreadable : Readable w p (hintAt x old w p))
    (haction : actionAt x args old w p = .unchanged) :
    Planned x old statelessCheck w p
      (.unchanged ((seenAt srv w p (hintAt x old w p)).rendered.map fun file =>
        ⟨x.sha256Hex file.toUTF8, (seenAt srv w p (hintAt x old w p)).etag,
          (seenAt srv w p (hintAt x old w p)).current.bind ApiPage.id⟩)) .unchanged := by
  have hpre := decide_presupposes (x := x) args.policy (diskAt w p) (old.pages.lookup p)
    (sideAt w p (hintAt x old w p))
  rw [← actionAt, haction] at hpre
  cases hv : w.pages.latest.lookup p with
  | none =>
    rw [sideAt, hv] at hpre
    rw [seenAt, hv]
    exact .absent hpre.1 hv hpre.2
  | some v =>
    by_cases hmatch : v.Matches (hintAt x old w p)
    · obtain ⟨tag, htag⟩ := Option.isSome_iff_exists.mp hmatch.1
      obtain ⟨c, entry, hdisk, hentry, hhash, hetag⟩ := hintAt_some (hmatch.2.symm.trans htag)
      have hseen : (seenAt srv w p (hintAt x old w p)).rendered = none := by
        rw [seenAt, hv]
        simp only [hmatch, if_true]
      rw [hseen]
      refine .revalidated hdisk hv hentry hhash ⟨hmatch.1, ?_⟩
      rw [htag, hetag]
    · rw [sideAt, hv] at hpre
      simp only [hmatch, if_false] at hpre
      obtain ⟨c, hdisk, hsame⟩ := hpre
      have hseen : (seenAt srv w p (hintAt x old w p)).rendered = some v.content.file := by
        rw [seenAt, hv]
        simp only [hmatch, if_false]
      rw [hseen]
      exact .adopted hdisk hv (hreadable v hv hmatch) hsame rfl

lemma planPage_planned {item : Item}
    (hlisted : onServer.contains p = (w.pages.latest.lookup p).isSome)
    (h : (alone (serve x srv) (planPage x args old statelessCheck onServer p) w).2 = .ok item) :
    Planned x old statelessCheck w p item (actionAt x args old w p) := by
  obtain ⟨-, h⟩ := (planPage_ok hlisted).mp h
  split at h
  · rw [h]
    exact .refused _
  obtain ⟨hreadable, h⟩ := h
  have hpre := decide_presupposes (x := x) args.policy (diskAt w p) (old.pages.lookup p)
    (sideAt w p (hintAt x old w p))
  rw [← actionAt] at hpre
  cases haction : actionAt x args old w p with
  | unchanged =>
    rw [haction] at h
    rw [← ok.inj h]
    exact planned_unchanged hreadable haction
  | exportPage create =>
    rw [haction] at h hpre
    obtain ⟨file, hside⟩ := hpre
    obtain ⟨v, hv, hmatch, rfl⟩ := sideAt_rendered hside
    have hseen : (seenAt srv w p (hintAt x old w p)).rendered = some v.content.file := by
      rw [seenAt, hv]
      simp only [hmatch, if_false]
    simp only [planAction, hseen] at h
    rw [← ok.inj h]
    exact .exported hv (hreadable v hv hmatch) rfl rfl
  | importPage create =>
    rw [haction] at h hpre
    obtain ⟨c, hdisk⟩ := hpre
    rw [planAction, alone_bind] at h
    split at h
    · rename_i t current _
      rw [← ok.inj h, hdisk, Option.getD_some, planImport]
      cases hparse : parse x.fromStr c with
      | error e => exact .refused _
      | ok parsed =>
        cases current with
        | none => exact .imported hdisk rfl hparse
        | some page =>
          show Planned x old statelessCheck w p (if _ then _ else _) _
          split
          · exact .imported hdisk rfl hparse
          · exact .refused _
    · cases h
  | conflict =>
    rw [haction, planAction] at h
    split at h
    · rename_i hstateless
      rw [← ok.inj h]
      exact .differs (Bool.and_eq_true _ _ ▸ hstateless).1
    · rw [← ok.inj h]
      exact .refused _
  | deleteOnServer =>
    rw [haction, planAction, alone_bind] at h
    split at h
    · split at h
      · rw [← ok.inj h]
        exact .refused _
      · rw [← ok.inj h]
        exact .serverDelete rfl
    · cases h
  | deleteInRepo =>
    rw [haction] at h hpre
    cases hdisk : diskAt w p with
    | none =>
      rw [hdisk] at h
      cases h
    | some c =>
      rw [hdisk] at h
      rw [← ok.inj h]
      exact .fileDelete rfl (sideAt_absent hpre)
  | deletedOnServer | deletedInRepo =>
    rw [haction] at h
    rw [← ok.inj h]
    exact .noticed _
  | goneOnBothSides =>
    rw [haction] at h hpre
    rw [← ok.inj h]
    exact .forgotten hpre.2 (sideAt_absent hpre.1)

/-! ### A plan, item by item -/

def Item.import? : Item → Option Import
  | .importPage i => some i
  | _ => none

def Item.export? : Item → Option Export
  | .exportPage e => some e
  | _ => none

def Item.serverDelete? : Item → Option ServerDelete
  | .deleteOnServer d => some d
  | _ => none

def Item.fileDelete? : Item → Option FileDelete
  | .deleteInRepo d => some d
  | _ => none

def Item.reason? : Item → Option Reason
  | .refuse reason => some reason
  | _ => none

def Item.notice? : Item → Option Notice
  | .notice n => some n
  | _ => none

def Item.adopted? : Item → Option PageState
  | .unchanged adopted => adopted
  | _ => none

def Item.isUnchanged : Item → Bool
  | .unchanged _ => true
  | _ => false

def Item.isDiffers : Item → Bool
  | .differs => true
  | _ => false

def Item.isForget : Item → Bool
  | .forget => true
  | _ => false

lemma foldl_push (item : String → Item) (all : List String) (plan : Plan) :
    all.foldl (fun plan p => plan.push p (item p)) plan =
      { imports := plan.imports ++ all.filterMap fun p => (item p).import?
        exports := plan.exports ++ all.filterMap fun p => (item p).export?
        serverDeletes := plan.serverDeletes ++ all.filterMap fun p => (item p).serverDelete?
        fileDeletes := plan.fileDeletes ++ all.filterMap fun p => (item p).fileDelete?
        unchanged := plan.unchanged ++ all.filter fun p => (item p).isUnchanged
        refused := plan.refused ++ all.filterMap fun p => (item p).reason?.map (Refusal.mk p)
        batchRefusal := plan.batchRefusal
        notices := plan.notices ++ all.filterMap fun p => (item p).notice?.map (Prod.mk p)
        differs := plan.differs ++ all.filter fun p => (item p).isDiffers
        adopted := plan.adopted ++ all.filterMap fun p => (item p).adopted?.map (Prod.mk p)
        forget := plan.forget ++ all.filter fun p => (item p).isForget } := by
  induction all generalizing plan with
  | nil => simp
  | cons p all ih =>
    rw [foldl_cons, ih]
    cases hitem : item p with
    | unchanged adopted =>
      cases adopted <;>
        simp [Plan.push, hitem, Item.import?, Item.export?, Item.serverDelete?, Item.fileDelete?,
          Item.reason?, Item.notice?, Item.adopted?, Item.isUnchanged, Item.isDiffers, Item.isForget]
    | _ =>
      simp [Plan.push, hitem, Item.import?, Item.export?, Item.serverDelete?, Item.fileDelete?,
        Item.reason?, Item.notice?, Item.adopted?, Item.isUnchanged, Item.isDiffers, Item.isForget]

structure Plan.Holds (plan : Plan) (found : List Refusal) (all : List String)
    (item : String → Item) : Prop where
  imports : plan.imports = all.filterMap fun p => (item p).import?
  exports : plan.exports = all.filterMap fun p => (item p).export?
  serverDeletes : plan.serverDeletes = all.filterMap fun p => (item p).serverDelete?
  fileDeletes : plan.fileDeletes = all.filterMap fun p => (item p).fileDelete?
  refused : plan.refused = found ++ all.filterMap fun p => (item p).reason?.map (Refusal.mk p)
  notices : plan.notices = all.filterMap fun p => (item p).notice?.map (Prod.mk p)
  differs : plan.differs = all.filter fun p => (item p).isDiffers
  adopted : plan.adopted = all.filterMap fun p => (item p).adopted?.map (Prod.mk p)
  forget : plan.forget = all.filter fun p => (item p).isForget

lemma holds_foldl_push (found : List Refusal) (all : List String) (item : String → Item) :
    Plan.Holds (all.foldl (fun plan p => Plan.push plan p (item p)) { refused := found })
      found all item := by
  rw [foldl_push]
  constructor <;> simp

lemma Plan.Holds.withCeiling {found : List Refusal} {all : List String}
    {item : String → Item} (h : plan.Holds found all item) (maxDeletes : ℕ) :
    (plan.withCeiling maxDeletes).Holds found all item := by
  rw [Plan.withCeiling]
  split
  · exact { h with }
  · exact h

def itemAt (x : Externals) (srv : Server) (args : SyncArgs) (old : SyncState)
    (statelessCheck : Bool) (onServer : List String) (w : World) (p : String) : Item :=
  ((alone (serve x srv) (planPage x args old statelessCheck onServer p) w).2).toOption.getD .forget

lemma alone_planPages {onServer all : List String}
    (h : ∀ p ∈ all, (alone (serve x srv) (planPage x args old statelessCheck onServer p) w).2
      = .ok (itemAt x srv args old statelessCheck onServer w p)) :
    alone (serve x srv) (planPages x args old statelessCheck onServer all plan) w = (w, .ok
      (all.foldl (fun plan p =>
        plan.push p (itemAt x srv args old statelessCheck onServer w p)) plan)) := by
  induction all generalizing plan with
  | nil => rfl
  | cons p all ih =>
    have hp : alone (serve x srv) (planPage x args old statelessCheck onServer p) w
        = (w, .ok (itemAt x srv args old statelessCheck onServer w p)) :=
      quiet_planPage.alone_eq.mpr ⟨rfl, h p mem_cons_self⟩
    rw [planPages, foldlM_cons, foldl_cons]
    rw [alone_bind_of_ok (alone_bind_of_ok hp)]
    exact ih fun q hq => h q (mem_cons_of_mem p hq)

lemma planPages_ok {onServer all : List String} {plan plan' : Plan}
    (h : (alone (serve x srv) (planPages x args old statelessCheck onServer all plan) w).2
      = .ok plan') :
    (∀ p ∈ all, (alone (serve x srv) (planPage x args old statelessCheck onServer p) w).2
      = .ok (itemAt x srv args old statelessCheck onServer w p)) ∧
      plan' = all.foldl (fun plan p =>
        plan.push p (itemAt x srv args old statelessCheck onServer w p)) plan := by
  have hall : ∀ p ∈ all, (alone (serve x srv) (planPage x args old statelessCheck onServer p) w).2
        = .ok (itemAt x srv args old statelessCheck onServer w p) := by
    induction all generalizing plan with
    | nil => simp
    | cons p all ih =>
      rw [planPages, foldlM_cons] at h
      cases hr : (alone (serve x srv) (planPage x args old statelessCheck onServer p) w).2 with
      | error f =>
        have hp := quiet_planPage.alone_eq.mpr ⟨rfl, hr⟩
        rw [alone_bind_of_error (alone_bind_of_error hp)] at h
        cases h
      | ok item =>
        have hp := quiet_planPage.alone_eq.mpr ⟨rfl, hr⟩
        rw [alone_bind_of_ok (alone_bind_of_ok hp)] at h
        intro q hq
        rcases mem_cons.mp hq with rfl | hq
        · rw [itemAt, hr]
          rfl
        · exact ih h q hq
  refine ⟨hall, ?_⟩
  rw [alone_planPages hall] at h
  exact (ok.inj h).symm

/-! ### The pages of a plan -/

@[simp] theorem mem_sortedSet {l : List String} {p : String} : p ∈ sortedSet l ↔ p ∈ l := by
  rw [sortedSet, mem_insertionSort, mem_dedup]

lemma nodup_sortedSet (l : List String) : (sortedSet l).Nodup :=
  (perm_insertionSort _ _).nodup_iff.mpr (nodup_dedup l)

def serverPages (w : World) (families : List String) : List String :=
  sortedSet (w.pages.latest.keys.filter fun p => families.contains (familyOf p))

def repoPages (w : World) (families : List String) : List String :=
  foundPages (w.repo.walk families)

def refusedPages (w : World) (families : List String) : List Refusal :=
  refusedEntries (w.repo.walk families)

def pagesOf (old : SyncState) (w : World) (families : List String) : List String :=
  allPages families (serverPages w families) (repoPages w families) (refusedPages w families) old

/-- Planning gets to the pages: they have portable paths, are not too many and
do not collide. -/
structure Plannable (old : SyncState) (w : World) (families : List String) : Prop where
  valid : ∀ p ∈ serverPages w families, validatePagePath p = true
  serverBound : (serverPages w families).length ≤ maxPages
  serverNames : noCaseFoldCollisions [] (serverPages w families) = true
  repoBound : (repoPages w families).length ≤ maxPages
  bound : (pagesOf old w families).length ≤ maxPages
  names : noCaseFoldCollisions [] (pagesOf old w families) = true

lemma selectPages_ok {families onServer : List String} :
    selectPages w.pages.latest.keys families = .ok onServer ↔
      (∀ p ∈ serverPages w families, validatePagePath p = true) ∧
        (serverPages w families).length ≤ maxPages ∧
        noCaseFoldCollisions [] (serverPages w families) ∧
        serverPages w families = onServer := by
  have hvalid : (w.pages.latest.keys.filter fun p => families.contains (familyOf p)).find?
      (fun p => !validatePagePath p) = none ↔
        ∀ p ∈ serverPages w families, validatePagePath p = true := by
    rw [find?_eq_none]
    simp only [serverPages, mem_sortedSet, Bool.not_eq_true', Bool.not_eq_false]
  rw [selectPages, ← serverPages]
  cases hfind : (w.pages.latest.keys.filter fun p => families.contains (familyOf p)).find?
      fun p => !validatePagePath p with
  | some p =>
    have hno : ¬ ∀ p ∈ serverPages w families, validatePagePath p = true := by
      rw [← hvalid, hfind]
      simp
    simp only [hno, false_and, reduceCtorEq]
  | none =>
    rw [and_iff_right (hvalid.mp hfind)]
    by_cases hbound : (serverPages w families).length > maxPages
    · simp [hbound, not_le.mpr hbound]
    · by_cases hnames : noCaseFoldCollisions [] (serverPages w families)
      · simp [hbound, hnames, not_lt.mp hbound]
      · simp [hbound, hnames]

/-- A plan that is not refused keeps the ceiling. -/
def Plan.Ceiled (maxDeletes : ℕ) (plan : Plan) : Prop :=
  plan.batchRefusal = none → plan.deletes ≤ maxDeletes

lemma ceiled_withCeiling (maxDeletes : ℕ) : (plan.withCeiling maxDeletes).Ceiled maxDeletes := by
  intro h
  rw [Plan.withCeiling] at h ⊢
  split at h
  · cases h
  · rename_i hle
    rw [if_neg hle]
    exact not_lt.mp hle

lemma spends_buildPlan {families : List String} :
    Spends Call.writes (buildPlan x args families old statelessCheck) 0
      (Plan.Ceiled args.maxDeletes) := by
  refine (spends_request (e := Call.listPages) le_rfl).next fun listed _ => ?_
  refine (free_ofExcept _).next fun onServer _ => ?_
  have hlocal : Free Call.writes (localPages families) := by
    refine (spends_request (e := Call.walk families) le_rfl).next fun entries _ => ?_
    show Free _ (if _ then _ else _)
    split <;> trivial
  refine hlocal.next fun found _ => (free_ofExcept _).next fun _ _ => ?_
  have hpages (all : List String) (plan : Plan) :
      Free Call.writes (planPages x args old statelessCheck onServer all plan) := by
    refine spends_foldlM (n := 0) (fun plan p => ?_) all plan
    exact free_planPage.next fun item _ => trivial
  exact (hpages _ _).next fun plan _ => ceiled_withCeiling _

lemma alone_localPages (x : Externals) (srv : Server) (w : World) (families : List String) :
    alone (serve x srv) (localPages families) w =
      (w, if (repoPages w families).length > maxPages then .error .tooManyPages
        else .ok (repoPages w families, refusedPages w families)) := by
  have hwalk : alone (serve x srv) (walk families) w = (w, .ok (w.repo.walk families)) :=
    alone_request _
  rw [localPages, alone_bind_of_ok hwalk, ← repoPages, ← refusedPages]
  split <;> rfl

lemma buildPlan_ok {families : List String} :
    (alone (serve x srv) (buildPlan x args families old statelessCheck) w).2 = .ok plan ↔
      Plannable old w families ∧ ∃ made,
        (alone (serve x srv) (planPages x args old statelessCheck (serverPages w families)
          (pagesOf old w families) { refused := refusedPages w families }) w).2 = .ok made ∧
        made.withCeiling args.maxDeletes = plan := by
  have hlist : alone (serve x srv) listPages w = (w, .ok w.pages.latest.keys) := alone_request _
  have hlocal := alone_localPages x srv w families
  rw [buildPlan, alone_bind_of_ok hlist]
  cases hselect : selectPages w.pages.latest.keys families with
  | error f =>
    rw [alone_bind_of_error (alone_ofExcept _)]
    constructor
    · rintro ⟨⟩
    · rintro ⟨hplannable, -⟩
      rw [selectPages_ok.mpr ⟨hplannable.valid, hplannable.serverBound, hplannable.serverNames,
        rfl⟩] at hselect
      cases hselect
  | ok onServer =>
    obtain ⟨hvalid, hserverBound, hserverNames, rfl⟩ := selectPages_ok.mp hselect
    rw [alone_bind_of_ok (alone_ofExcept _)]
    by_cases hrepo : (repoPages w families).length > maxPages
    · rw [if_pos hrepo] at hlocal
      rw [alone_bind_of_error hlocal]
      constructor
      · rintro ⟨⟩
      · rintro ⟨hplannable, -⟩
        exact absurd hplannable.repoBound (not_le.mpr hrepo)
    rw [if_neg hrepo] at hlocal
    rw [alone_bind_of_ok hlocal]
    show (alone _ (Prog.ofExcept (checkAll (pagesOf old w families)) >>= _) w).2 = _ ↔ _
    have hcheck : checkAll (pagesOf old w families) = .ok () ↔
        (pagesOf old w families).length ≤ maxPages ∧
          noCaseFoldCollisions [] (pagesOf old w families) := by
      rw [checkAll]
      by_cases hbound : (pagesOf old w families).length > maxPages
      · simp [hbound, not_le.mpr hbound]
      · by_cases hnames : noCaseFoldCollisions [] (pagesOf old w families)
        · simp [hbound, hnames, not_lt.mp hbound]
        · simp [hbound, hnames]
    cases hresult : checkAll (pagesOf old w families) with
    | error f =>
      rw [alone_bind_of_error (alone_ofExcept _)]
      constructor
      · rintro ⟨⟩
      · rintro ⟨hplannable, -⟩
        rw [hcheck.mpr ⟨hplannable.bound, hplannable.names⟩] at hresult
        cases hresult
    | ok u =>
      obtain ⟨hbound, hnames⟩ := hcheck.mp hresult
      rw [alone_bind_of_ok (alone_ofExcept _), alone_bind]
      have hplannable : Plannable old w families :=
        ⟨hvalid, hserverBound, hserverNames, not_lt.mp hrepo, hbound, hnames⟩
      rw [and_iff_right hplannable]
      cases hmade : alone (serve x srv) (planPages x args old statelessCheck
          (serverPages w families) (pagesOf old w families)
          { refused := refusedPages w families }) w with
      | mk t r =>
        rw [pagesOf] at hmade
        cases r with
        | error f | ok made => simp [hmade]

variable {families : List String}

lemma mem_serverPages : p ∈ serverPages w families ↔
    (w.pages.latest.lookup p).isSome ∧ familyOf p ∈ families := by
  rw [serverPages, mem_sortedSet, mem_filter, contains_iff_mem, AList.lookup_isSome, AList.mem_keys]

lemma contains_serverPages (hfamily : familyOf p ∈ families) :
    (serverPages w families).contains p = (w.pages.latest.lookup p).isSome := by
  rw [Bool.eq_iff_iff, contains_iff_mem, mem_serverPages, and_iff_left hfamily]

lemma mem_walk {link : Bool} : (p, link) ∈ w.repo.walk families ↔
    familyOf p ∈ families ∧ ∃ entry, w.repo.entries.lookup p = some entry ∧
      (link ↔ ∃ target, entry = .link target) := by
  rw [Repo.walk, mem_map]
  constructor
  · rintro ⟨q, hq, heq⟩
    rw [Prod.mk.injEq] at heq
    obtain ⟨rfl, rfl⟩ := heq
    rw [mem_filter, contains_iff_mem] at hq
    refine ⟨hq.2, ?_⟩
    obtain ⟨entry, hentry⟩ := Option.isSome_iff_exists.mp
      (AList.lookup_isSome.mpr (AList.mem_keys.mpr hq.1))
    refine ⟨entry, hentry, ?_⟩
    rw [hentry]
    cases entry <;> simp
  · rintro ⟨hfamily, entry, hentry, hlink⟩
    have hmem : p ∈ w.repo.entries := AList.lookup_isSome.mp (by rw [hentry]; rfl)
    refine ⟨p, mem_filter.mpr ⟨AList.mem_keys.mp hmem, contains_iff_mem.mpr hfamily⟩, ?_⟩
    rw [hentry, Prod.mk.injEq, Bool.eq_iff_iff, hlink]
    cases entry <;> simp

lemma endsWithMd_of_valid {p : String} (h : validatePagePath p) : endsWithMd p := by
  rw [validatePagePath, Bool.and_eq_true] at h
  rw [endsWithMd, isSuffixOf_iff_suffix]
  exact (isSuffixOf_iff_suffix.mp h.2).trans (split_getLastD '/' p.toList).2

lemma mem_repoPages : p ∈ repoPages w families ↔
    (diskAt w p).isSome ∧ familyOf p ∈ families ∧ validatePagePath p := by
  rw [repoPages, foundPages, mem_map]
  constructor
  · rintro ⟨⟨q, link⟩, hmem, rfl⟩
    rw [mem_filter, mem_walk] at hmem
    obtain ⟨⟨hfamily, entry, hentry, hlink⟩, hcond⟩ := hmem
    simp only [Bool.and_eq_true, Bool.not_eq_true'] at hcond
    obtain ⟨⟨⟨-, hnolink⟩, -⟩, hvalid⟩ := hcond
    refine ⟨?_, hfamily, hvalid⟩
    rw [diskAt, hentry]
    cases entry with
    | file c => rfl
    | link target =>
      rw [hnolink] at hlink
      exact absurd (hlink.mpr ⟨target, rfl⟩) (by simp)
  · rintro ⟨hdisk, hfamily, hvalid⟩
    refine ⟨(p, false), mem_filter.mpr ⟨mem_walk.mpr ⟨hfamily, ?_⟩, ?_⟩, rfl⟩
    · rw [diskAt] at hdisk
      split at hdisk
      · rename_i c hentry
        exact ⟨_, hentry, by simp⟩
      · cases hdisk
    · simp [hidden_of_valid hvalid, endsWithMd_of_valid hvalid, hvalid]

lemma nodup_repoPages : (repoPages w families).Nodup := by
  have hwalk : (w.repo.walk families).map Prod.fst
      = w.repo.entries.keys.filter fun p => families.contains (familyOf p) := by
    rw [Repo.walk, map_map]
    exact map_id _
  refine List.Nodup.sublist (filter_sublist.map Prod.fst) ?_
  rw [hwalk]
  exact w.repo.entries.nodupKeys.filter _

lemma refusedPages_eq_nil : refusedPages w families = [] ↔
    ∀ p entry, w.repo.entries.lookup p = some entry → familyOf p ∈ families → hidden p = false →
      (∀ target, entry ≠ .link target) ∧ (endsWithMd p → validatePagePath p) := by
  rw [refusedPages, refusedEntries, filterMap_eq_nil_iff]
  constructor
  · intro h p entry hentry hfamily hhidden
    cases entry with
    | link target =>
      have hwalk : (p, true) ∈ w.repo.walk families :=
        mem_walk.mpr ⟨hfamily, .link target, hentry, by simp⟩
      exact absurd (h _ hwalk) (by simp [hhidden])
    | file c =>
      refine ⟨fun target => by simp, fun hmd => ?_⟩
      have hwalk : (p, false) ∈ w.repo.walk families :=
        mem_walk.mpr ⟨hfamily, .file c, hentry, by simp⟩
      by_contra hvalid
      exact absurd (h _ hwalk) (by simp [hhidden, hmd, hvalid])
  · rintro h ⟨p, link⟩ hwalk
    obtain ⟨hfamily, entry, hentry, hlink⟩ := mem_walk.mp hwalk
    by_cases hhidden : hidden p
    · simp [hhidden]
    obtain ⟨hnolink, hvalid⟩ := h p entry hentry hfamily (by simpa using hhidden)
    have hlink' : link = false := by
      rw [Bool.eq_false_iff]
      intro hl
      obtain ⟨target, htarget⟩ := hlink.mp hl
      exact hnolink target htarget
    by_cases hmd : endsWithMd p
    · simp [hhidden, hlink', hvalid hmd]
    · simp [hhidden, hlink', hmd]

lemma mem_pagesOf (hrefused : refusedPages w families = []) : p ∈ pagesOf old w families ↔
    p ∈ serverPages w families ∨ p ∈ repoPages w families ∨
      (old.pages.lookup p).isSome ∧ familyOf p ∈ families := by
  rw [pagesOf, allPages, hrefused]
  simp [AList.lookup_isSome, AList.mem_keys]

lemma family_of_mem_pagesOf (hrefused : refusedPages w families = [])
    (hp : p ∈ pagesOf old w families) : familyOf p ∈ families := by
  rcases (mem_pagesOf hrefused).mp hp with h | h | h
  · exact (mem_serverPages.mp h).2
  · exact (mem_repoPages.mp h).2.1
  · exact h.2

lemma nodup_pagesOf : (pagesOf old w families).Nodup := nodup_sortedSet _

lemma buildPlan_holds
    (h : (alone (serve x srv) (buildPlan x args families old statelessCheck) w).2 = .ok plan) :
    Plannable old w families ∧ (∀ p ∈ pagesOf old w families,
        (alone (serve x srv) (planPage x args old statelessCheck (serverPages w families) p) w).2
          = .ok (itemAt x srv args old statelessCheck (serverPages w families) w p)) ∧
      plan.Holds (refusedPages w families) (pagesOf old w families)
        (itemAt x srv args old statelessCheck (serverPages w families) w) := by
  obtain ⟨hplannable, made, hmade, rfl⟩ := buildPlan_ok.mp h
  obtain ⟨hitems, rfl⟩ := planPages_ok hmade
  exact ⟨hplannable, hitems, (holds_foldl_push _ _ _).withCeiling _⟩

lemma spends_planRun {mode : SyncMode} :
    Spends Call.writes (planRun x args mode loaded) 0 fun r => r.2.Ceiled args.maxDeletes := by
  refine (free_ofExcept _).next fun families _ => (free_ofExcept _).next fun old _ => ?_
  exact spends_buildPlan.next fun plan h => h

lemma quiet_planRun {mode : SyncMode} : Quiet (serve x srv) (planRun x args mode loaded) :=
  spends_planRun.quiet serve_of_writes_eq_zero

lemma free_ensureIfWriting : Free Call.writes (ensureIfWriting plan) := by
  rw [ensureIfWriting]
  split
  · trivial
  · rw [ensureConditionalWrites]
    split
    · trivial
    · refine (spends_request (e := Call.toolsList) le_rfl).next fun supported _ => ?_
      show Free _ (if _ then _ else _)
      split <;> trivial

lemma planRun_ok {mode : SyncMode} :
    (alone (serve x srv) (planRun x args mode loaded) w).2 = .ok (old, plan) ↔
      ∃ families, validateAllowlist args.includes = .ok families ∧
        baselineFor (loaded.getD {}) args.scope args.adoptScope = .ok old ∧
        (alone (serve x srv)
          (buildPlan x args families old (mode == .check && loaded.isNone)) w).2 = .ok plan := by
  rw [planRun]
  cases hfamilies : validateAllowlist args.includes with
  | error f =>
    rw [alone_bind_of_error (alone_ofExcept _)]
    simp
  | ok families =>
    rw [alone_bind_of_ok (alone_ofExcept _)]
    cases hold : baselineFor (loaded.getD {}) args.scope args.adoptScope with
    | error f =>
      rw [alone_bind_of_error (alone_ofExcept _)]
      simp
    | ok base =>
      rw [alone_bind_of_ok (alone_ofExcept _), alone_bind]
      cases hplan : alone (serve x srv)
          (buildPlan x args families base (mode == .check && loaded.isNone)) w with
      | mk t r =>
        cases r with
        | error f =>
          simp only [ok.injEq, reduceCtorEq, false_iff, not_exists, not_and]
          rintro _ rfl rfl
          simp [hplan]
        | ok made =>
          simp only [Prog.pure_eq, alone_done, ok.injEq, Prod.mk.injEq]
          constructor
          · rintro ⟨rfl, rfl⟩
            exact ⟨families, rfl, rfl, by rw [hplan]⟩
          · rintro ⟨_, rfl, rfl, hmade⟩
            rw [hplan] at hmade
            exact ⟨rfl, ok.inj hmade⟩

end

end Wikisync
