/-
What the sync asks for, whatever it is told.

Without `--prefer`, every request of a run that could end a version is backed by
the replies before it, and by the recorded base:

* a file is removed right after it was read and found to be the base.

These are facts about the program alone (`run_justified`): they hold for any
replies a server and a file system can give, so no state occurs in them.
-/
import AiMemory.Wikisync.Bidi

open Programs List

namespace Wikisync

abbrev History := List (Σ e : Call, Except Failure (Answer e))

/-- Replies any server gives: a `304` only to a tag, ids only from 3.0 on. -/
def Honest (srv : Server) : (e : Call) → Except Failure (Answer e) → Prop
  | .readPage _ none, .ok read => read.page.isSome = true
  | .toolsList, .ok supported => supported = srv.modern
  | .writePage _ _ _ _, .ok written => written.isSome = srv.modern
  | _, _ => True

/-- The state recorded `hash` for the path. -/
def SyncState.Records (old : SyncState) (p hash : String) : Prop :=
  ∃ entry, old.pages.lookup p = some entry ∧ entry.hash = hash

section

variable (x : Externals) (old : SyncState)

/-- The run has read version `id` of the page, and it was the base. -/
def ReadAsBase (h : History) (p : String) (id : PageId) : Prop :=
  ∃ hint read page, ⟨.readPage p hint, .ok read⟩ ∈ h ∧ read.page = some page ∧
    page.id = some id ∧ old.Records p (x.sha256Hex page.toContent.file.toUTF8)

/-- The run has imported the file with hash `expected`, has read the version it
created, and `bytes` is that version's file. -/
def ReadBack (h : History) (p : String) (expected : Option String) (bytes : ByteArray) : Prop :=
  ∃ disk m body pre id read page, expected = some (x.sha256Hex disk) ∧
    parse x.fromStr disk = .ok (m, body) ∧ ⟨.writePage p m body pre, .ok (some id)⟩ ∈ h ∧
    ⟨.readPage p none, .ok read⟩ ∈ h ∧ read.page = some page ∧ page.id = some id ∧
    bytes = page.toContent.file.toUTF8

def Justified (h : History) : Call → Prop
  | .writePage p _ _ (.latest id) => ReadAsBase x old h p id
  | .deletePage p id => ReadAsBase x old h p id
  | .writeIfUnchanged p expected bytes =>
    (∀ hash, expected = some hash → old.Records p hash) ∨ ReadBack x h p expected bytes
  | .removeFile p =>
    ∃ h' bytes, h = h' ++ [⟨.readFile p, .ok bytes⟩] ∧ old.Records p (x.sha256Hex bytes)
  | _ => True

variable {x old} {srv : Server} {h h' : History} {p : String} {policy : Policy}
  {disk : Option ByteArray} {base : Option PageState} {server : ServerSide}

lemma ReadAsBase.mono {id : PageId} (hr : ReadAsBase x old h p id) (hh : h <+: h') :
    ReadAsBase x old h' p id := by
  obtain ⟨hint, read, page, hmem, hrest⟩ := hr
  exact ⟨hint, read, page, hh.subset hmem, hrest⟩

lemma records_of_diskIsBase {bytes : ByteArray}
    (hbase : diskIsBase x (some bytes) (old.pages.lookup p)) :
    old.Records p (x.sha256Hex bytes) := by
  cases hentry : old.pages.lookup p with
  | none =>
    rw [hentry] at hbase
    exact absurd hbase (by simp [diskIsBase])
  | some entry =>
    rw [hentry] at hbase
    exact ⟨entry, hentry, (beq_iff_eq.mp hbase).symm⟩

lemma records_of_serverIsBase {file : String} (hbase : serverIsBase x file (old.pages.lookup p)) :
    old.Records p (x.sha256Hex file.toUTF8) := by
  cases hentry : old.pages.lookup p with
  | none =>
    rw [hentry] at hbase
    exact absurd hbase (by simp [serverIsBase])
  | some entry =>
    rw [hentry] at hbase
    exact ⟨entry, hentry, beq_iff_eq.mp hbase⟩

def Action.GivesUpBase (x : Externals) (disk : Option ByteArray) (base : Option PageState)
    (server : ServerSide) : Action → Prop
  | .importPage false | .deleteOnServer =>
    (∃ file, server = .rendered file ∧ serverIsBase x file base = true) ∨
      server = .notModified ∧ diskIsBase x disk base = false
  | .exportPage _ => disk = none ∨ diskIsBase x disk base = true
  | .deleteInRepo => diskIsBase x disk base = true
  | _ => True

lemma decide_givesUpBase (hpref : policy.prefer = none) :
    (policy.decide x disk base server).GivesUpBase x disk base server := by
  cases server with
  | absent =>
    cases disk <;> cases base <;> simp only [Policy.decide, hpref, Option.isSome]
    all_goals repeat' split
    all_goals simp_all [Action.GivesUpBase]
  | notModified =>
    cases disk <;> cases base <;> simp only [Policy.decide, Option.isSome]
    all_goals repeat' split
    all_goals simp_all [Action.GivesUpBase, diskIsBase]
  | rendered file =>
    cases disk <;> simp only [Policy.decide, hpref]
    all_goals repeat' split
    all_goals simp_all [Action.GivesUpBase]

/-! ### Planning -/

/-- What a page read can show: a page the run was sent, or a `304` to its tag. -/
def Seen.Shows (h : History) (p : String) (listed : Bool) (hint : Option String)
    (seen : Seen) : Prop :=
  match seen.current, seen.rendered with
  | none, none => listed = true → hint ≠ none
  | some page, some file => file = page.toContent.file ∧
    ∃ read, ⟨.readPage p hint, .ok read⟩ ∈ h ∧ read.page = some page
  | _, _ => False

lemma renderPage_ok {page : ApiPage} {file : String} (hr : renderPage page = .ok file) :
    file = page.toContent.file ∧ page.bodyMarkdown.utf8ByteSize ≤ maxBodyBytes := by
  rw [renderPage] at hr
  by_cases hsize : page.bodyMarkdown.utf8ByteSize > maxBodyBytes
  · rw [if_pos hsize] at hr
    cases hr
  · rw [if_neg hsize] at hr
    exact ⟨(Except.ok.inj hr).symm, not_lt.mp hsize⟩

lemma seePage_meets (listed : Bool) (hint : Option String) :
    Meets (Honest srv) (Justified x old) (seePage p listed hint) h
      (OnOk fun h' seen => seen.Shows h' p listed hint) := by
  cases listed with
  | false => exact fun hno => absurd hno (by simp)
  | true =>
    refine (meets_requestOk (T := fun h' read => Honest srv (.readPage p hint) (.ok read) ∧
      ⟨.readPage p hint, .ok read⟩ ∈ h') trivial fun read hread => ?_).bindOk ?_
    · exact ⟨hread, mem_append_right h mem_cons_self⟩
    · rintro h' read - ⟨hread, hmem⟩
      cases hpage : read.page with
      | none =>
        refine fun _ hhint => ?_
        subst hhint
        have hsome : read.page.isSome := hread
        rw [hpage] at hsome
        cases hsome
      | some page =>
        refine (meets_ofExcept (T := fun _ file => file = page.toContent.file)
          fun file hfile => (renderPage_ok hfile).1).bindOk ?_
        rintro h'' file hh rfl
        exact ⟨rfl, read, hh.subset hmem, hpage⟩

def Import.Backed (x : Externals) (old : SyncState) (h : History) (i : Import) : Prop :=
  parse x.fromStr i.disk = .ok (i.m, i.body) ∧
    (i.create = false → ∀ id, i.expectedPageId = some id → ReadAsBase x old h i.path id)

def Export.Backed (old : SyncState) (e : Export) : Prop :=
  ∀ hash, e.expectedDisk = some hash → old.Records e.path hash

def ServerDelete.Backed (x : Externals) (old : SyncState) (h : History) (d : ServerDelete) : Prop :=
  ∀ id, d.expectedPageId = some id → ReadAsBase x old h d.path id

def FileDelete.Backed (old : SyncState) (d : FileDelete) : Prop :=
  old.Records d.path d.expectedHash

def Item.Backed (x : Externals) (old : SyncState) (h : History) : Item → Prop
  | .importPage i => i.Backed x old h
  | .exportPage e => e.Backed old
  | .deleteOnServer d => d.Backed x old h
  | .deleteInRepo d => d.Backed old
  | _ => True

structure Plan.Backed (x : Externals) (old : SyncState) (h : History) (plan : Plan) : Prop where
  imports : ∀ i ∈ plan.imports, i.Backed x old h
  exports : ∀ e ∈ plan.exports, e.Backed old
  serverDeletes : ∀ d ∈ plan.serverDeletes, d.Backed x old h
  fileDeletes : ∀ d ∈ plan.fileDeletes, d.Backed old

lemma planImport_backed {create : Bool} {bytes : ByteArray} {current : Option ApiPage}
    (hcurrent : create = false → ∀ page id, current = some page → page.id = some id →
      ReadAsBase x old h p id) :
    (planImport x p create bytes current).Backed x old h := by
  rw [planImport]
  cases hparse : parse x.fromStr bytes with
  | error e => trivial
  | ok parsed =>
    cases current with
    | none => exact ⟨hparse, fun _ id hid => by cases hid⟩
    | some page =>
      show Item.Backed x old h (if _ then _ else _)
      split
      · exact ⟨hparse, fun hcreate id hid => hcurrent hcreate page id rfl hid⟩
      · trivial

lemma Seen.Shows.readAsBase {seen : Seen} {listed : Bool}
    (hshows : seen.Shows h p listed (hintFor x disk (old.pages.lookup p)))
    (hbase : (∃ file, seen.serverSide listed = .rendered file ∧
        serverIsBase x file (old.pages.lookup p)) ∨
      seen.serverSide listed = .notModified ∧ diskIsBase x disk (old.pages.lookup p) = false) :
    ∃ page, seen.current = some page ∧ ∀ id, page.id = some id → ReadAsBase x old h p id := by
  obtain ⟨etag, current, rendered⟩ := seen
  cases current with
  | none =>
    cases rendered with
    | some file => exact absurd hshows (by simp [Seen.Shows])
    | none =>
      exfalso
      cases listed with
      | false => simp [Seen.serverSide] at hbase
      | true =>
        have hedited : diskIsBase x disk (old.pages.lookup p) = false := by
          simpa [Seen.serverSide] using hbase
        have hhint := hshows rfl
        rw [hintFor, hedited] at hhint
        exact hhint rfl
  | some page =>
    cases rendered with
    | none => exact absurd hshows (by simp [Seen.Shows])
    | some file =>
      obtain ⟨rfl, read, hmem, hpage⟩ := hshows
      have hserver : serverIsBase x page.toContent.file (old.pages.lookup p) := by
        simpa [Seen.serverSide] using hbase
      refine ⟨page, rfl, fun id hid => ?_⟩
      exact ⟨_, read, page, hmem, hpage, hid, records_of_serverIsBase hserver⟩

variable {args : SyncArgs} {plan : Plan} {g : Progress}

lemma planAction_meets {statelessCheck : Bool} {seen : Seen} {listed : Bool} {action : Action}
    (hshows : seen.Shows h p listed (hintFor x disk (old.pages.lookup p)))
    (hgives : action.GivesUpBase x disk (old.pages.lookup p) (seen.serverSide listed)) :
    Meets (Honest srv) (Justified x old)
      (planAction x args statelessCheck p disk (old.pages.lookup p) seen action) h
      (OnOk fun h' item => item.Backed x old h') := by
  cases action with
  | unchanged | deletedOnServer | deletedInRepo | goneOnBothSides => trivial
  | conflict =>
    rw [planAction]
    split <;> trivial
  | exportPage create =>
    rw [planAction]
    cases seen.rendered with
    | none => trivial
    | some file =>
      intro hash hhash
      rcases hgives with rfl | hbase
      · cases hhash
      · cases disk with
        | none => cases hhash
        | some bytes =>
          rw [← Option.some_inj.mp hhash]
          exact records_of_diskIsBase hbase
  | importPage create =>
    rw [planAction]
    cases create with
    | true =>
      -- a create is sent as such and names no version
      refine planImport_backed fun hcreate => ?_
      cases hcreate
    | false =>
      obtain ⟨page, hpage, hread⟩ := hshows.readAsBase hgives
      rw [importTarget, hpage]
      refine planImport_backed fun _ page' id hpage' hid => ?_
      cases hpage'
      exact hread id hid
  | deleteOnServer =>
    obtain ⟨page, hpage, hread⟩ := hshows.readAsBase hgives
    rw [planAction, deleteTarget, hpage]
    show Meets _ _ (if _ then _ else _) h _
    split
    · trivial
    · exact hread
  | deleteInRepo =>
    cases disk with
    | none => trivial
    | some bytes => exact records_of_diskIsBase hgives

lemma planPage_meets (hpref : args.prefer = none) (statelessCheck : Bool) (onServer : List String) :
    Meets (Honest srv) (Justified x old) (planPage x args old statelessCheck onServer p) h
      (OnOk fun h' item => item.Backed x old h') := by
  refine (meets_requestOk (T := fun _ _ => True) trivial fun _ _ => trivial).bindOk ?_
  intro h₁ disk _ _
  show Meets _ _ (if _ then _ else _) h₁ _
  split
  · trivial
  · refine (seePage_meets _ _).bindOk fun h₂ seen _ hshows => ?_
    exact planAction_meets hshows (decide_givesUpBase hpref)

lemma Plan.Backed.mono (hplan : plan.Backed x old h) (hh : h <+: h') :
    plan.Backed x old h' where
  imports i hi :=
    ⟨(hplan.imports i hi).1, fun hc id hid => ((hplan.imports i hi).2 hc id hid).mono hh⟩
  exports := hplan.exports
  serverDeletes d hd id hid := (hplan.serverDeletes d hd id hid).mono hh
  fileDeletes := hplan.fileDeletes

lemma Plan.Backed.push {item : Item} (hplan : plan.Backed x old h)
    (hitem : item.Backed x old h) : (plan.push p item).Backed x old h := by
  obtain ⟨himports, hexports, hdeletes, hfiles⟩ := hplan
  cases item with
  | unchanged adopted =>
    cases adopted with
    | none | some entry => exact ⟨himports, hexports, hdeletes, hfiles⟩
  | importPage i =>
    refine ⟨fun j hj => ?_, hexports, hdeletes, hfiles⟩
    rcases mem_append.mp hj with hj | hj
    · exact himports j hj
    · exact mem_singleton.mp hj ▸ hitem
  | exportPage e =>
    refine ⟨himports, fun j hj => ?_, hdeletes, hfiles⟩
    rcases mem_append.mp hj with hj | hj
    · exact hexports j hj
    · exact mem_singleton.mp hj ▸ hitem
  | deleteOnServer d =>
    refine ⟨himports, hexports, fun j hj => ?_, hfiles⟩
    rcases mem_append.mp hj with hj | hj
    · exact hdeletes j hj
    · exact mem_singleton.mp hj ▸ hitem
  | deleteInRepo d =>
    refine ⟨himports, hexports, hdeletes, fun j hj => ?_⟩
    rcases mem_append.mp hj with hj | hj
    · exact hfiles j hj
    · exact mem_singleton.mp hj ▸ hitem
  | refuse reason | differs | notice n | forget => exact ⟨himports, hexports, hdeletes, hfiles⟩

lemma Plan.Backed.withCeiling (hplan : plan.Backed x old h) (maxDeletes : ℕ) :
    (plan.withCeiling maxDeletes).Backed x old h := by
  rw [Plan.withCeiling]
  split
  · exact ⟨hplan.imports, hplan.exports, hplan.serverDeletes, hplan.fileDeletes⟩
  · exact hplan

lemma buildPlan_meets (hpref : args.prefer = none) (families : List String)
    (statelessCheck : Bool) :
    Meets (Honest srv) (Justified x old) (buildPlan x args families old statelessCheck) h
      (OnOk fun h' plan => plan.Backed x old h') := by
  refine (meets_requestOk (T := fun _ _ => True) trivial fun _ _ => trivial).bindOk ?_
  intro h₁ listed _ _
  refine (meets_ofExcept (T := fun _ _ => True) fun _ _ => trivial).bindOk ?_
  intro h₂ onServer _ _
  have hlocal : Meets (Honest srv) (Justified x old) (localPages families) h₂
      (OnOk fun _ _ => True) := by
    refine (meets_requestOk (T := fun _ _ => True) trivial fun _ _ => trivial).bindOk ?_
    intro h' entries _ _
    show Meets _ _ (if _ then _ else _) h' _
    split <;> trivial
  refine hlocal.bindOk fun h₃ found _ _ => ?_
  refine (meets_ofExcept (T := fun _ _ => True) fun _ _ => trivial).bindOk ?_
  intro h₄ _ _ _
  refine Meets.bindOk (T := fun h' plan => plan.Backed x old h') (meets_foldlM ?_ ?_) ?_
  · intro p _ h₅ plan _ hplan
    refine (planPage_meets hpref statelessCheck onServer).bindOk fun h₆ item hh hitem => ?_
    exact (hplan.mono hh).push hitem
  · exact ⟨by simp, by simp, by simp, by simp⟩
  · intro h₇ plan _ hplan
    exact hplan.withCeiling args.maxDeletes

/-! ### Applying -/

theorem importOne_meets {i : Import} (hmodern : srv.modern) (hi : i.Backed x old h) :
    Meets (Honest srv) (Justified x old) (importOne x i) h (OnOk fun _ _ => True) := by
  refine (meets_ofExcept (T := fun _ pre => i.precondition = .ok pre) fun _ h => h).bindOk ?_
  intro h₁ pre hh₁ hpre
  have hwrite : Justified x old h₁ (.writePage i.path i.m i.body pre) := by
    cases pre with
    | absent => trivial
    | latest id =>
      rw [Import.precondition] at hpre
      split at hpre
      · cases hpre
      · rename_i expected hid hcreate
        cases hpre
        exact (hi.2 hcreate id hid).mono hh₁
      · cases hpre
  refine (meets_requestOk (T := fun h' written => ∃ id, written = some id ∧
    ⟨.writePage i.path i.m i.body pre, .ok (some id)⟩ ∈ h') hwrite fun written hw => ?_).bindOk ?_
  · have hsome : written.isSome := hmodern ▸ hw
    obtain ⟨id, rfl⟩ := Option.isSome_iff_exists.mp hsome
    exact ⟨id, rfl, mem_append_right h₁ mem_cons_self⟩
  rintro h₂ written - ⟨id, rfl, hwritten⟩
  refine (meets_requestOk (T := fun h' read => h₂ <+: h' ∧ ⟨.readPage i.path none, .ok read⟩ ∈ h')
    trivial fun read _ => ?_).bindOk ?_
  · exact ⟨prefix_append h₂ _, mem_append_right h₂ mem_cons_self⟩
  rintro h₃ read - ⟨hh₃, hread⟩
  cases hpage : read.page with
  | none => trivial
  | some page =>
    show Meets _ _ (if _ then _ else _) h₃ _
    split
    · trivial
    · rename_i hsame
      have hid : page.id = some id := by simpa using hsame
      refine (meets_ofExcept (T := fun _ file => file = page.toContent.file)
        fun file hfile => (renderPage_ok hfile).1).bindOk ?_
      rintro h₄ file hh₄ rfl
      have hrewrite : Meets (Honest srv) (Justified x old)
          (rewriteFile x i page.toContent.file) h₄ (OnOk fun _ _ => True) := by
        rw [rewriteFile]
        split
        · trivial
        · refine (meets_requestOk (T := fun _ _ => True) (.inr ?_) fun _ _ => trivial).bindOk
            fun _ _ _ _ => trivial
          exact ⟨i.disk, i.m, i.body, pre, id, read, page, rfl, hi.1,
            hh₄.subset (hh₃.subset hwritten), hh₄.subset hread, hpage, hid, rfl⟩
      exact hrewrite.bindOk fun _ _ _ _ => trivial

lemma deleteServerPage_meets {d : ServerDelete} (hd : d.Backed x old h) :
    Meets (Honest srv) (Justified x old) (deleteServerPage d) h (OnOk fun _ _ => True) := by
  refine (meets_requestOk (T := fun _ _ => True) trivial fun _ _ => trivial).bindOk ?_
  intro h₁ here hh _
  show Meets _ _ (if _ then _ else _) h₁ _
  split
  · trivial
  · cases hid : d.expectedPageId with
    | none => trivial
    | some id =>
      refine (meets_requestOk (T := fun _ _ => True) ?_ fun _ _ => trivial).bindOk
        fun _ _ _ _ => trivial
      exact (hd id hid).mono hh

lemma deleteFile_meets {d : FileDelete} (hd : d.Backed old) :
    Meets (Honest srv) (Justified x old) (deleteFile x d) h (OnOk fun _ _ => True) := by
  refine (meets_requestOk (T := fun _ _ => True) trivial fun _ _ => trivial).bindOk ?_
  intro h₁ here _ _
  match here with
  | none | some false => trivial
  | some true =>
    refine (meets_requestOk (T := fun h' bytes => ∃ h'', h' = h'' ++ [⟨.readFile d.path, .ok bytes⟩])
      trivial fun bytes _ => ⟨h₁, rfl⟩).bindOk ?_
    rintro h₂ bytes - ⟨h'', rfl⟩
    show Meets _ _ (if _ then _ else _) _ _
    split
    · trivial
    · rename_i hhash
      refine (meets_requestOk (T := fun _ _ => True) ⟨h'', bytes, rfl, ?_⟩
        fun _ _ => trivial).bindOk fun _ _ _ _ => trivial
      rw [not_not.mp hhash]
      exact hd

lemma stop_meets {α : Type} {T : History → α → Prop} (g : Progress) (f : Failure) :
    Meets (Honest srv) (Justified x old) (stop g f : Io α) h (OnOk T) :=
  (meets_requestOk (T := fun _ _ => True) trivial fun _ _ => trivial).bindOk fun _ _ _ _ => trivial

lemma applyImport_meets {i : Import} (hmodern : srv.modern) (hi : i.Backed x old h) :
    Meets (Honest srv) (Justified x old) (applyImport x g i) h (OnOk fun _ _ => True) := by
  refine (importOne_meets hmodern hi).attemptBind fun h' r _ _ => ?_
  split
  · trivial
  · trivial
  · trivial
  · exact stop_meets g _

lemma applyExport_meets {e : Export} (he : e.Backed old) :
    Meets (Honest srv) (Justified x old) (applyExport x g e) h (OnOk fun _ _ => True) := by
  refine (meets_requestOk (T := fun _ _ => True) (.inl he) fun _ _ => trivial).attemptBind ?_
  intro h' r _ _
  split
  · trivial
  · trivial
  · exact stop_meets g _

lemma applyServerDelete_meets {d : ServerDelete} (hd : d.Backed x old h) :
    Meets (Honest srv) (Justified x old) (applyServerDelete g d) h (OnOk fun _ _ => True) := by
  refine (deleteServerPage_meets hd).attemptBind fun h' r _ _ => ?_
  split
  · trivial
  · trivial
  · trivial
  · exact stop_meets g _

lemma applyFileDelete_meets {d : FileDelete} (hd : d.Backed old) :
    Meets (Honest srv) (Justified x old) (applyFileDelete x g d) h (OnOk fun _ _ => True) := by
  refine (deleteFile_meets hd).attemptBind fun h' r _ _ => ?_
  split
  · trivial
  · trivial
  · exact stop_meets g _

lemma loop_meets {γ : Type} {f : Progress → γ → Io Progress} {l : List γ}
    (hplan : plan.Backed x old h) (hstep : ∀ c ∈ l, ∀ h' g, plan.Backed x old h' →
      Meets (Honest srv) (Justified x old) (f g c) h' (OnOk fun _ _ => True)) :
    Meets (Honest srv) (Justified x old) (l.foldlM f g) h
      (OnOk fun h' _ => plan.Backed x old h') := by
  refine meets_foldlM ?_ hplan
  intro c hc h' g _ hplan'
  refine (hstep c hc h' g hplan').mono ?_
  rintro h'' r hh -
  cases r with
  | ok g => exact hplan'.mono hh
  | error f => trivial

lemma applyPlan_meets (hplan : plan.Backed x old h) (hmodern : plan.imports ≠ [] → srv.modern) :
    Meets (Honest srv) (Justified x old) (applyPlan x args old plan) h (OnOk fun _ _ => True) := by
  refine (loop_meets hplan fun i hi h' g hplan' => ?_).bindOk fun h₁ g₁ _ hplan₁ => ?_
  · exact applyImport_meets (hmodern (ne_nil_of_mem hi)) (hplan'.imports i hi)
  refine (loop_meets hplan₁ fun e he h' g hplan' => ?_).bindOk fun h₂ g₂ _ hplan₂ => ?_
  · exact applyExport_meets (hplan'.exports e he)
  refine (loop_meets hplan₂ fun d hd h' g hplan' => ?_).bindOk fun h₃ g₃ _ hplan₃ => ?_
  · exact applyServerDelete_meets (hplan'.serverDeletes d hd)
  refine (loop_meets hplan₃ fun d hd h' g hplan' => ?_).bindOk fun h₄ g₄ _ _ => ?_
  · exact applyFileDelete_meets (hplan'.fileDeletes d hd)
  exact (meets_requestOk (T := fun _ _ => True) trivial fun _ _ => trivial).bindOk
    fun _ _ _ _ => trivial

lemma ensureIfWriting_meets :
    Meets (Honest srv) (Justified x old) (ensureIfWriting plan) h
      (OnOk fun _ _ => plan.imports ≠ [] → srv.modern) := by
  rw [ensureIfWriting]
  split
  · rename_i hempty
    intro himports
    rw [Bool.and_eq_true, List.isEmpty_iff] at hempty
    exact absurd hempty.1 himports
  · rw [ensureConditionalWrites]
    split
    · trivial
    · refine (meets_requestOk (T := fun _ supported => supported = srv.modern) trivial
        fun _ hs => hs).bindOk ?_
      rintro h' supported - hs
      cases supported with
      | false => trivial
      | true => exact fun _ => hs.symm

lemma performPlan_meets (hplan : plan.Backed x old h) :
    Meets (Honest srv) (Justified x old) (performPlan x args old plan) h
      (OnOk fun _ _ => True) := by
  rw [performPlan]
  cases plan.batchRefusal with
  | some deletes => trivial
  | none =>
    show Meets _ _ (if _ then _ else _) h _
    split
    · refine ensureIfWriting_meets.bindOk fun h₁ _ hh hmodern => ?_
      refine (applyPlan_meets (hplan.mono hh) hmodern).bindOk fun h₂ g _ _ => ?_
      show Meets _ _ (if _ then _ else _) h₂ _
      split <;> trivial
    · trivial

end

def SyncArgs.baseline (args : SyncArgs) (loaded : Option SyncState) : SyncState :=
  (baselineFor (loaded.getD {}) args.scope args.adoptScope).toOption.getD {}

lemma run_justified (x : Externals) (srv : Server) {args : SyncArgs} (hpref : args.prefer = none)
    (mode : SyncMode) (loaded : Option SyncState) :
    Meets (Honest srv) (Justified x (args.baseline loaded)) (run x args mode loaded) []
      (OnOk fun _ _ => True) := by
  have hplan : Meets (Honest srv) (Justified x (args.baseline loaded))
      (planRun x args mode loaded) []
      (OnOk fun h' r => r.1 = args.baseline loaded ∧ r.2.Backed x (args.baseline loaded) h') := by
    refine (meets_ofExcept (T := fun _ _ => True) fun _ _ => trivial).bindOk ?_
    intro h₁ families _ _
    refine (meets_ofExcept (T := fun _ old => old = args.baseline loaded) fun old hold => ?_).bindOk ?_
    · rw [SyncArgs.baseline, hold]
      rfl
    · rintro h₂ old - rfl
      refine (buildPlan_meets hpref families _).bindOk fun h₃ plan _ hbacked => ?_
      exact ⟨rfl, hbacked⟩
  refine hplan.bindOk ?_
  rintro h' ⟨old, plan⟩ - ⟨rfl, hbacked⟩
  show Meets _ _ (if _ then _ else _) h' _
  split
  · exact performPlan_meets hbacked
  · trivial

end Wikisync
