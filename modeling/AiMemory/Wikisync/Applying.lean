/-
What applying a plan does, when nobody else moves.

A page lives in three places: its file, its server version and its recorded
entry (`Cell`).  Each item of a plan acts on the cell of its own page and on no
other, so the four loops of `applyPlan` come apart into one statement for each
page.
-/
import AiMemory.Wikisync.Planning

open Programs List

namespace Wikisync

open AList (lookup_insert lookup_insert_ne lookup_erase_ne lookup_erase)

@[ext] structure Cell where
  entry : Option Entry
  page : Option Version
  recorded : Option PageState

def cellAt (w : World) (state : SyncState) (p : String) : Cell :=
  ⟨w.repo.entries.lookup p, w.pages.latest.lookup p, state.pages.lookup p⟩

def Cell.Gone (c : Cell) : Prop := c.entry = none ∧ c.page = none ∧ c.recorded = none

namespace Repo

variable {r : Repo} {p : String}

lemma put_lookup_self {e : Entry} (h : r.free p) :
    (r.put p e).entries.lookup p = some e := by
  rw [put, dif_pos h]
  exact lookup_insert _

lemma free_of_readDisk {disk : Option ByteArray} (h : r.readDisk p = .ok disk) :
    r.free p := by
  have hjoin : r.secureJoin p := by
    by_contra hno
    rw [readDisk, if_pos (by simpa using hno)] at h
    cases h
  rw [free, all_eq_true]
  intro q hq
  have habove : inside q p = false := by
    rw [secureJoin, Bool.and_eq_true, Bool.and_eq_true, all_eq_true] at hjoin
    simpa using hjoin.1.2 q hq
  have hbelow : inside p q = false := by
    cases hentry : r.entries.lookup p with
    | some entry =>
      have hp : p ∈ r.entries := AList.lookup_isSome.mp (by rw [hentry]; rfl)
      exact r.tree p hp q (AList.mem_keys.mpr hq)
    | none =>
      rw [readDisk, if_neg (by simp [hjoin])] at h
      simp only [hentry] at h
      split at h
      · cases h
      · rename_i hdir
        rw [isDir, Bool.not_eq_true, any_eq_false] at hdir
        simpa using hdir q hq
  simp [habove, hbelow]

lemma inspect_none (h : r.inspect p = .ok none) : r.entries.lookup p = none := by
  rw [inspect] at h
  split at h
  · cases h
  · cases hentry : r.entries.lookup p with
    | none => rfl
    | some entry =>
      cases entry <;> simp only [hentry] at h <;> cases h

end Repo

section

variable {x : Externals} {srv : Server} {w w' : World} {g g' : Progress} {p : String}

/-! ### What each item leaves behind -/

theorem alone_writeIfUnchanged {expected : Option String} {bytes : String} {wrote : Bool}
    (h : alone (serve x srv) (writeIfUnchanged p expected bytes) w = (w', .ok wrote)) :
    w'.pages = w.pages ∧ w'.state = w.state ∧
      if wrote then w.repo.free p = true ∧ w'.repo = w.repo.put p (.file bytes.toUTF8)
      else w'.repo = w.repo := by
  rw [show alone (serve x srv) (writeIfUnchanged p expected bytes) w
    = w.writeIfUnchanged x p expected bytes.toUTF8 from alone_request _,
    World.writeIfUnchanged] at h
  cases hread : w.repo.readDisk p with
  | error f =>
    rw [hread] at h
    cases h
  | ok current =>
    simp only [hread] at h
    split at h
    · cases h
      exact ⟨rfl, rfl, Repo.free_of_readDisk hread, rfl⟩
    · cases h
      exact ⟨rfl, rfl, rfl⟩

lemma importOne_ok {i : Import} {entry : PageState} {rewrite : Rewrite}
    (h : alone (serve x srv) (importOne x i) w = (w', .ok (entry, rewrite)))
    (hrewrite : rewrite ≠ .skipped) :
    ∃ c, srv.stores i.path i.m i.body = some c ∧ c.bodyMarkdown.utf8ByteSize ≤ maxBodyBytes ∧
      w'.pages = w.pages.put srv i.path c ∧ entry.hash = x.sha256Hex c.file.toUTF8 ∧
      (c.file.toUTF8 = i.disk ∧ w'.repo = w.repo ∨
        w.repo.free i.path ∧ w'.repo = w.repo.put i.path (.file c.file.toUTF8)) := by
  obtain ⟨w₁, pre, hpre, h⟩ := alone_bind_ok.mp h
  rw [alone_ofExcept, Prod.mk.injEq] at hpre
  obtain ⟨rfl, -⟩ := hpre
  obtain ⟨w₂, written, hwrite, h⟩ := alone_bind_ok.mp h
  rw [show alone (serve x srv) (writePage i.path i.m i.body pre) w
    = w.writePage srv i.path i.m i.body pre from alone_request _] at hwrite
  obtain ⟨c, hstores, hworld, hwritten⟩ := writePage_ok (by rw [hwrite])
  rw [hwrite] at hworld
  obtain rfl : w₂ = { w with pages := w.pages.put srv i.path c } := hworld
  obtain ⟨w₃, read, hread, h⟩ := alone_bind_ok.mp h
  -- nobody wrote in between: the read brings the version just created
  have hlookup : (w.pages.put srv i.path c).latest.lookup i.path
      = some ⟨w.pages.next, srv.etag i.path w.pages.next c, c⟩ := lookup_insert _
  rw [show alone (serve x srv) (readPage i.path none) _ = _ from alone_request _, serve,
    Pages.read, hlookup] at hread
  have hmatch : ¬ ((srv.etag i.path w.pages.next c).isSome ∧
      srv.etag i.path w.pages.next c = none) := by
    rintro ⟨hsome, hnone⟩
    rw [hnone] at hsome
    cases hsome
  simp only [Option.map_some, if_neg hmatch] at hread
  cases hread
  have hid : (Pages.toApi srv ⟨w.pages.next, srv.etag i.path w.pages.next c, c⟩).id = written := by
    rw [hwritten]
    rfl
  simp only [hid, bne_self_eq_false, Bool.and_false, Bool.false_eq_true, if_false] at h
  obtain ⟨w₄, file, hrender, h⟩ := alone_bind_ok.mp h
  rw [alone_ofExcept, Prod.mk.injEq] at hrender
  obtain ⟨rfl, hrender⟩ := hrender
  obtain ⟨rfl, hbody⟩ := renderPage_ok hrender
  obtain ⟨w₅, rewrite', hfile, h⟩ := alone_bind_ok.mp h
  cases h
  refine ⟨c, hstores, hbody, ?_⟩
  rw [rewriteFile] at hfile
  split at hfile
  · rename_i hsame
    cases hfile
    exact ⟨rfl, rfl, .inl ⟨hsame, rfl⟩⟩
  · obtain ⟨w₆, wrote, hwrote, hfile⟩ := alone_bind_ok.mp hfile
    cases hfile
    obtain ⟨hpages, -, hrepo⟩ := alone_writeIfUnchanged hwrote
    cases wrote with
    | false => exact absurd rfl hrewrite
    | true => exact ⟨hpages, rfl, .inr hrepo⟩

/-- The step leaves every page but `q` as it is. -/
structure Elsewhere (q : String) (w : World) (g : Progress) (w' : World) (g' : Progress) : Prop where
  scope : g'.state.scope = g.state.scope
  cells : ∀ p, p ≠ q → cellAt w' g'.state p = cellAt w g.state p

lemma race_ne_nil (g : Progress) (p : String) : (g.race p).raced ≠ [] := by
  simp [Progress.race]

lemma alone_stop_ne_ok {α : Type} {f : Failure} {a : α} :
    alone (serve x srv) (stop g f : Io α) w ≠ (w', .ok a) := by
  intro h
  obtain ⟨_, _, -, h⟩ := alone_bind_ok.mp h
  cases h

lemma applyImport_ok {i : Import}
    (h : alone (serve x srv) (applyImport x g i) w = (w', .ok g')) (hraced : g'.raced = []) :
    g.raced = [] ∧ ∃ entry rewrite, rewrite ≠ Rewrite.skipped ∧
      alone (serve x srv) (importOne x i) w = (w', .ok (entry, rewrite)) ∧
      g'.state = { g.state with pages := g.state.pages.insert i.path entry } := by
  obtain ⟨w₁, result, hresult, h⟩ := alone_attempt_bind.mp h
  split at h
  · cases h
    exact absurd hraced (race_ne_nil _ _)
  · rename_i entry rewrite hne
    cases h
    exact ⟨hraced, entry, rewrite, hne, hresult, rfl⟩
  · cases h
    exact absurd hraced (race_ne_nil _ _)
  · exact absurd h alone_stop_ne_ok

lemma applyImport_cell {i : Import}
    (h : alone (serve x srv) (applyImport x g i) w = (w', .ok g')) (hraced : g'.raced = [])
    (hentry : w.repo.entries.lookup i.path = some (.file i.disk)) :
    Elsewhere i.path w g w' g' ∧ ∃ v entry, cellAt w' g'.state i.path =
        ⟨some (.file v.content.file.toUTF8), some v, some entry⟩ ∧
      srv.stores i.path i.m i.body = some v.content ∧
      v.content.bodyMarkdown.utf8ByteSize ≤ maxBodyBytes ∧
      entry.hash = x.sha256Hex v.content.file.toUTF8 := by
  obtain ⟨-, entry, rewrite, hne, himport, hstate⟩ := applyImport_ok h hraced
  obtain ⟨c, hstores, hbody, hpages, hhash, hrepo⟩ := importOne_ok himport hne
  constructor
  · refine ⟨by rw [hstate], fun p hp => ?_⟩
    have hfile : w'.repo.entries.lookup p = w.repo.entries.lookup p := by
      rcases hrepo with ⟨-, hrepo⟩ | ⟨-, hrepo⟩
      · rw [hrepo]
      · rw [hrepo, Repo.put_lookup_ne hp]
    rw [cellAt, cellAt, hfile, hpages, hstate, Pages.put, lookup_insert_ne hp,
      lookup_insert_ne hp]
  · have hfile : w'.repo.entries.lookup i.path = some (.file c.file.toUTF8) := by
      rcases hrepo with ⟨hsame, hrepo⟩ | ⟨hfree, hrepo⟩
      · rw [hrepo, hentry, hsame]
      · rw [hrepo, Repo.put_lookup_self hfree]
    refine ⟨⟨w.pages.next, srv.etag i.path w.pages.next c, c⟩, entry, ?_, hstores, hbody, hhash⟩
    rw [cellAt, hfile, hpages, hstate, Pages.put, lookup_insert, lookup_insert]

lemma applyExport_ok {e : Export}
    (h : alone (serve x srv) (applyExport x g e) w = (w', .ok g')) (hraced : g'.raced = []) :
    g.raced = [] ∧ Elsewhere e.path w g w' g' ∧
      cellAt w' g'.state e.path = ⟨some (.file e.bytes.toUTF8), w.pages.latest.lookup e.path,
        some ⟨x.sha256Hex e.bytes.toUTF8, e.etag, e.pageId⟩⟩ := by
  obtain ⟨w₁, result, hresult, h⟩ := alone_attempt_bind.mp h
  split at h
  · cases h
    obtain ⟨hpages, -, hfree, hrepo⟩ := alone_writeIfUnchanged hresult
    refine ⟨hraced, ⟨rfl, fun p hp => ?_⟩, ?_⟩
    · rw [cellAt, cellAt, hpages, hrepo, Repo.put_lookup_ne hp]
      congr 1
      exact lookup_insert_ne hp
    · rw [cellAt, hpages, hrepo, Repo.put_lookup_self hfree]
      congr 1
      exact lookup_insert _
  · cases h
    exact absurd hraced (race_ne_nil _ _)
  · exact absurd h alone_stop_ne_ok

lemma deleteServerPage_true {d : ServerDelete}
    (h : alone (serve x srv) (deleteServerPage d) w = (w', .ok true)) :
    w.repo.entries.lookup d.path = none ∧ w' = { w with pages := w.pages.remove d.path } := by
  obtain ⟨w₁, here, hhere, h⟩ := alone_bind_ok.mp h
  rw [show alone (serve x srv) (inspect d.path) w = (w, w.repo.inspect d.path)
    from alone_request _, Prod.mk.injEq] at hhere
  obtain ⟨rfl, hhere⟩ := hhere
  cases here with
  | some kind => cases h
  | none =>
    refine ⟨Repo.inspect_none hhere, ?_⟩
    cases hid : d.expectedPageId with
    | none =>
      simp only [hid] at h
      cases h
    | some id =>
      simp only [hid] at h
      obtain ⟨w₂, _, hdelete, h⟩ := alone_bind_ok.mp h
      cases h
      rw [show alone (serve x srv) (deletePage d.path id) w = w.deletePage d.path id
        from alone_request _, World.deletePage] at hdelete
      split at hdelete
      · cases hdelete
        rfl
      · cases hdelete

lemma applyServerDelete_ok {d : ServerDelete}
    (h : alone (serve x srv) (applyServerDelete g d) w = (w', .ok g')) (hraced : g'.raced = []) :
    g.raced = [] ∧ Elsewhere d.path w g w' g' ∧ (cellAt w' g'.state d.path).Gone := by
  obtain ⟨w₁, result, hresult, h⟩ := alone_attempt_bind.mp h
  split at h
  · cases h
    obtain ⟨hentry, hworld⟩ := deleteServerPage_true hresult
    refine ⟨hraced, ⟨rfl, fun p hp => ?_⟩, ?_⟩
    · rw [hworld, cellAt, cellAt, Pages.remove, lookup_erase_ne hp]
      congr 1
      exact lookup_erase_ne hp
    · rw [hworld]
      exact ⟨hentry, lookup_erase _ _, lookup_erase _ _⟩
  · cases h
    exact absurd hraced (race_ne_nil _ _)
  · cases h
    exact absurd hraced (race_ne_nil _ _)
  · exact absurd h alone_stop_ne_ok

lemma deleteFile_true {d : FileDelete}
    (h : alone (serve x srv) (deleteFile x d) w = (w', .ok true)) :
    w' = { w with repo := w.repo.remove d.path } := by
  obtain ⟨w₁, here, hhere, h⟩ := alone_bind_ok.mp h
  rw [show alone (serve x srv) (inspect d.path) w = (w, w.repo.inspect d.path)
    from alone_request _, Prod.mk.injEq] at hhere
  obtain ⟨rfl, -⟩ := hhere
  split at h
  · cases h
  · cases h
  · obtain ⟨w₂, bytes, hbytes, h⟩ := alone_bind_ok.mp h
    rw [show alone (serve x srv) (readFile d.path) w = (w, w.repo.readFile d.path)
      from alone_request _, Prod.mk.injEq] at hbytes
    obtain ⟨rfl, -⟩ := hbytes
    split at h
    · cases h
    · obtain ⟨w₃, _, hremove, h⟩ := alone_bind_ok.mp h
      cases h
      rw [show alone (serve x srv) (removeFile d.path) w = w.removeFile d.path
        from alone_request _, World.removeFile] at hremove
      split at hremove
      · cases hremove
        rfl
      · cases hremove

lemma applyFileDelete_ok {d : FileDelete}
    (h : alone (serve x srv) (applyFileDelete x g d) w = (w', .ok g')) (hraced : g'.raced = []) :
    g.raced = [] ∧ Elsewhere d.path w g w' g' ∧
      cellAt w' g'.state d.path = ⟨none, w.pages.latest.lookup d.path, none⟩ := by
  obtain ⟨w₁, result, hresult, h⟩ := alone_attempt_bind.mp h
  split at h
  · cases h
    have hworld := deleteFile_true hresult
    refine ⟨hraced, ⟨rfl, fun p hp => ?_⟩, ?_⟩
    · rw [hworld, cellAt, cellAt, Repo.remove_lookup_ne hp]
      congr 1
      exact lookup_erase_ne hp
    · rw [hworld, cellAt]
      ext1
      · exact lookup_erase _ _
      · rfl
      · exact lookup_erase _ _
  · cases h
    exact absurd hraced (race_ne_nil _ _)
  · exact absurd h alone_stop_ne_ok

/-! ### A whole plan -/

theorem loop_ok {γ : Type} {f : Progress → γ → Io Progress} (path : γ → String)
    (Pre : γ → Cell → Prop) (Post : γ → Cell → Cell → Prop)
    (hraced : ∀ c w g w' g', alone (serve x srv) (f g c) w = (w', .ok g') → g'.raced = [] →
      g.raced = [])
    (hstep : ∀ c w g w' g', alone (serve x srv) (f g c) w = (w', .ok g') → g'.raced = [] →
      Pre c (cellAt w g.state (path c)) → Elsewhere (path c) w g w' g' ∧
        Post c (cellAt w g.state (path c)) (cellAt w' g'.state (path c)))
    {l : List γ} (hnodup : (l.map path).Nodup)
    (h : alone (serve x srv) (l.foldlM f g) w = (w', .ok g')) (hend : g'.raced = [])
    (hpre : ∀ c ∈ l, Pre c (cellAt w g.state (path c))) :
    g.raced = [] ∧ g'.state.scope = g.state.scope ∧
      (∀ p ∉ l.map path, cellAt w' g'.state p = cellAt w g.state p) ∧
      ∀ c ∈ l, Post c (cellAt w g.state (path c)) (cellAt w' g'.state (path c)) := by
  -- a page raced early would still be reported at the end
  have hback : ∀ {l : List γ} {w g}, alone (serve x srv) (l.foldlM f g) w = (w', .ok g') →
      g.raced = [] := by
    intro l
    induction l with
    | nil =>
      intro w g h
      cases h
      exact hend
    | cons c l ih =>
      intro w g h
      obtain ⟨t, a, hc, hl⟩ := alone_foldlM_cons_ok.mp h
      exact hraced c w g t a hc (ih hl)
  refine ⟨hback h, ?_⟩
  induction l generalizing w g with
  | nil =>
    cases h
    exact ⟨rfl, fun p _ => rfl, fun c hc => absurd hc (by simp)⟩
  | cons c l ih =>
    obtain ⟨t, a, hc, hl⟩ := alone_foldlM_cons_ok.mp h
    rw [map_cons, nodup_cons] at hnodup
    obtain ⟨helse, hpost⟩ := hstep c w g t a hc (hback hl) (hpre c mem_cons_self)
    have hne : ∀ d ∈ l, path d ≠ path c := by
      intro d hd heq
      exact hnodup.1 (heq ▸ mem_map_of_mem hd)
    obtain ⟨hscope, hrest, hposts⟩ := ih hnodup.2 hl fun d hd => by
      rw [helse.cells (path d) (hne d hd)]
      exact hpre d (mem_cons_of_mem c hd)
    refine ⟨hscope.trans helse.scope, fun p hp => ?_, fun d hd => ?_⟩
    · rw [map_cons, mem_cons, not_or] at hp
      rw [hrest p hp.2, helse.cells p hp.1]
    · rcases mem_cons.mp hd with rfl | hd
      · rw [hrest _ hnodup.1]
        exact hpost
      · rw [← helse.cells (path d) (hne d hd)]
        exact hposts d hd

def Item.Leads (x : Externals) (srv : Server) (c c' : Cell) : Item → Prop
  | .unchanged none => c' = c
  | .unchanged (some entry) => c' = { c with recorded := some entry }
  | .forget => c' = { c with recorded := none }
  | .importPage i => ∃ v entry,
    c' = ⟨some (.file v.content.file.toUTF8), some v, some entry⟩ ∧
    srv.stores i.path i.m i.body = some v.content ∧
    v.content.bodyMarkdown.utf8ByteSize ≤ maxBodyBytes ∧
    entry.hash = x.sha256Hex v.content.file.toUTF8
  | .exportPage e => c' = ⟨some (.file e.bytes.toUTF8), c.page,
    some ⟨x.sha256Hex e.bytes.toUTF8, e.etag, e.pageId⟩⟩
  | .deleteOnServer _ => c'.Gone
  | .deleteInRepo _ => c' = ⟨none, c.page, none⟩
  | .refuse _ | .notice _ | .differs => c' = c

structure Itemized (all : List String) (item : String → Item) : Prop where
  nodup : all.Nodup
  imports : ∀ p ∈ all, ∀ i, item p = .importPage i → i.path = p
  exports : ∀ p ∈ all, ∀ e, item p = .exportPage e → e.path = p
  serverDeletes : ∀ p ∈ all, ∀ d, item p = .deleteOnServer d → d.path = p
  fileDeletes : ∀ p ∈ all, ∀ d, item p = .deleteInRepo d → d.path = p

lemma filterMap_paths {γ : Type} {all : List String} (pick : String → Option γ)
    (path : γ → String) (hnodup : all.Nodup) (hpath : ∀ p ∈ all, ∀ c, pick p = some c → path c = p) :
    ((all.filterMap pick).map path).Nodup ∧
      ∀ p, p ∈ (all.filterMap pick).map path ↔ p ∈ all ∧ (pick p).isSome := by
  have heq : (all.filterMap pick).map path = all.filter fun p => (pick p).isSome := by
    clear hnodup
    induction all with
    | nil => rfl
    | cons p all ih =>
      have htail := ih fun q hq => hpath q (mem_cons_of_mem p hq)
      cases hp : pick p with
      | none => simp [hp, htail]
      | some c => simp [hp, htail, hpath p mem_cons_self c hp]
  rw [heq]
  exact ⟨hnodup.filter _, fun p => mem_filter⟩

lemma lookup_foldl_insert {l : List (String × PageState)} (hnodup : (l.map Prod.fst).Nodup)
    (pages : AList fun _ : String => PageState) (p : String) :
    (∀ entry, (p, entry) ∈ l →
      (l.foldl (fun pages a => pages.insert a.1 a.2) pages).lookup p = some entry) ∧
    (p ∉ l.map Prod.fst →
      (l.foldl (fun pages a => pages.insert a.1 a.2) pages).lookup p = pages.lookup p) := by
  induction l generalizing pages with
  | nil => simp
  | cons a l ih =>
    rw [map_cons, nodup_cons] at hnodup
    obtain ⟨hmem, hnot⟩ := ih hnodup.2 (pages.insert a.1 a.2)
    constructor
    · intro entry hentry
      rcases mem_cons.mp hentry with rfl | hentry
      · rw [foldl_cons, hnot hnodup.1]
        exact lookup_insert _
      · exact hmem entry hentry
    · intro hp
      rw [map_cons, mem_cons, not_or] at hp
      rw [foldl_cons, hnot hp.2, lookup_insert_ne hp.1]

lemma lookup_foldl_erase {l : List String} (pages : AList fun _ : String => PageState)
    (p : String) :
    (l.foldl (fun pages q => pages.erase q) pages).lookup p
      = if p ∈ l then none else pages.lookup p := by
  induction l generalizing pages with
  | nil => simp
  | cons q l ih =>
    rw [foldl_cons, ih]
    by_cases hl : p ∈ l
    · simp [hl]
    · by_cases hq : p = q
      · subst hq
        simp [hl, lookup_erase]
      · simp [hl, hq, lookup_erase_ne hq]

lemma import?_eq_some {t : Item} {i : Import} (h : t.import? = some i) : t = .importPage i := by
  cases t <;> cases h
  rfl

lemma export?_eq_some {t : Item} {e : Export} (h : t.export? = some e) : t = .exportPage e := by
  cases t <;> cases h
  rfl

lemma serverDelete?_eq_some {t : Item} {d : ServerDelete} (h : t.serverDelete? = some d) :
    t = .deleteOnServer d := by
  cases t <;> cases h
  rfl

lemma fileDelete?_eq_some {t : Item} {d : FileDelete} (h : t.fileDelete? = some d) :
    t = .deleteInRepo d := by
  cases t <;> cases h
  rfl

variable {args : SyncArgs} {old : SyncState} {plan : Plan} {found : List Refusal}
  {all : List String} {item : String → Item}

lemma startState_lookup (hnodup : all.Nodup) (hholds : plan.Holds found all item) (p : String) :
    (startState args old plan).pages.lookup p = if p ∈ all then
        if (item p).isForget then none else (item p).adopted?.or (old.pages.lookup p)
      else old.pages.lookup p := by
  have hpick : ∀ q ∈ all, ∀ c : String × PageState, (item q).adopted?.map (Prod.mk q) = some c →
      c.1 = q := by
    intro q _ c hc
    obtain ⟨entry, -, rfl⟩ := Option.map_eq_some_iff.mp hc
    rfl
  obtain ⟨hfst, hmem⟩ := filterMap_paths _ _ hnodup hpick
  rw [← hholds.adopted] at hfst hmem
  obtain ⟨hin, hout⟩ := lookup_foldl_insert hfst old.pages p
  rw [startState, lookup_foldl_erase, hholds.forget]
  simp only [mem_filter]
  by_cases hp : p ∈ all
  · simp only [hp, true_and, if_true]
    split
    · rfl
    · cases hentry : (item p).adopted? with
      | some entry =>
        rw [Option.some_or]
        refine hin entry ?_
        rw [hholds.adopted, mem_filterMap]
        exact ⟨p, hp, by rw [hentry]; rfl⟩
      | none =>
        rw [Option.none_or]
        refine hout fun hno => ?_
        have := (hmem p).mp hno
        rw [hentry] at this
        exact absurd this.2 (by simp)
  · simp only [hp, false_and, if_false]
    exact hout fun hno => hp ((hmem p).mp hno).1

/-- A page ends up where its item leads, a page outside the plan stays as it is. -/
theorem applyPlan_cells (hitems : Itemized all item) (hholds : plan.Holds found all item)
    (hfiles : ∀ p ∈ all, ∀ i, item p = .importPage i →
      w.repo.entries.lookup p = some (.file i.disk))
    (h : alone (serve x srv) (applyPlan x args old plan) w = (w', .ok g)) (hraced : g.raced = []) :
    w'.state = some g.state ∧ g.state.scope = some args.scope ∧
      (∀ p ∈ all, (item p).Leads x srv (cellAt w old p) (cellAt w' g.state p)) ∧
      ∀ p ∉ all, cellAt w' g.state p = cellAt w old p := by
  obtain ⟨w₁, g₁, h₁, h⟩ := alone_bind_ok.mp h
  obtain ⟨w₂, g₂, h₂, h⟩ := alone_bind_ok.mp h
  obtain ⟨w₃, g₃, h₃, h⟩ := alone_bind_ok.mp h
  obtain ⟨w₄, g₄, h₄, h⟩ := alone_bind_ok.mp h
  obtain ⟨w₅, _, hsave, h⟩ := alone_bind_ok.mp h
  cases h
  rw [show alone (serve x srv) (saveState g.state) w₄ = ({ w₄ with state := some g.state }, .ok ())
    from alone_request _] at hsave
  cases hsave
  -- the paths of the four lists, each a page of its own
  obtain ⟨hnodup₁, hmem₁⟩ := filterMap_paths (fun p => (item p).import?) Import.path hitems.nodup
    fun p hp i hi => hitems.imports p hp i (import?_eq_some hi)
  obtain ⟨hnodup₂, hmem₂⟩ := filterMap_paths (fun p => (item p).export?) Export.path hitems.nodup
    fun p hp e he => hitems.exports p hp e (export?_eq_some he)
  obtain ⟨hnodup₃, hmem₃⟩ := filterMap_paths (fun p => (item p).serverDelete?) ServerDelete.path
    hitems.nodup fun p hp d hd => hitems.serverDeletes p hp d (serverDelete?_eq_some hd)
  obtain ⟨hnodup₄, hmem₄⟩ := filterMap_paths (fun p => (item p).fileDelete?) FileDelete.path
    hitems.nodup fun p hp d hd => hitems.fileDeletes p hp d (fileDelete?_eq_some hd)
  rw [← hholds.imports] at hnodup₁ hmem₁
  rw [← hholds.exports] at hnodup₂ hmem₂
  rw [← hholds.serverDeletes] at hnodup₃ hmem₃
  rw [← hholds.fileDeletes] at hnodup₄ hmem₄
  obtain ⟨hraced₃, hscope₄, hout₄, hin₄⟩ := loop_ok FileDelete.path (fun _ _ => True)
    (fun d c c' => (Item.deleteInRepo d).Leads x srv c c')
    (fun _ _ _ _ _ h hr => (applyFileDelete_ok h hr).1)
    (fun _ _ _ _ _ h hr _ => (applyFileDelete_ok h hr).2) hnodup₄ h₄ hraced fun _ _ => trivial
  obtain ⟨hraced₂, hscope₃, hout₃, hin₃⟩ := loop_ok ServerDelete.path (fun _ _ => True)
    (fun d c c' => (Item.deleteOnServer d).Leads x srv c c')
    (fun _ _ _ _ _ h hr => (applyServerDelete_ok h hr).1)
    (fun _ _ _ _ _ h hr _ => (applyServerDelete_ok h hr).2) hnodup₃ h₃ hraced₃ fun _ _ => trivial
  obtain ⟨hraced₁, hscope₂, hout₂, hin₂⟩ := loop_ok Export.path (fun _ _ => True)
    (fun e c c' => (Item.exportPage e).Leads x srv c c')
    (fun _ _ _ _ _ h hr => (applyExport_ok h hr).1)
    (fun _ _ _ _ _ h hr _ => (applyExport_ok h hr).2) hnodup₂ h₂ hraced₂ fun _ _ => trivial
  have hpre : ∀ i ∈ plan.imports,
      (cellAt w (startState args old plan) i.path).entry = some (.file i.disk) := by
    intro i hi
    rw [hholds.imports, mem_filterMap] at hi
    obtain ⟨p, hp, hpi⟩ := hi
    obtain rfl := hitems.imports p hp i (import?_eq_some hpi)
    exact hfiles i.path hp i (import?_eq_some hpi)
  obtain ⟨-, hscope₁, hout₁, hin₁⟩ := loop_ok Import.path (fun i c => c.entry = some (.file i.disk))
    (fun i c c' => (Item.importPage i).Leads x srv c c')
    (fun _ _ _ _ _ h hr => (applyImport_ok h hr).1)
    (fun _ _ _ _ _ h hr hpre => applyImport_cell h hr hpre) hnodup₁ h₁ hraced₁ hpre
  have hstart : ∀ p, cellAt w (startState args old plan) p = { cellAt w old p with
      recorded := if p ∈ all then
        if (item p).isForget then none else (item p).adopted?.or (old.pages.lookup p)
      else old.pages.lookup p } := by
    intro p
    rw [cellAt, startState_lookup hitems.nodup hholds p]
    rfl
  refine ⟨rfl, ?_, ?_, ?_⟩
  · rw [hscope₄, hscope₃, hscope₂, hscope₁]
    rfl
  · intro p hp
    show (item p).Leads x srv (cellAt w old p) (cellAt w₄ g.state p)
    -- a page is in none of the lists, or in the one of its item
    have hkeep₁ : (item p).import? = none → cellAt w₁ g₁.state p
        = cellAt w (startState args old plan) p := fun hno =>
      hout₁ p fun hin => absurd ((hmem₁ p).mp hin).2 (by rw [hno]; simp)
    have hkeep₂ : (item p).export? = none → cellAt w₂ g₂.state p = cellAt w₁ g₁.state p :=
      fun hno => hout₂ p fun hin => absurd ((hmem₂ p).mp hin).2 (by rw [hno]; simp)
    have hkeep₃ : (item p).serverDelete? = none → cellAt w₃ g₃.state p = cellAt w₂ g₂.state p :=
      fun hno => hout₃ p fun hin => absurd ((hmem₃ p).mp hin).2 (by rw [hno]; simp)
    have hkeep₄ : (item p).fileDelete? = none → cellAt w₄ g.state p = cellAt w₃ g₃.state p :=
      fun hno => hout₄ p fun hin => absurd ((hmem₄ p).mp hin).2 (by rw [hno]; simp)
    have hstart := hstart p
    rw [if_pos hp] at hstart
    cases hitem : item p with
    | importPage i =>
      rw [hitem] at hkeep₂ hkeep₃ hkeep₄ hstart
      obtain rfl := hitems.imports p hp i hitem
      have hmem : i ∈ plan.imports := by
        rw [hholds.imports, mem_filterMap]
        exact ⟨i.path, hp, by rw [hitem]; rfl⟩
      rw [hkeep₄ rfl, hkeep₃ rfl, hkeep₂ rfl]
      exact hin₁ i hmem
    | exportPage e =>
      rw [hitem] at hkeep₁ hkeep₃ hkeep₄ hstart
      obtain rfl := hitems.exports p hp e hitem
      have hmem : e ∈ plan.exports := by
        rw [hholds.exports, mem_filterMap]
        exact ⟨e.path, hp, by rw [hitem]; rfl⟩
      rw [hkeep₄ rfl, hkeep₃ rfl]
      have hlead := hin₂ e hmem
      rw [hkeep₁ rfl, hstart] at hlead
      exact hlead
    | deleteOnServer d =>
      rw [hitem] at hkeep₄
      obtain rfl := hitems.serverDeletes p hp d hitem
      have hmem : d ∈ plan.serverDeletes := by
        rw [hholds.serverDeletes, mem_filterMap]
        exact ⟨d.path, hp, by rw [hitem]; rfl⟩
      rw [hkeep₄ rfl]
      exact hin₃ d hmem
    | deleteInRepo d =>
      rw [hitem] at hkeep₁ hkeep₂ hkeep₃ hstart
      obtain rfl := hitems.fileDeletes p hp d hitem
      have hmem : d ∈ plan.fileDeletes := by
        rw [hholds.fileDeletes, mem_filterMap]
        exact ⟨d.path, hp, by rw [hitem]; rfl⟩
      have hlead := hin₄ d hmem
      rw [hkeep₃ rfl, hkeep₂ rfl, hkeep₁ rfl, hstart] at hlead
      exact hlead
    | unchanged adopted =>
      rw [hitem] at hkeep₁ hkeep₂ hkeep₃ hkeep₄ hstart
      rw [hkeep₄ rfl, hkeep₃ rfl, hkeep₂ rfl, hkeep₁ rfl, hstart]
      cases adopted <;> rfl
    | _ =>
      rw [hitem] at hkeep₁ hkeep₂ hkeep₃ hkeep₄ hstart
      rw [hkeep₄ rfl, hkeep₃ rfl, hkeep₂ rfl, hkeep₁ rfl, hstart]
      rfl
  · intro p hp
    have hnot : ∀ {q : Prop}, ¬ (p ∈ all ∧ q) := fun h => hp h.1
    show cellAt w₄ g.state p = _
    rw [hout₄ p (by rw [hmem₄]; exact hnot), hout₃ p (by rw [hmem₃]; exact hnot),
      hout₂ p (by rw [hmem₂]; exact hnot), hout₁ p (by rw [hmem₁]; exact hnot), hstart p,
      if_neg hp]
    rfl

end

end Wikisync
