/-
No lost update in the two-way sync.

The sync runs among others, who may edit the repository and the server between
any two of its requests.  Without `--prefer`, what it overwrites or deletes is
the base recorded for the path, on either side, with two exceptions: the file
of an import is replaced by what the server stored for that import, and a file
edited between the last look of a file delete and the delete itself goes with
its edit.
-/
import AiMemory.Wikisync.Justified

open Programs List

namespace Wikisync

open Except (ok.inj)

abbrev SyncEvent := Event World Call Answer Failure Edit

/-! ### What a request does to the two sides -/

namespace Repo

variable {r : Repo} {p q : String}

lemma put_lookup_ne {e : Entry} (h : q ≠ p) :
    (r.put p e).entries.lookup q = r.entries.lookup q := by
  rw [put]
  split
  · exact AList.lookup_insert_ne h
  · rfl

lemma remove_lookup_ne (h : q ≠ p) : (r.remove p).entries.lookup q = r.entries.lookup q :=
  AList.lookup_erase_ne h

lemma readDisk_file {c : ByteArray} {current : Option ByteArray}
    (hc : r.entries.lookup p = some (.file c)) (hr : r.readDisk p = .ok current) :
    current = some c := by
  rw [readDisk] at hr
  split at hr
  · cases hr
  · rw [hc] at hr
    exact (ok.inj hr).symm

end Repo

section

variable {x : Externals} {srv : Server} {w s t : World} {p : String}

lemma sem_effect (f : Fate) (e : Call) (w : World) :
    (sem x srv f e w).1 = w ∨ (sem x srv f e w).1 = (serve x srv e w).1 := by
  cases f with
  | served | lost => exact .inr rfl
  | refused => exact .inl rfl
  | torn seen => cases e <;> first | exact .inl rfl | exact .inr rfl

variable {f : Fate} {v : Version} {tr : List SyncEvent} {id : PageId} {c : ByteArray}

lemma sem_ok {e : Call} {a : Answer e} (hlist : e ≠ .listPages)
    (hwalk : ∀ families, e ≠ .walk families) (ha : (sem x srv f e w).2 = .ok a) :
    sem x srv f e w = serve x srv e w := by
  cases f with
  | served => rfl
  | refused | lost => cases ha
  | torn seen =>
    cases e with
    | listPages => exact absurd rfl hlist
    | walk families => exact absurd rfl (hwalk families)
    | _ => rfl

lemma serve_repo (x : Externals) (srv : Server) (e : Call) (w : World) :
    (serve x srv e w).1.repo = w.repo ∨
    (∃ p expected bytes current, e = .writeIfUnchanged p expected bytes ∧
      w.repo.readDisk p = .ok current ∧ current.map x.sha256Hex = expected ∧
      (serve x srv e w).1.repo = w.repo.put p (.file bytes)) ∨
    ∃ p, e = .removeFile p ∧ (serve x srv e w).1.repo = w.repo.remove p := by
  cases e with
  | writePage p m body pre =>
    left
    simp only [serve, World.writePage]
    repeat' split
    all_goals rfl
  | deletePage p id =>
    left
    simp only [serve, World.deletePage]
    split <;> rfl
  | writeIfUnchanged p expected bytes =>
    simp only [serve, World.writeIfUnchanged]
    cases hread : w.repo.readDisk p with
    | error f => exact .inl rfl
    | ok current =>
      by_cases hexpected : current.map x.sha256Hex = expected
      · simp only [if_pos hexpected]
        exact .inr (.inl ⟨p, expected, bytes, current, rfl, hread, hexpected, rfl⟩)
      · simp only [if_neg hexpected, true_or]
  | removeFile p =>
    simp only [serve, World.removeFile]
    split
    · exact .inr (.inr ⟨p, rfl, rfl⟩)
    · exact .inl rfl
  | _ => exact .inl rfl

lemma serve_pages (x : Externals) (srv : Server) (e : Call) (w : World) :
    (serve x srv e w).1.pages = w.pages ∨
    (∃ p m body pre c, e = .writePage p m body pre ∧ pre.holds w.pages p ∧
      srv.stores p m body = some c ∧ (serve x srv e w).1.pages = w.pages.put srv p c) ∨
    ∃ p id, e = .deletePage p id ∧ (Precondition.latest id).holds w.pages p ∧
      (serve x srv e w).1.pages = w.pages.remove p := by
  cases e with
  | writePage p m body pre =>
    simp only [serve, World.writePage]
    by_cases hpre : pre.holds w.pages p
    · cases hstores : srv.stores p m body with
      | none => simp only [if_pos hpre, true_or]
      | some c =>
        simp only [if_pos hpre]
        exact .inr (.inl ⟨p, m, body, pre, c, rfl, hpre, hstores, rfl⟩)
    · simp only [if_neg hpre, true_or]
  | deletePage p id =>
    simp only [serve, World.deletePage]
    by_cases hpre : (Precondition.latest id).holds w.pages p
    · simp only [if_pos hpre]
      exact .inr (.inr ⟨p, id, rfl, hpre, rfl⟩)
    · simp only [if_neg hpre, true_or]
  | writeIfUnchanged p expected bytes =>
    left
    simp only [serve, World.writeIfUnchanged]
    repeat' split
    all_goals rfl
  | removeFile p =>
    left
    simp only [serve, World.removeFile]
    split <;> rfl
  | _ => exact .inl rfl

lemma act_file {m : Edit} (h : ¬ m.OnFile p) :
    (act srv m w).repo.entries.lookup p = w.repo.entries.lookup p := by
  cases m with
  | putFile q bytes | putLink q target => exact Repo.put_lookup_ne fun hpq => h hpq.symm
  | removeFile q => exact Repo.remove_lookup_ne fun hpq => h hpq.symm
  | putPage q c => rfl
  | removePage q => rfl

lemma act_page {m : Edit} (h : ¬ m.OnPage p) :
    (act srv m w).pages.latest.lookup p = w.pages.latest.lookup p := by
  cases m with
  | putFile q bytes | putLink q target | removeFile q => rfl
  | putPage q c => exact AList.lookup_insert_ne fun hpq => h hpq.symm
  | removePage q => exact AList.lookup_erase_ne fun hpq => h hpq.symm

/-! ### Version ids -/

/-- `t` may come after `s`: its versions are those of `s` or have newer ids. -/
structure World.Later (s t : World) : Prop where
  next : s.pages.next ≤ t.pages.next
  versions : ∀ p v, t.pages.latest.lookup p = some v →
    s.pages.latest.lookup p = some v ∨ s.pages.next ≤ v.id

lemma World.Later.refl (s : World) : s.Later s := ⟨le_rfl, fun _ _ h => .inl h⟩

lemma World.Later.trans {u : World} (hst : s.Later t) (htu : t.Later u) : s.Later u where
  next := hst.next.trans htu.next
  versions p v hv := by
    rcases htu.versions p v hv with h | h
    · exact hst.versions p v h
    · exact .inr (hst.next.trans h)

lemma World.Later.eq (h : s.Later t) {v' : Version} (hv : s.pages.latest.lookup p = some v)
    (hv' : t.pages.latest.lookup p = some v') (hid : v'.id = v.id) : v' = v := by
  rcases h.versions p v' hv' with hold | hnew
  · exact Option.some_inj.mp (hold.symm.trans hv)
  · -- an older version's id was handed out before
    have hlt : v.id < s.pages.next := s.pages.fresh p v hv
    rw [hid] at hnew
    exact absurd hnew (not_le.mpr hlt)

lemma later_put {c : Content} (hpages : t.pages = s.pages.put srv p c) : s.Later t where
  next := by rw [hpages]; exact Nat.le_succ _
  versions q v hv := by
    rw [hpages] at hv
    rcases Pages.put_lookup hv with hold | ⟨-, rfl⟩
    · exact .inl hold
    · exact .inr le_rfl

lemma later_remove (hpages : t.pages = s.pages.remove p) : s.Later t where
  next := by rw [hpages]; exact le_rfl
  versions q v hv := by
    rw [hpages] at hv
    exact .inl (Pages.remove_lookup hv).1

lemma later_same (hpages : t.pages = s.pages) : s.Later t where
  next := by rw [hpages]
  versions q v hv := .inl (hpages ▸ hv)

lemma act_later (m : Edit) (w : World) : w.Later (act srv m w) := by
  cases m with
  | putFile q bytes | putLink q target | removeFile q => exact later_same rfl
  | putPage q c => exact later_put rfl
  | removePage q => exact later_remove rfl

lemma sem_later (f : Fate) (e : Call) (w : World) : w.Later (sem x srv f e w).1 := by
  rcases sem_effect f e w with h | h
  · rw [h]
    exact .refl w
  · rw [h]
    rcases serve_pages x srv e w with hsame | ⟨p, m, body, pre, c, -, -, -, hput⟩ | ⟨p, id, -, -, hrem⟩
    · exact later_same hsame
    · exact later_put hput
    · exact later_remove hrem

lemma linked_later (h : Linked (act srv) (sem x srv) s tr t) : s.Later t :=
  h.rel World.Later.refl (fun _ _ _ => World.Later.trans) act_later sem_later

lemma writePage_ok {m : PageMeta} {body : String} {pre : Precondition} {written : Option PageId}
    (h : (w.writePage srv p m body pre).2 = .ok written) :
    ∃ c, srv.stores p m body = some c ∧
      (w.writePage srv p m body pre).1 = { w with pages := w.pages.put srv p c } ∧
      written = if srv.modern then some w.pages.next else none := by
  rw [World.writePage] at h ⊢
  by_cases hpre : pre.holds w.pages p
  · rw [if_pos hpre] at h ⊢
    cases hstores : srv.stores p m body with
    | none =>
      rw [hstores] at h
      cases h
    | some c =>
      rw [hstores] at h
      exact ⟨c, rfl, rfl, (ok.inj h).symm⟩
  · rw [if_neg hpre] at h
    cases h

lemma read_some {pages : Pages} {hint : Option String} {read : PageRead}
    (h : pages.read srv p hint = some read) :
    ∃ v, pages.latest.lookup p = some v ∧
      (∀ page, read.page = some page → page = Pages.toApi srv v) ∧
      (hint = none → read.page.isSome) := by
  obtain ⟨v, hv, hread⟩ := Option.map_eq_some_iff.mp h
  refine ⟨v, hv, ?_, ?_⟩
  · rintro page hpage
    rw [← hread] at hpage
    split at hpage
    · cases hpage
    · exact (Option.some_inj.mp hpage).symm
  · rintro rfl
    rw [← hread]
    split
    · rename_i htag
      rw [htag.2] at htag
      exact absurd htag.1 (by simp)
    · rfl

lemma sem_honest (f : Fate) (e : Call) (w : World) : Honest srv e (sem x srv f e w).2 := by
  cases hr : (sem x srv f e w).2 with
  | error failure => cases e <;> try trivial
                     rename_i hint; cases hint <;> trivial
  | ok a =>
    cases e with
    | readPage p hint =>
      cases hint with
      | some tag => trivial
      | none =>
        rw [sem_ok (by simp) (by simp) hr, serve] at hr
        cases hread : w.pages.read srv p none with
        | none =>
          rw [hread] at hr
          cases hr
        | some read =>
          rw [hread] at hr
          obtain ⟨v, -, -, hsome⟩ := read_some hread
          rw [← ok.inj hr]
          exact hsome rfl
    | toolsList =>
      rw [sem_ok (by simp) (by simp) hr] at hr
      exact (ok.inj hr).symm
    | writePage p m body pre =>
      rw [sem_ok (by simp) (by simp) hr] at hr
      obtain ⟨c, -, -, hwritten⟩ := writePage_ok hr
      show a.isSome = srv.modern
      rw [hwritten]
      cases srv.modern <;> rfl
    | _ => trivial

lemma sem_readPage_ok {hint : Option String} {read : PageRead} {page : ApiPage}
    (hr : (sem x srv f (.readPage p hint) w).2 = .ok read) (hpage : read.page = some page) :
    ∃ v, w.pages.latest.lookup p = some v ∧ page = Pages.toApi srv v := by
  rw [sem_ok (by simp) (by simp) hr, serve] at hr
  cases hread : w.pages.read srv p hint with
  | none =>
    rw [hread] at hr
    cases hr
  | some read' =>
    rw [hread] at hr
    obtain ⟨v, hv, hapi, -⟩ := read_some hread
    exact ⟨v, hv, hapi page (ok.inj hr ▸ hpage)⟩

lemma sem_writePage_ok {m : PageMeta} {body : String} {pre : Precondition}
    (hr : (sem x srv f (.writePage p m body pre) w).2 = .ok (some id)) :
    ∃ v, (sem x srv f (.writePage p m body pre) w).1.pages.latest.lookup p = some v ∧
      v.id = id ∧ srv.stores p m body = some v.content := by
  have hserve := sem_ok (by simp) (by simp) hr
  rw [hserve] at hr ⊢
  obtain ⟨c, hstores, hpages, hwritten⟩ := writePage_ok hr
  refine ⟨⟨w.pages.next, srv.etag p w.pages.next c, c⟩, ?_, ?_, hstores⟩
  · show (w.writePage srv p m body pre).1.pages.latest.lookup p = _
    rw [hpages]
    exact AList.lookup_insert _
  · split at hwritten
    · exact (Option.some_inj.mp hwritten).symm
    · cases hwritten

lemma toApi_id (h : (Pages.toApi srv v).id = some id) : v.id = id := by
  rw [Pages.toApi] at h
  split at h
  · exact Option.some_inj.mp h
  · cases h

/-! ### What a step of a run can end -/

/-- A request of the run ends the file version `c` at `p`. -/
def EndsFile (p : String) (c : ByteArray) : SyncEvent → Prop
  | .own _ _ before after => before.repo.entries.lookup p = some (.file c) ∧
    after.repo.entries.lookup p ≠ some (.file c)
  | .move _ _ _ => False

/-- A request of the run ends the page version `v` at `p`. -/
def EndsPage (p : String) (v : Version) : SyncEvent → Prop
  | .own _ _ before after => before.pages.latest.lookup p = some v ∧
    after.pages.latest.lookup p ≠ some v
  | .move _ _ _ => False

/-- The event replaces the file `c`, which the run has imported before, by the
rendering of the version that import created. -/
def RewritesImport (x : Externals) (past : List SyncEvent) (p : String) (c : ByteArray) :
    SyncEvent → Prop
  | .own e _ _ _ => ∃ m body pre id before after v, parse x.fromStr c = .ok (m, body) ∧
    .own (.writePage p m body pre) (.ok (some id)) before after ∈ past ∧
    after.pages.latest.lookup p = some v ∧ v.id = id ∧
    e = .writeIfUnchanged p (some (x.sha256Hex c)) v.content.file.toUTF8
  | .move _ _ _ => False

/-- The event removes a file that somebody edited after the run had read it for
the last time, and found it to be the base. -/
def EditedInDeleteWindow (x : Externals) (old : SyncState) (past : List SyncEvent) (p : String) :
    SyncEvent → Prop
  | .own e _ _ _ => e = .removeFile p ∧ ∃ earlier bytes before after window,
    past = earlier ++ .own (.readFile p) (.ok bytes) before after :: window ∧
    old.Records p (x.sha256Hex bytes) ∧ replies window = [] ∧
    ∃ m before after, .move m before after ∈ window ∧ m.OnFile p
  | .move _ _ _ => False

variable {old : SyncState} {past : List SyncEvent} {e : Call} {r : Except Failure (Answer e)}

lemma moves_file {window : List SyncEvent} (hl : Linked (act srv) (sem x srv) s window t)
    (hmoves : replies window = [])
    (hp : ∀ m before after, .move m before after ∈ window → ¬ m.OnFile p) :
    t.repo.entries.lookup p = s.repo.entries.lookup p := by
  induction hl with
  | nil s => rfl
  | move m _ ih =>
    rw [ih hmoves fun m' b a hmem => hp m' b a (mem_cons_of_mem _ hmem)]
    exact act_file (hp m _ _ mem_cons_self)
  | own i e _ _ => cases hmoves

lemma ReadAsBase.records (hl : Linked (act srv) (sem x srv) w past s)
    (hread : ReadAsBase x old (replies past) p id) (hv : s.pages.latest.lookup p = some v)
    (hid : v.id = id) : old.Records p (x.sha256Hex v.content.file.toUTF8) := by
  obtain ⟨hint, read, page, hmem, hpage, hpageId, hrec⟩ := hread
  obtain ⟨a, b, hown⟩ := mem_replies hmem
  obtain ⟨f, tr₁, tr₂, -, rfl, hreply, hl₂⟩ := hl.of_mem hown
  obtain ⟨v₁, hv₁, rfl⟩ := sem_readPage_ok hreply.symm hpage
  -- the version read then and the version named now have one id
  have hlater : a.Later s := (sem_later f _ a).trans (linked_later hl₂)
  have hsame : v = v₁ := hlater.eq hv₁ hv (hid.trans (toApi_id hpageId).symm)
  rw [hsame]
  exact hrec

lemma step_page (hl : Linked (act srv) (sem x srv) w past s) (hj : Justified x old (replies past) e)
    (hends : EndsPage p v (.own e r s (sem x srv f e s).1)) :
    old.Records p (x.sha256Hex v.content.file.toUTF8) := by
  obtain ⟨hv, hgone⟩ := hends
  have hlookup : ∀ q, (Precondition.latest q).holds s.pages p = true → v.id = q := by
    intro q hq
    rw [Precondition.holds, hv] at hq
    exact beq_iff_eq.mp hq
  rcases sem_effect f e s with heff | heff
  · rw [heff] at hgone
    exact absurd hv hgone
  rw [heff] at hgone
  rcases serve_pages x srv e s with hsame | ⟨q, m, body, pre, c, rfl, hpre, -, hput⟩ |
    ⟨q, id, rfl, hpre, hrem⟩
  · rw [hsame] at hgone
    exact absurd hv hgone
  · rw [hput, Pages.put] at hgone
    by_cases hpq : p = q
    · subst hpq
      cases pre with
      | latest id => exact ReadAsBase.records hl hj hv (hlookup id hpre)
      | absent =>
        rw [Precondition.holds, hv] at hpre
        cases hpre
    · rw [AList.lookup_insert_ne hpq] at hgone
      exact absurd hv hgone
  · rw [hrem, Pages.remove] at hgone
    by_cases hpq : p = q
    · subst hpq
      exact ReadAsBase.records hl hj hv (hlookup id hpre)
    · rw [AList.lookup_erase_ne hpq] at hgone
      exact absurd hv hgone

lemma ReadBack.rewrites {bytes : ByteArray} (hinj : Function.Injective x.sha256Hex)
    (hl : Linked (act srv) (sem x srv) w past s)
    (hback : ReadBack x (replies past) p (some (x.sha256Hex c)) bytes) :
    ∃ m body pre id before after v, parse x.fromStr c = .ok (m, body) ∧
      .own (.writePage p m body pre) (.ok (some id)) before after ∈ past ∧
      after.pages.latest.lookup p = some v ∧ v.id = id ∧ bytes = v.content.file.toUTF8 := by
  obtain ⟨disk, m, body, pre, id, read, page, hdisk, hparse, hwrite, hread, hpage, hpageId, rfl⟩ :=
    hback
  obtain rfl : c = disk := hinj (Option.some_inj.mp hdisk)
  obtain ⟨a, b, hwrote⟩ := mem_replies hwrite
  obtain ⟨a', b', hown⟩ := mem_replies hread
  obtain ⟨f, -, -, -, rfl, hreply, -⟩ := hl.of_mem hwrote
  obtain ⟨f', -, -, -, rfl, hreply', -⟩ := hl.of_mem hown
  obtain ⟨v, hv, hid, -⟩ := sem_writePage_ok hreply.symm
  obtain ⟨v', hv', rfl⟩ := sem_readPage_ok hreply'.symm hpage
  have hids : v'.id = v.id := (toApi_id hpageId).trans hid.symm
  -- whichever of the two came first, they are about one version
  have hsame : v' = v := by
    obtain ⟨tr, hbetween | hbetween⟩ := hl.ordered hwrote hown (by simp)
    · exact (linked_later hbetween).eq hv hv' hids
    · have hlater := (sem_later f' (.readPage p none) a').trans (linked_later hbetween)
      exact ((hlater.trans (sem_later f (.writePage p m body pre) a)).eq hv' hv hids.symm).symm
  refine ⟨m, body, pre, id, a, _, v, hparse, hwrote, hv, hid, ?_⟩
  rw [hsame]
  rfl

lemma step_file (hinj : Function.Injective x.sha256Hex)
    (hl : Linked (act srv) (sem x srv) w past s) (hj : Justified x old (replies past) e)
    (hends : EndsFile p c (.own e r s (sem x srv f e s).1)) : old.Records p (x.sha256Hex c) ∨
      RewritesImport x past p c (.own e r s (sem x srv f e s).1) ∨
      EditedInDeleteWindow x old past p (.own e r s (sem x srv f e s).1) := by
  obtain ⟨hc, hgone⟩ := hends
  rcases sem_effect f e s with heff | heff
  · rw [heff] at hgone
    exact absurd hc hgone
  rw [heff] at hgone
  rcases serve_repo x srv e s with hsame | ⟨q, expected, bytes, current, rfl, hread, hexp, hput⟩ |
    ⟨q, rfl, hrem⟩
  · rw [hsame] at hgone
    exact absurd hc hgone
  · by_cases hpq : p = q
    · subst hpq
      obtain rfl := Repo.readDisk_file hc hread
      obtain rfl : some (x.sha256Hex c) = expected := hexp
      rcases hj with hbase | hback
      · exact .inl (hbase _ rfl)
      · obtain ⟨m, body, pre, id, a, b, v, hparse, hmem, hv, hid, rfl⟩ := hback.rewrites hinj hl
        exact .inr (.inl ⟨m, body, pre, id, a, b, v, hparse, hmem, hv, hid, rfl⟩)
    · rw [hput, Repo.put_lookup_ne hpq] at hgone
      exact absurd hc hgone
  · by_cases hpq : p = q
    · subst hpq
      obtain ⟨h', bytes, hlast, hrec⟩ := hj
      obtain ⟨earlier, a, b, window, rfl, hwindow⟩ := replies_eq_append_singleton hlast
      by_cases hedit : ∃ m before after, .move m before after ∈ window ∧ m.OnFile p
      · exact .inr (.inr ⟨rfl, earlier, bytes, a, b, window, rfl, hrec, hwindow, hedit⟩)
      · -- nobody touched the file since it was read
        left
        obtain ⟨t, -, hl₂⟩ := linked_append.mp hl
        obtain ⟨rfl, f', rfl, hreply, hl₃⟩ := hl₂.own_head
        have hserve := sem_ok (by simp) (by simp) hreply.symm
        rw [hserve] at hreply hl₃
        have hkept := moves_file hl₃ hwindow fun m b a hmem hm => hedit ⟨m, b, a, hmem, hm⟩
        rw [hc] at hkept
        have hbytes : (.ok bytes : Except Failure ByteArray) = a.repo.readFile p := hreply
        rw [Repo.readFile, ← show _ = a.repo.entries.lookup p from hkept] at hbytes
        rw [← ok.inj hbytes]
        exact hrec
    · rw [hrem, Repo.remove_lookup_ne hpq] at hgone
      exact absurd hc hgone

/-- A run of the sync from the world `w`, among others. -/
def sync (x : Externals) (srv : Server) (args : SyncArgs) (mode : SyncMode) (w : World)
    (sched : List (List Edit × Fate)) : Run World Call Answer Failure Edit Outcome :=
  exec (act srv) (sem x srv) (run x args mode w.state) w sched

/-- What a run loses: versions the base records, on either side, and the two
exceptions.  Any other version is there at the end, unless somebody else
replaced it. -/
structure NoLostUpdate (x : Externals) (old : SyncState) (w : World)
    (r : Run World Call Answer Failure Edit Outcome) : Prop where
  files : ∀ past ev future, r.trace = past ++ ev :: future → ∀ p c, EndsFile p c ev →
    old.Records p (x.sha256Hex c) ∨ RewritesImport x past p c ev ∨
      EditedInDeleteWindow x old past p ev
  pages : ∀ past ev future, r.trace = past ++ ev :: future → ∀ p v, EndsPage p v ev →
    old.Records p (x.sha256Hex v.content.file.toUTF8)
  filesKept : ∀ past future, r.trace = past ++ future → ∀ p c,
    (lastState w past).repo.entries.lookup p = some (.file c) → ¬ old.Records p (x.sha256Hex c) →
    (∀ m before after, .move m before after ∈ future → ¬ m.OnFile p) →
    r.final.repo.entries.lookup p = some (.file c) ∨
      ∃ past' ev future', r.trace = past' ++ ev :: future' ∧ past <+: past' ∧ EndsFile p c ev ∧
        (RewritesImport x past' p c ev ∨ EditedInDeleteWindow x old past' p ev)
  pagesKept : ∀ past future, r.trace = past ++ future → ∀ p v,
    (lastState w past).pages.latest.lookup p = some v →
    ¬ old.Records p (x.sha256Hex v.content.file.toUTF8) →
    (∀ m before after, .move m before after ∈ future → ¬ m.OnPage p) →
    r.final.pages.latest.lookup p = some v

lemma file_stays (hl : Linked (act srv) (sem x srv) s tr t) (hends : ∀ ev ∈ tr, ¬ EndsFile p c ev)
    (hmoves : ∀ m before after, .move m before after ∈ tr → ¬ m.OnFile p)
    (hc : s.repo.entries.lookup p = some (.file c)) : t.repo.entries.lookup p = some (.file c) := by
  refine hl.kept (I := fun w => w.repo.entries.lookup p = some (.file c)) ?_ ?_ hc
  · rintro m a b hm rfl ha
    rw [act_file (hmoves m _ _ hm), ha]
  · intro e r a b he ha
    by_contra hgone
    exact hends _ he ⟨ha, hgone⟩

lemma page_stays (hl : Linked (act srv) (sem x srv) s tr t) (hends : ∀ ev ∈ tr, ¬ EndsPage p v ev)
    (hmoves : ∀ m before after, .move m before after ∈ tr → ¬ m.OnPage p)
    (hv : s.pages.latest.lookup p = some v) : t.pages.latest.lookup p = some v := by
  refine hl.kept (I := fun w => w.pages.latest.lookup p = some v) ?_ ?_ hv
  · rintro m a b hm rfl ha
    rw [act_page (hmoves m _ _ hm), ha]
  · intro e r a b he ha
    by_contra hgone
    exact hends _ he ⟨ha, hgone⟩

end

lemma sync_linked (x : Externals) (srv : Server) (args : SyncArgs) (mode : SyncMode) (w : World)
    (sched : List (List Edit × Fate)) : Linked (act srv) (sem x srv) w
      (sync x srv args mode w sched).trace (sync x srv args mode w sched).final :=
  exec_linked _ _ _

lemma sync_step (x : Externals) (srv : Server) {args : SyncArgs} (hpref : args.prefer = none)
    (mode : SyncMode) (w : World) (sched : List (List Edit × Fate)) {past future : List SyncEvent}
    {e : Call} {r : Except Failure (Answer e)} {s t : World}
    (htrace : (sync x srv args mode w sched).trace = past ++ .own e r s t :: future) :
    Linked (act srv) (sem x srv) w past s ∧ (∃ f, t = (sem x srv f e s).1) ∧
      Justified x (args.baseline w.state) (replies past) e := by
  have hlinked := sync_linked x srv args mode w sched
  have hallowed : Allowed (Justified x (args.baseline w.state)) []
      (sync x srv args mode w sched).trace :=
    exec_allowed sem_honest (run_justified x srv hpref mode w.state) w sched
  rw [htrace] at hlinked hallowed
  obtain ⟨u, hpast, hrest⟩ := linked_append.mp hlinked
  obtain ⟨rfl, f, ht, -, -⟩ := hrest.own_head
  exact ⟨hpast, ⟨f, ht⟩, hallowed.at⟩

/-- Without `--prefer`, a run of the sync, among any edits of others and with
any requests failing, loses on either side only versions the base records; an
imported file is replaced by what the server stored for it, and a file edited
between the last read and the removal of a file delete goes with its edit. -/
theorem no_lost_update (x : Externals) (srv : Server) (hinj : Function.Injective x.sha256Hex)
    (args : SyncArgs) (hpref : args.prefer = none) (mode : SyncMode) (w : World)
    (sched : List (List Edit × Fate)) :
    NoLostUpdate x (args.baseline w.state) w (sync x srv args mode w sched) := by
  have hlinked := sync_linked x srv args mode w sched
  have hfiles : ∀ past ev future, (sync x srv args mode w sched).trace = past ++ ev :: future →
      ∀ p c, EndsFile p c ev → (args.baseline w.state).Records p (x.sha256Hex c) ∨
        RewritesImport x past p c ev ∨
        EditedInDeleteWindow x (args.baseline w.state) past p ev := by
    intro past ev future htrace p c hends
    cases ev with
    | move m before after => exact hends.elim
    | own e r before after =>
      obtain ⟨hpast, ⟨f, rfl⟩, hj⟩ := sync_step x srv hpref mode w sched htrace
      exact step_file hinj hpast hj hends
  have hpages : ∀ past ev future, (sync x srv args mode w sched).trace = past ++ ev :: future →
      ∀ p v, EndsPage p v ev →
        (args.baseline w.state).Records p (x.sha256Hex v.content.file.toUTF8) := by
    intro past ev future htrace p v hends
    cases ev with
    | move m before after => exact hends.elim
    | own e r before after =>
      obtain ⟨hpast, ⟨f, rfl⟩, hj⟩ := sync_step x srv hpref mode w sched htrace
      exact step_page hpast hj hends
  refine ⟨hfiles, hpages, ?_, ?_⟩
  · intro past future htrace p c hc hbase hmoves
    rw [htrace] at hlinked
    obtain ⟨now, hpast, hfuture⟩ := linked_append.mp hlinked
    rw [hpast.lastState_eq] at hc
    by_cases hall : ∀ ev ∈ future, ¬ EndsFile p c ev
    · exact .inl (file_stays hfuture hall hmoves hc)
    · -- the first exception or the second
      push Not at hall
      obtain ⟨ev, hev, hends⟩ := hall
      obtain ⟨before, after, rfl⟩ := append_of_mem hev
      rw [← append_assoc] at htrace
      rcases hfiles _ ev after htrace p c hends with hrec | hexc
      · exact absurd hrec hbase
      · exact .inr ⟨past ++ before, ev, after, htrace, prefix_append _ _, hends, hexc⟩
  · intro past future htrace p v hv hbase hmoves
    rw [htrace] at hlinked
    obtain ⟨now, hpast, hfuture⟩ := linked_append.mp hlinked
    rw [hpast.lastState_eq] at hv
    refine page_stays hfuture (fun ev hev hends => ?_) hmoves hv
    obtain ⟨before, after, rfl⟩ := append_of_mem hev
    rw [← append_assoc] at htrace
    exact hbase (hpages _ ev after htrace p v hends)

/-! ### The window of a file delete -/

/-- A hash for small runs: the SHA-256 digests of some texts, any other text as
it is. -/
def hashWith (known : List (ByteArray × String)) (bytes : ByteArray) : String :=
  match known.find? fun k => k.1 = bytes with
  | some k => k.2
  | none => "raw:" ++ String.ofList (bytes.data.toList.map Char.ofUInt8)

lemma ofUInt8_injective : Function.Injective Char.ofUInt8 := by
  intro a b h
  have hval : a.toUInt32 = b.toUInt32 := congrArg Char.val h
  have hnat := congrArg UInt32.toNat hval
  rw [UInt8.toNat_toUInt32, UInt8.toNat_toUInt32] at hnat
  exact UInt8.toNat_inj.mp hnat

lemma hashWith_injective {known : List (ByteArray × String)} (hnodup : (known.map Prod.snd).Nodup)
    (hraw : ∀ d ∈ known.map Prod.snd, d.toList.head? ≠ some 'r') :
    Function.Injective (hashWith known) := by
  have hfound : ∀ a k, known.find? (fun k => k.1 = a) = some k → k ∈ known ∧ k.1 = a := by
    intro a k hk
    exact ⟨mem_of_find?_eq_some hk, by simpa using find?_some hk⟩
  have htext : ∀ s : String, ("raw:" ++ s).toList.head? = some 'r' := by
    intro s
    rw [String.toList_append]
    rfl
  have hdigest : ∀ a k s, known.find? (fun k => k.1 = a) = some k → k.2 ≠ "raw:" ++ s := by
    intro a k s hk heq
    exact hraw k.2 (mem_map_of_mem (hfound a k hk).1) (heq ▸ htext s)
  intro a b h
  rw [hashWith, hashWith] at h
  cases ha : known.find? fun k => k.1 = a with
  | some k =>
    rw [ha] at h
    cases hb : known.find? fun k => k.1 = b with
    | some k' =>
      rw [hb] at h
      obtain rfl : k = k' :=
        inj_on_of_nodup_map hnodup (hfound a k ha).1 (hfound b k' hb).1 h
      exact (hfound a k ha).2.symm.trans (hfound b k hb).2
    | none =>
      rw [hb] at h
      exact absurd h (hdigest a k _ ha)
  | none =>
    rw [ha] at h
    cases hb : known.find? fun k => k.1 = b with
    | some k' =>
      rw [hb] at h
      exact absurd h.symm (hdigest b k' _ hb)
    | none =>
      rw [hb] at h
      have hlist := String.ofList_inj.mp ((String.append_right_inj "raw:").mp h)
      exact ByteArray.ext (Array.toList_inj.mp (map_injective_iff.mpr ofUInt8_injective hlist))

def sampleHash : ByteArray → String :=
  hashWith [("old".toUTF8, "cba06b5736faf67e54b07b561eae94395e774c517a7d910a54369e1263ccfbd4"),
    ("new".toUTF8, "11507a0e2f5e69d5dfa40a62a1bd7b6ee57e6bcd85c67c9b8431b36fff21c437")]

def sampleExternals : Externals := ⟨sampleHash, fun _ => none⟩

lemma sampleHash_injective : Function.Injective sampleHash :=
  hashWith_injective (by decide) (by decide)

def plainServer : Server where
  modern := true
  stores := fun _ m body => some ⟨m.title.getD "", m.tier.getD defaultTier, m.pinned, .null, body⟩
  etag := fun _ _ _ => none

def emptyRepo : Repo := ⟨∅, by simp⟩

def emptyPages : Pages := ⟨∅, 0, by simp⟩

def sampleArgs : SyncArgs :=
  ⟨"http://127.0.0.1:49374", "default", "wiki", ["notes"], false, none, true, defaultMaxDeletes⟩

def deletedWorld : World where
  repo := emptyRepo.put "notes/a.md" (.file "old".toUTF8)
  pages := emptyPages
  state := some { pages := AList.singleton "notes/a.md" ⟨sampleHash "old".toUTF8, none, none⟩ }

/-- Somebody saves the file after it was planned, before the sync reads it again:
the edit is seen and the file left for the next run. -/
def saveBeforeRead : List (List Edit × Fate) :=
  List.replicate 4 ([], .served) ++
    [([.putFile "notes/a.md" "new".toUTF8], .served), ([], .served)]

theorem no_lost_update_raced :
    Function.Injective sampleExternals.sha256Hex ∧ sampleArgs.prefer = none ∧
      (sync sampleExternals plainServer sampleArgs .apply deletedWorld saveBeforeRead).result
        = some (.error (.raced ["notes/a.md"])) ∧
      (sync sampleExternals plainServer sampleArgs .apply deletedWorld
        saveBeforeRead).final.repo.entries.lookup "notes/a.md" = some (.file "new".toUTF8) ∧
      NoLostUpdate sampleExternals (sampleArgs.baseline deletedWorld.state) deletedWorld
        (sync sampleExternals plainServer sampleArgs .apply deletedWorld saveBeforeRead) :=
  ⟨sampleHash_injective, rfl, by decide, by decide,
    no_lost_update sampleExternals plainServer sampleHash_injective sampleArgs rfl .apply
      deletedWorld saveBeforeRead⟩

/-- Somebody saves the file between the sync's last read of it and the delete. -/
def saveInWindow : List (List Edit × Fate) :=
  List.replicate 5 ([], .served) ++
    [([.putFile "notes/a.md" "new".toUTF8], .served), ([], .served)]

/-- An edit in the window of a file delete goes with the file. -/
theorem edit_in_delete_window_lost :
    Function.Injective sampleExternals.sha256Hex ∧ sampleArgs.prefer = none ∧
      ∃ past ev future,
        (sync sampleExternals plainServer sampleArgs .apply deletedWorld saveInWindow).trace
          = past ++ ev :: future ∧
        EndsFile "notes/a.md" "new".toUTF8 ev ∧
        ¬ (sampleArgs.baseline deletedWorld.state).Records "notes/a.md"
          (sampleHash "new".toUTF8) ∧
        ¬ RewritesImport sampleExternals past "notes/a.md" "new".toUTF8 ev ∧
        (sync sampleExternals plainServer sampleArgs .apply deletedWorld
          saveInWindow).final.repo.entries.lookup "notes/a.md" = none := by
  refine ⟨sampleHash_injective, rfl,
    (sync sampleExternals plainServer sampleArgs .apply deletedWorld saveInWindow).trace.take 6,
    .own (.removeFile "notes/a.md") (.ok ()) _ _,
    (sync sampleExternals plainServer sampleArgs .apply deletedWorld saveInWindow).trace.drop 7,
    rfl, ⟨rfl, ?_⟩, ?_, ?_, ?_⟩
  · decide
  · rintro ⟨entry, hentry, hhash⟩
    obtain rfl : _ = entry := Option.some_inj.mp hentry
    exact absurd hhash (by decide)
  · rintro ⟨_, _, _, _, _, _, _, -, -, -, -, hcall⟩
    cases hcall
  · decide

end Wikisync
