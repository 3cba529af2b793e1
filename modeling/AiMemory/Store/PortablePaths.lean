/-
Live pages of a project and the files they are.

On a filesystem that folds case, or normalises Unicode, two paths can be one
file.  A page write and a merge refuse to make two live pages of a project share
a portable key.  A session move asks about the exact path only: it can bring
`sessions/7.md` beside a live `Sessions/7.md`.
-/
import AiMemory.Store.DbInvariant

open Table Runs List

namespace Database

open Store Projects

/-- No two heads of a project share a portable path. -/
def PortablePaths (K : PageCodec) (pages : List PageRow) : Prop :=
  ∀ a ∈ pages, ∀ b ∈ pages, a.isLatest = true → b.isLatest = true → a.projectId = b.projectId →
    K.portablePageKey a.path = K.portablePageKey b.path → a.id = b.id

instance decidablePortablePaths (K : PageCodec) (pages : List PageRow) :
    Decidable (PortablePaths K pages) :=
  inferInstanceAs (Decidable (∀ a ∈ pages, ∀ b ∈ pages, a.isLatest = true → b.isLatest = true →
    a.projectId = b.projectId → K.portablePageKey a.path = K.portablePageKey b.path → a.id = b.id))

variable {E : Env} {C : IndexCodec} {K : PageCodec} {db db' : Database} {s s' : Store}
  {rows : List PageRow} {row : PageRow} {page : NewPage} {id id' : PageId} {now : ℤ} {tie : ℕ}

/-! ### Page writes -/

theorem PortablePaths.of_rows {rows' : List PageRow} (h : PortablePaths K rows)
    (hfrom : ∀ a' ∈ rows', ∃ a ∈ rows, a'.id = a.id ∧ a'.projectId = a.projectId ∧
      a'.path = a.path ∧ (a'.isLatest → a.isLatest)) : PortablePaths K rows' := by
  intro a' ha' b' hb' hal hbl hproj hkey
  obtain ⟨a, ha, haid, haproj, hapath, halatest⟩ := hfrom a' ha'
  obtain ⟨b, hb, hbid, hbproj, hbpath, hblatest⟩ := hfrom b' hb'
  rw [haid, hbid]
  refine h a ha b hb (halatest hal) (hblatest hbl) ?_ ?_
  · rw [← haproj, ← hbproj, hproj]
  · rw [← hapath, ← hbpath, hkey]

lemma PortablePaths.fade (h : PortablePaths K s.pages) (hfade : Fades s.pages rows) :
    PortablePaths K rows := by
  refine h.of_rows fun a' ha' => ?_
  obtain ⟨a, ha, hid, hplace, hlatest⟩ := hfade.2 a' ha'
  rw [PageRow.place_eq_iff] at hplace
  exact ⟨a, ha, hid, hplace.2.1, hplace.2.2, hlatest⟩

lemma PortablePaths.insert (h : PortablePaths K rows)
    (hnew : ∀ a ∈ rows, a.isLatest = true → a.projectId = row.projectId →
      K.portablePageKey a.path ≠ K.portablePageKey row.path) : PortablePaths K (rows ++ [row]) := by
  intro a ha b hb hal hbl hproj hkey
  rcases mem_append.mp ha with ha | ha
  · rcases mem_append.mp hb with hb | hb
    · exact h a ha b hb hal hbl hproj hkey
    · rw [mem_singleton.mp hb] at hproj hkey
      exact absurd hkey (hnew a ha hal hproj)
  · rcases mem_append.mp hb with hb | hb
    · rw [mem_singleton.mp ha] at hproj hkey
      exact absurd hkey.symm (hnew b hb hbl hproj.symm)
    · rw [mem_singleton.mp ha, mem_singleton.mp hb]

structure PathInv (K : PageCodec) (s : Store) : Prop where
  filed : Filed s
  projectIds : KeyUnique ProjectRow.id s.projects
  portable : PortablePaths K s.pages

lemma PathInv.fade (h : PathInv K s) (hfade : Fades s.pages rows) :
    PathInv K { s with pages := rows } :=
  ⟨h.filed.fade hfade, h.projectIds, h.portable.fade hfade⟩

variable {ws : WorkspaceId} {proj source target : ProjectId} {pages : List MergeProjectPage}
  {r : SessionRow} {op : DbOp}

lemma PathInv.home_eq (h : PathInv K s)
    (hpaired : s.paired ws proj) {r : PageRow} (hr : r ∈ s.pages)
    (hproj : r.projectId = proj) : r.workspaceId = ws := by
  obtain ⟨p, hp, hmatch⟩ := any_eq_true.mp hpaired
  rw [Bool.and_eq_true, decide_eq_true_eq, decide_eq_true_eq] at hmatch
  have heq := h.projectIds.eq (h.filed.homed r hr) hp (hproj.trans hmatch.1.symm)
  rw [← hmatch.2, ← heq]

lemma collidingLivePath_none (h : collidingLivePath K s page = none) {r : PageRow}
    (hr : r ∈ s.pages) (hws : r.workspaceId = page.workspaceId)
    (hproj : r.projectId = page.projectId) (hlatest : r.isLatest)
    (hpath : r.path ≠ page.path) : K.portablePageKey r.path ≠ K.portablePageKey page.path := by
  rw [collidingLivePath, Option.map_eq_none_iff, find?_eq_none] at h
  intro hkey
  exact h r hr (by simp [hws, hproj, hlatest, hpath, hkey])

lemma unbury_paired (s : Store) (tombstone : Option PageRow) :
    (tombstone.elim s fun r => s.unbury r.id).paired ws proj = s.paired ws proj := by
  cases tombstone <;> rfl

lemma PathInv.upsert (h : PathInv K s) (hok : upsertPage K s page id now tie = .ok (id', s')) :
    PathInv K s' := by
  have hprojects : KeyUnique ProjectRow.id s'.projects := by
    rw [upsertPage_frame hok]
    exact h.projectIds
  refine ⟨h.filed.upsert hok, hprojects, ?_⟩
  rcases upsertPage_ok hok with ⟨existing, -, -, -, rfl⟩ | ⟨existing, hlatest, -, hins⟩ |
    ⟨hlatest, hfree, -, hins⟩
  · exact h.portable
  · obtain ⟨hmem, hplace, hlive⟩ := latestAt_some hlatest
    rw [PageRow.place, Prod.mk.injEq, Prod.mk.injEq] at hplace
    rw [(insertPage_ok hins).1]
    refine (h.portable.fade (fades_retire s existing.id now)).insert fun a' ha' hal hproj hkey => ?_
    -- the only live version with this key was the one that is closed
    obtain ⟨a, ha, rfl⟩ := mem_update.mp ha'
    by_cases hid : a.id = existing.id
    · simp [hid] at hal
    · simp only [hid, decide_false, Bool.false_eq_true, if_false] at hal hproj hkey
      refine hid (h.portable a ha existing hmem hal hlive ?_ ?_)
      · rw [hproj, hplace.2.1]
        rfl
      · rw [hkey, hplace.2.2]
        rfl
  · have hfades := fades_unbury s (s.mostRecentTombstoneAtPath page tie)
    obtain ⟨hpaired, hs'⟩ := insertPage_frame hins
    have hbase : s.paired page.workspaceId page.projectId :=
      (unbury_paired s (s.mostRecentTombstoneAtPath page tie)).symm.trans hpaired
    rw [hs']
    refine (h.portable.fade hfades).insert fun a' ha' hal hproj => ?_
    obtain ⟨a, ha, -, hplace, halatest⟩ := hfades.2 a' ha'
    have hplace' := PageRow.place_eq_iff.mp hplace
    have haproj : a.projectId = page.projectId := hplace'.2.1.symm.trans hproj
    have haws : a.workspaceId = page.workspaceId := h.home_eq hbase ha haproj
    rw [hplace'.2.2]
    refine collidingLivePath_none hfree ha haws haproj (halatest hal) fun hpath => ?_
    have hdead := latestAt_none hlatest a ha (by rw [PageRow.place, haws, haproj, hpath])
    rw [halatest hal] at hdead
    cases hdead

/-! ### Merges and moves -/

theorem Accepted.not_clashing (hacc : Accepted C db ws source target pages)
    (hids : KeyUnique PageRow.id db.store.pages) {a b : PageRow} (ha : a ∈ db.store.pages)
    (hal : a.isLatest) (hasource : a.projectId = source) (hb : b ∈ db.store.pages)
    (hbl : b.isLatest) (hbtarget : b.projectId = target)
    (hkey : C.portablePageKey a.path = C.portablePageKey b.path) : a.path = b.path := by
  obtain ⟨page, hpage, hsourceId⟩ := hacc.complete a (mem_latestOf.mpr ⟨ha, hasource, hal⟩)
  obtain ⟨r, hr, hrid, hrpath⟩ := (hacc.planned page hpage).sourced
  have hra : r = a := hids.eq (mem_latestOf.mp hr).1 ha (hrid.trans hsourceId)
  rw [hra] at hrpath
  by_contra hne
  refine hacc.portable page hpage b (mem_latestOf.mpr ⟨hb, hbtarget, hbl⟩) ?_ ?_
  · rw [← hrpath]
    exact fun heq => hne heq.symm
  · rw [← hrpath, hkey]

lemma Sound.pathInv (h : Sound db) (hp : PortablePaths K db.store.pages) : PathInv K db.store :=
  ⟨h.filed, h.projectIds, hp⟩

lemma portable_restamped (h : Sound db) (hp : PortablePaths C.toPageCodec db.store.pages)
    (hacc : Accepted C db ws source target pages)
    (hplaces : (latestPlaces (restampedPages db.store.pages source target pages now)).Nodup) :
    PortablePaths C.toPageCodec (restampedPages db.store.pages source target pages now) := by
  intro a' ha' b' hb' hal hbl hproj hkey
  obtain ⟨a, ha, haid, haws, hapath, halatest, haproj⟩ := restampedPages_mem ha'
  obtain ⟨b, hb, hbid, hbws, hbpath, hblatest, hbproj⟩ := restampedPages_mem hb'
  have hold : a.projectId = b.projectId → a'.id = b'.id := by
    intro hsame
    rw [haid, hbid]
    exact hp a ha b hb (halatest hal) (hblatest hbl) hsame (by rw [← hapath, ← hbpath, hkey])
  -- versions of source and target that share a key are at one path of one scope
  have hcross : a'.path = b'.path → a'.workspaceId = b'.workspaceId → a'.id = b'.id := by
    intro hpath hws
    have heq := latestPlaces_inj hplaces ha' hb' hal hbl
      (PageRow.place_eq_iff.mpr ⟨hws, hproj, hpath⟩)
    rw [heq]
  have hws : ∀ r ∈ db.store.pages, r.projectId = source ∨ r.projectId = target →
      r.workspaceId = ws := by
    intro r hr hside
    have hhome := h.filed.homed r hr
    rcases hside with hside | hside
    · rw [hside] at hhome
      exact (h.home_eq hacc.sourceThere).2 _ hhome
    · rw [hside] at hhome
      exact (h.home_eq hacc.targetThere).2 _ hhome
  by_cases has : a.projectId = source
  · rw [if_pos has] at haproj
    by_cases hbs : b.projectId = source
    · exact hold (has.trans hbs.symm)
    · rw [if_neg hbs] at hbproj
      have hbt : b.projectId = target := by rw [← hbproj, ← hproj, haproj]
      refine hcross ?_ ?_
      · rw [hapath, hbpath]
        refine hacc.not_clashing h.filed.ids ha (halatest hal) has hb (hblatest hbl) hbt ?_
        rw [← hapath, ← hbpath, hkey]
      · rw [haws, hbws, hws a ha (.inl has), hws b hb (.inr hbt)]
  · rw [if_neg has] at haproj
    by_cases hbs : b.projectId = source
    · rw [if_pos hbs] at hbproj
      have hat : a.projectId = target := by rw [← haproj, hproj, hbproj]
      refine hcross ?_ ?_
      · rw [hapath, hbpath]
        refine (hacc.not_clashing h.filed.ids hb (hblatest hbl) hbs ha (halatest hal) hat ?_).symm
        rw [← hapath, ← hbpath, hkey]
      · rw [haws, hbws, hws a ha (.inr hat), hws b hb (.inl hbs)]
    · rw [if_neg hbs] at hbproj
      exact hold (by rw [← haproj, ← hbproj, hproj])

/-- A move would bring the session's page beside another spelling of it: one
version of it is live and goes along, and the target has a live page of another
path with its key. -/
def respelled (C : IndexCodec) (db : Database) (sid : SessionId) (ws : WorkspaceId)
    (proj : ProjectId) : Bool :=
  match db.store.findSession sid with
  | none => false
  | some r =>
    db.present ws proj
      && decide (db.store.pages.countP (fun p => handles r ws proj p && p.isLatest) = 1)
      && db.store.pages.any fun p => p.projectId = proj && p.isLatest
        && p.path ≠ sessionPagePath r.id
        && C.portablePageKey p.path = C.portablePageKey (sessionPagePath r.id)

def MoveClean (C : IndexCodec) (db : Database) : DbOp → Prop
  | .moveSession sid ws proj .move true _ => db.respelled C sid ws proj = false
  | _ => True

lemma respelled_iff {sid : SessionId} :
    db.respelled C sid ws proj ↔ ∃ r, db.store.findSession sid = some r ∧
      db.present ws proj ∧
      db.store.pages.countP (fun p => handles r ws proj p && p.isLatest) = 1 ∧
      ∃ b ∈ db.store.pages, b.projectId = proj ∧ b.isLatest ∧ b.path ≠ sessionPagePath r.id ∧
        C.portablePageKey b.path = C.portablePageKey (sessionPagePath r.id) := by
  rw [respelled]
  cases hfind : db.store.findSession sid with
  | none => simp
  | some r => simp [and_assoc]

lemma handles_path {p : PageRow}
    (h : handles r ws proj p) : p.path = sessionPagePath r.id := by
  rw [handles, Bool.and_eq_true, decide_eq_true_eq] at h
  exact h.1

def movedPages (rows : List PageRow) (r : SessionRow) (ws : WorkspaceId) (proj : ProjectId) :
    List PageRow :=
  update (handles r ws proj)
    (fun p => { p with
      workspaceId := ws
      projectId := proj }) rows

lemma movedPages_mem {p' : PageRow} (hp' : p' ∈ movedPages rows r ws proj) :
    ∃ p ∈ rows, p'.id = p.id ∧ p'.path = p.path ∧ p'.isLatest = p.isLatest ∧
      (handles r ws proj p ∧ p'.workspaceId = ws ∧ p'.projectId = proj ∨
        handles r ws proj p = false ∧ p' = p) := by
  obtain ⟨p, hp, rfl⟩ := mem_update.mp hp'
  refine ⟨p, hp, ?_⟩
  cases hh : handles r ws proj p with
  | true => exact ⟨rfl, rfl, rfl, .inl ⟨rfl, rfl, rfl⟩⟩
  | false => exact ⟨rfl, rfl, rfl, .inr ⟨rfl, rfl⟩⟩

lemma portable_moved (h : Sound db) (hp : PortablePaths K db.store.pages)
    (hthere : db.present ws proj) (hpages : movePages db.store.pages r ws proj = .ok rows)
    (hclean : ∀ a ∈ db.store.pages, handles r ws proj a = true → a.isLatest →
      ∀ b ∈ db.store.pages, b.projectId = proj → b.isLatest → b.path ≠ sessionPagePath r.id →
        K.portablePageKey b.path ≠ K.portablePageKey (sessionPagePath r.id)) :
    PortablePaths K rows := by
  obtain ⟨hrows, hfree, -, hplaces⟩ := movePages_ok hpages
  -- a version that goes along against one that is there
  have hbeside : ∀ a ∈ db.store.pages, handles r ws proj a = true → a.isLatest →
      ∀ b ∈ db.store.pages, b.projectId = proj → b.isLatest →
        K.portablePageKey a.path ≠ K.portablePageKey b.path := by
    intro a ha hah hal b hb hbproj hbl hkey
    rw [handles_path hah] at hkey
    by_cases hbpath : b.path = sessionPagePath r.id
    · have hhome := h.filed.homed b hb
      rw [hbproj] at hhome
      have hbws := (h.home_eq hthere).2 _ hhome
      have hdead := hfree b hb (by rw [PageRow.place, hbws, hbproj, hbpath])
      rw [hbl] at hdead
      cases hdead
    · exact hclean a ha hah hal b hb hbproj hbl hbpath hkey.symm
  rw [hrows]
  rw [hrows] at hplaces
  intro a' ha' b' hb' hal hbl hproj hkey
  obtain ⟨a, ha, haid, hapath, halatest, haside⟩ := movedPages_mem ha'
  obtain ⟨b, hb, hbid, hbpath, hblatest, hbside⟩ := movedPages_mem hb'
  rw [hapath, hbpath] at hkey
  rcases haside with ⟨hah, haws, haproj⟩ | ⟨-, rfl⟩
  · rcases hbside with ⟨hbh, hbws, hbproj⟩ | ⟨-, rfl⟩
    · -- both go along, to one path of one scope
      have hsame : a'.path = b'.path := by rw [hapath, hbpath, handles_path hah, handles_path hbh]
      have heq := latestPlaces_inj hplaces ha' hb' hal hbl
        (PageRow.place_eq_iff.mpr ⟨haws.trans hbws.symm, hproj, hsame⟩)
      rw [heq]
    · exact absurd hkey (hbeside a ha hah (halatest ▸ hal) b' hb (hproj ▸ haproj) hbl)
  · rcases hbside with ⟨hbh, hbws, hbproj⟩ | ⟨-, rfl⟩
    · exact absurd hkey.symm (hbeside b hb hbh (hblatest ▸ hbl) a' ha (hproj.trans hbproj) hal)
    · exact hp a' ha b' hb hal hbl hproj hkey

lemma Sound.portable_change (h : Sound db) (hp : PortablePaths C.toPageCodec db.store.pages)
    (hclean : MoveClean C db op) (hchange : PageChange C db op db') :
    PortablePaths C.toPageCodec db'.store.pages := by
  cases hchange with
  | fade _ hpages => exact hp.fade hpages
  | upsert hok => exact ((h.pathInv hp).upsert hok).portable
  | registry hpages _ =>
    rw [hpages]
    exact hp
  | @merge n ws source target pages now draws db' index index' hacc hindex hplaces hkept hfold
      hpages hrows =>
    have hmoved : PathInv C.toPageCodec index.store := by
      have hfiled : Filed index.store := h.filed_restamped hacc hindex hplaces hkept
      refine ⟨hfiled, hkept.symm ▸ h.projectIds, ?_⟩
      rw [hindex] at hplaces ⊢
      exact portable_restamped h hp hacc hplaces
    have hdone : PathInv C.toPageCodec index'.store := mergedVersions_keep
      (fun _ _ _ _ _ _ _ hs hok => hs.upsert hok) (fun _ _ hs hfade => hs.fade hfade) hmoved hfold
    rw [hpages]
    exact hdone.portable
  | moveProject hpages _ _ _ =>
    rw [hpages]
    refine hp.of_rows fun a' ha' => ?_
    obtain ⟨a, ha, rfl⟩ := mem_update.mp ha'
    refine ⟨a, ha, ?_⟩
    split <;> exact ⟨rfl, rfl, rfl, fun hl => hl⟩
  | @moveSession sid ws proj now _ r hfind hthere hpages hrows =>
    refine portable_moved h hp hthere hpages ?_
    intro a ha hah hal b hb hbproj hbl hbpath hkey
    -- one version goes along, so the guard has looked at the target
    have hcount : db.store.pages.countP (fun p => handles r ws proj p && p.isLatest) = 1 := by
      have hle := (movePages_ok hpages).2.2.1
      have hpos : 0 < db.store.pages.countP (fun p => handles r ws proj p && p.isLatest) :=
        countP_pos_iff.mpr ⟨a, ha, by rw [hah, hal]; rfl⟩
      omega
    have hre : db.respelled C sid ws proj :=
      respelled_iff.mpr ⟨r, hfind, hthere, hcount, b, hb, hbproj, hbl, hbpath, hkey⟩
    rw [MoveClean, hre] at hclean
    cases hclean

lemma latestPlaces_nodup (hids : KeyUnique PageRow.id rows)
    (h : ∀ a ∈ rows, ∀ b ∈ rows, a.isLatest = true → b.isLatest → a.place = b.place →
      a.id = b.id) : (latestPlaces rows).Nodup := by
  have hrows : rows.Nodup := List.Nodup.of_map PageRow.id hids
  refine List.Nodup.map_on ?_ (hrows.filter _)
  intro a ha b hb hplace
  rw [mem_filter] at ha hb
  exact hids.eq ha.1 hb.1 (h a ha.1 b hb.1 ha.2 hb.2 hplace)

lemma eq_of_countP_one {p : PageRow → Bool} (hcount : rows.countP p = 1) {a b : PageRow}
    (ha : a ∈ rows) (hb : b ∈ rows) (hpa : p a) (hpb : p b) : a = b := by
  rw [countP_eq_length_filter, length_eq_one_iff] at hcount
  obtain ⟨x, hx⟩ := hcount
  have hax : a ∈ rows.filter p := mem_filter.mpr ⟨ha, hpa⟩
  have hbx : b ∈ rows.filter p := mem_filter.mpr ⟨hb, hpb⟩
  rw [hx, mem_singleton] at hax hbx
  rw [hax, hbx]

lemma movePages_of_respelled (h : Sound db) (hp : PortablePaths C.toPageCodec db.store.pages)
    (hcount : db.store.pages.countP (fun p => handles r ws proj p && p.isLatest) = 1)
    {b : PageRow} (hb : b ∈ db.store.pages) (hbproj : b.projectId = proj)
    (hbl : b.isLatest) (hbpath : b.path ≠ sessionPagePath r.id)
    (hkey : C.portablePageKey b.path = C.portablePageKey (sessionPagePath r.id)) :
    movePages db.store.pages r ws proj = .ok (movedPages db.store.pages r ws proj) := by
  -- a live page at the exact path would clash with `b` already
  have hfree : ∀ c ∈ db.store.pages, c.isLatest = true → c.projectId = proj →
      c.path ≠ sessionPagePath r.id := by
    intro c hc hcl hcproj hcpath
    have hid := hp c hc b hb hcl hbl (hcproj.trans hbproj.symm) (by rw [hcpath]; exact hkey.symm)
    rw [h.filed.ids.eq hc hb hid] at hcpath
    exact hbpath hcpath
  have hplaces : (latestPlaces (movedPages db.store.pages r ws proj)).Nodup := by
    refine latestPlaces_nodup (h.filed.ids.update fun _ => rfl) ?_
    intro x' hx' y' hy' hxl hyl hplace
    obtain ⟨x, hx, hxid, hxpath, hxlatest, hxside⟩ := movedPages_mem hx'
    obtain ⟨y, hy, hyid, hypath, hylatest, hyside⟩ := movedPages_mem hy'
    rw [PageRow.place_eq_iff] at hplace
    rcases hxside with ⟨hxh, hxws, hxproj⟩ | ⟨-, rfl⟩
    · rcases hyside with ⟨hyh, hyws, hyproj⟩ | ⟨-, rfl⟩
      · rw [hxid, hyid, eq_of_countP_one hcount hx hy (by rw [hxh, ← hxlatest, hxl]; rfl)
          (by rw [hyh, ← hylatest, hyl]; rfl)]
      · refine absurd ?_ (hfree y' hy hyl (by rw [← hplace.2.1, hxproj]))
        rw [← hplace.2.2, hxpath, handles_path hxh]
    · rcases hyside with ⟨hyh, hyws, hyproj⟩ | ⟨-, rfl⟩
      · refine absurd ?_ (hfree x' hx hxl (by rw [hplace.2.1, hyproj]))
        rw [hplace.2.2, hypath, handles_path hyh]
      · exact hp x' hx y' hy hxl hyl hplace.2.1 (by rw [hplace.2.2])
  have htaken : (db.store.pages.any fun p =>
      atPath ws proj (sessionPagePath r.id) p && p.isLatest) = false := by
    rw [any_eq_false]
    intro c hc hboth
    rw [Bool.and_eq_true, atPath_iff, PageRow.place, Prod.mk.injEq, Prod.mk.injEq] at hboth
    exact hfree c hc hboth.2 hboth.1.2.1 hboth.1.2.2
  rw [movePages, htaken, hcount]
  exact if_pos hplaces

lemma moveSession_clashes (h : Sound db) (hp : PortablePaths E.codec.toPageCodec db.store.pages)
    {sid : SessionId} (hre : db.respelled E.codec sid ws proj) :
    ¬ PortablePaths E.codec.toPageCodec
      (dbStep E db (.moveSession sid ws proj .move true now)).store.pages := by
  obtain ⟨r, hfind, hthere, hcount, b, hb, hbproj, hbl, hbpath, hkey⟩ := respelled_iff.mp hre
  have hpages := movePages_of_respelled (C := E.codec) h hp hcount hb hbproj hbl hbpath hkey
  obtain ⟨a, ha, hboth⟩ := countP_pos_iff.mp (hcount ▸ Nat.one_pos)
  rw [Bool.and_eq_true] at hboth
  obtain ⟨index, hindex, hrows⟩ : ∃ index, moveSessionPages (moveSessionRows db r ws proj).index r ws
      proj .move now = .ok index ∧ index.store.pages = movedPages db.store.pages r ws proj := by
    have hany : ((moveSessionRows db r ws proj).index.store.pages.any (handles r ws proj)) =
        true := any_eq_true.mpr ⟨a, ha, hboth.1⟩
    have hmoved : movePages (moveSessionRows db r ws proj).index.store.pages r ws proj =
        .ok (movedPages db.store.pages r ws proj) := hpages
    refine ⟨{ (moveSessionRows db r ws proj).index with
      store := { (moveSessionRows db r ws proj).index.store with
        pages := movedPages db.store.pages r ws proj } }, ?_, rfl⟩
    rw [moveSessionPages, hany]
    simp only [Bool.not_true, Bool.false_eq_true, if_false]
    rw [hmoved]
    rfl
  obtain ⟨summary, hmove⟩ := moveSession_of_pages true hfind hthere hindex
  have hdone : (dbStep E db (.moveSession sid ws proj .move true now)).store.pages =
      movedPages db.store.pages r ws proj := by
    rw [dbStep, hmove]
    exact hrows
  rw [hdone]
  intro hportable
  -- the page that went along, beside `b`
  have ha' : { a with
      workspaceId := ws
      projectId := proj } ∈ movedPages db.store.pages r ws proj :=
    mem_update_of_match ha hboth.1
  have hbh : handles r ws proj b = false := by
    rw [Bool.eq_false_iff]
    exact fun hh => hbpath (handles_path hh)
  have hb' : b ∈ movedPages db.store.pages r ws proj := mem_update_of_not hb hbh
  have hid := hportable _ ha' b hb' hboth.2 hbl hbproj.symm (by rw [hkey, ← handles_path hboth.1])
  have hab : a = b := h.filed.ids.eq ha hb hid
  rw [hab, hbh] at hboth
  exact absurd hboth.1 (by simp)

/-- The operation would bring a live page beside another one with its key: an
upsert of a path, a merge of two live paths, a move of a session's page. -/
def WouldClash (C : IndexCodec) (db : Database) : DbOp → Prop
  | .pages _ (.upsert page ..) => ∃ r ∈ db.store.pages, r.isLatest = true ∧
    r.projectId = page.projectId ∧ r.path ≠ page.path ∧
      C.portablePageKey r.path = C.portablePageKey page.path
  | .mergeProject _ _ source target .. => ∃ a ∈ db.store.pages, ∃ b ∈ db.store.pages,
    a.isLatest = true ∧ a.projectId = source ∧ b.isLatest = true ∧ b.projectId = target ∧
      a.path ≠ b.path ∧ C.portablePageKey a.path = C.portablePageKey b.path
  | .moveSession sid ws proj .move true _ => ∃ r, db.store.findSession sid = some r ∧
    ∃ a ∈ db.store.pages, ∃ b ∈ db.store.pages, handles r ws proj a = true ∧ a.isLatest = true ∧
      handles r ws proj b = false ∧ b.isLatest = true ∧ b.projectId = proj ∧
      C.portablePageKey a.path = C.portablePageKey b.path
  | _ => False

def Fails (E : Env) (db : Database) : DbOp → Prop
  | .pages n (.upsert page id now entityNow tie mint) =>
    ∃ e, upsertPageIndexed n E.codec db.index page id now entityNow tie mint = .error e
  | .mergeProject n ws source target pages commit now draws =>
    ∃ e, Database.mergeProject E.codec n db ws source target pages commit now draws = .error e
  | .moveSession sid ws proj mode commit now =>
    ∃ e, db.moveSession sid ws proj mode commit now = .error e
  | _ => False

lemma dbStep_of_fails (h : Fails E db op) : dbStep E db op = db := by
  cases op with
  | pages n op =>
    cases op with
    | upsert page id now entityNow tie mint =>
      obtain ⟨e, he⟩ := h
      rw [dbStep, indexStep, he]
    | _ => cases h
  | mergeProject n ws source target pages commit now draws
  | moveSession sid ws proj mode commit now =>
    obtain ⟨e, he⟩ := h
    rw [dbStep, he]
    rfl
  | _ => cases h

lemma fails_of_not_ok {α ε : Type} {x : Except ε α} (h : ∀ a, x ≠ .ok a) : ∃ e, x = .error e := by
  cases x with
  | error e => exact ⟨e, rfl⟩
  | ok a => exact absurd rfl (h a)

lemma PathInv.upsert_refused (h : PathInv K s) {r : PageRow} (hr : r ∈ s.pages)
    (hlive : r.isLatest) (hproj : r.projectId = page.projectId) (hpath : r.path ≠ page.path)
    (hkey : K.portablePageKey r.path = K.portablePageKey page.path) :
    upsertPage K s page id now tie ≠ .ok (id', s') := by
  intro hok
  have hsome : ∀ existing, s.latestAt page.workspaceId page.projectId page.path = some existing →
      False := by
    intro existing hlatest
    obtain ⟨hmem, hplace, hel⟩ := latestAt_some hlatest
    rw [PageRow.place, Prod.mk.injEq, Prod.mk.injEq] at hplace
    have hid := h.portable r hr existing hmem hlive hel (hproj.trans hplace.2.1.symm)
      (by rw [hkey, hplace.2.2])
    rw [h.filed.ids.eq hr hmem hid] at hpath
    exact hpath hplace.2.2
  rcases upsertPage_ok hok with ⟨existing, hlatest, -⟩ | ⟨existing, hlatest, -⟩ |
    ⟨hlatest, hfree, -, hins⟩
  · exact hsome existing hlatest
  · exact hsome existing hlatest
  · have hpaired : s.paired page.workspaceId page.projectId :=
      (unbury_paired s (s.mostRecentTombstoneAtPath page tie)).symm.trans (insertPage_frame hins).1
    exact collidingLivePath_none hfree hr (h.home_eq hpaired hr hproj) hproj hlive hpath hkey

lemma fails_of_wouldClash (h : Sound db) (hp : PortablePaths E.codec.toPageCodec db.store.pages)
    (hclean : MoveClean E.codec db op) (hclash : WouldClash E.codec db op) :
    Fails E db op := by
  cases op with
  | pages n op =>
    cases op with
    | upsert page id now entityNow tie mint =>
      obtain ⟨r, hr, hlive, hproj, hpath, hkey⟩ := hclash
      refine fails_of_not_ok fun out hok => ?_
      obtain ⟨id', d'⟩ := out
      exact (h.pathInv hp).upsert_refused hr hlive hproj hpath hkey (upsertPageIndexed_ok hok).1
    | _ => cases hclash
  | mergeProject n ws source target pages commit now draws =>
    obtain ⟨a, ha, b, hb, hal, hasource, hbl, hbtarget, hne, hkey⟩ := hclash
    refine fails_of_not_ok fun out hok => ?_
    obtain ⟨summary, db'⟩ := out
    obtain ⟨hacc, -⟩ := mergeProject_ok hok
    exact hne (hacc.not_clashing h.filed.ids ha hal hasource hb hbl hbtarget hkey)
  | moveSession sid ws proj mode commit now =>
    cases mode with
    | regenerate => cases hclash
    | move =>
      cases commit with
      | false => cases hclash
      | true =>
        obtain ⟨r, hfind, a, ha, b, hb, hah, hal, hbh, hbl, hbproj, hkey⟩ := hclash
        refine fails_of_not_ok fun out hok => ?_
        obtain ⟨summary, db'⟩ := out
        obtain ⟨r', hfind', hthere, index, hindex, -⟩ := moveSession_ok hok
        rw [hfind, Option.some.injEq] at hfind'
        subst hfind'
        have hany : ((moveSessionRows db r ws proj).index.store.pages.any
            (handles r ws proj)) := any_eq_true.mpr ⟨a, ha, hah⟩
        rw [moveSessionPages, hany] at hindex
        obtain ⟨rows, hrows, -⟩ := bind_ok.mp hindex
        have hmoved : movePages db.store.pages r ws proj = .ok rows := hrows
        obtain ⟨-, hfree, hcount, -⟩ := movePages_ok hmoved
        rw [handles_path hah] at hkey
        by_cases hbpath : b.path = sessionPagePath r.id
        · -- the exact path is taken
          have hhome := h.filed.homed b hb
          rw [hbproj] at hhome
          have hbws := (h.home_eq hthere).2 _ hhome
          have hdead := hfree b hb (by rw [PageRow.place, hbws, hbproj, hbpath])
          rw [hbl] at hdead
          cases hdead
        · have hpos : 0 < db.store.pages.countP (fun p => handles r ws proj p && p.isLatest) :=
            countP_pos_iff.mpr ⟨a, ha, by rw [hah, hal]; rfl⟩
          have hre : db.respelled E.codec sid ws proj :=
            respelled_iff.mpr ⟨r, hfind, hthere, by omega, b, hb, hbproj, hbl, hbpath, hkey.symm⟩
          rw [MoveClean, hre] at hclean
          cases hclean
  | _ => cases hclash

/-- Along the run no two live pages of a project are one file, and an operation
that would make two so fails and changes nothing. -/
structure PortableRun (E : Env) (ops : List DbOp) : Prop where
  unique : ∀ as bs, ops = as ++ bs →
    PortablePaths E.codec.toPageCodec (exec (dbStep E) empty as).store.pages
  refused : ∀ as op bs, ops = as ++ op :: bs →
    WouldClash E.codec (exec (dbStep E) empty as) op →
    Fails E (exec (dbStep E) empty as) op ∧
      exec (dbStep E) empty (as ++ [op]) = exec (dbStep E) empty as

lemma dbStep_paths (h : Sound db) (hp : PortablePaths E.codec.toPageCodec db.store.pages)
    (op : DbOp) :
    PortablePaths E.codec.toPageCodec (dbStep E db op).store.pages ↔ MoveClean E.codec db op := by
  constructor
  · intro hnext
    unfold MoveClean
    split
    · rw [← Bool.not_eq_true]
      exact fun hre => moveSession_clashes h hp hre hnext
    · trivial
  · exact fun hclean => h.portable_change hp hclean
      (dbStep_change h.registry h.projects h.entityIds op)

/-- A run keeps the paths of live pages portable exactly when no session move in
it brings a page beside another spelling of it. -/
theorem portable_paths_iff (E : Env) (ops : List DbOp) :
    PortableRun E ops ↔ Guarded (dbStep E) (MoveClean E.codec) empty ops := by
  have hempty : Sound empty ∧ PortablePaths E.codec.toPageCodec empty.store.pages :=
    ⟨sound_empty, fun a ha => absurd ha not_mem_nil⟩
  have hstep : ∀ db op, (Sound db ∧ PortablePaths E.codec.toPageCodec db.store.pages) →
      MoveClean E.codec db op → Sound (dbStep E db op) ∧
        PortablePaths E.codec.toPageCodec (dbStep E db op).store.pages :=
    fun db op h hclean => ⟨dbStep_sound h.1 op, (dbStep_paths h.1 h.2 op).mpr hclean⟩
  have hprefixes := prefixes_iff_guarded
    (P := fun db : Database => PortablePaths E.codec.toPageCodec db.store.pages)
    (fun _ h => h.2) hstep (fun db op h => (dbStep_paths h.1 h.2 op).mp) hempty ops
  constructor
  · exact fun h => hprefixes.mp h.unique
  · intro hguarded
    refine ⟨hprefixes.mpr hguarded, fun as op bs hsplit hclash => ?_⟩
    rw [hsplit, guarded_append, guarded_cons] at hguarded
    obtain ⟨has, hclean, -⟩ := hguarded
    obtain ⟨hsound, hportable⟩ := exec_guarded_invariant hstep hempty has
    have hfails := fails_of_wouldClash hsound hportable hclean hclash
    refine ⟨hfails, ?_⟩
    rw [exec_append, exec_cons, exec_nil]
    exact dbStep_of_fails hfails

/-- Session 7 of project 1 has its page there; project 2 has a live page that is
spelled otherwise, and the session moves to it. -/
def respelledMove : List DbOp :=
  [.registry (.getOrCreateWorkspace "default" 0),
    .registry (.getOrCreateProjectAs 0 "one" none .open 1),
    .registry (.getOrCreateProjectAs 0 "two" none .open 2),
    .admitEvent (sampleSession 7 1) (sampleObservation 7 1 .userPrompt) .any none none 1 0,
    .pages noNames (.upsert (plainPage 1 "sessions/7.md" "summary") 11 0 0 0 fun _ => 0),
    .pages noNames (.upsert (plainPage 2 "Sessions/7.md" "notes") 12 0 0 0 fun _ => 0),
    .moveSession 7 0 2 .move true 1]

theorem session_page_respelled : ¬ PortableRun sampleEnv respelledMove := by
  intro h
  exact absurd (h.unique respelledMove [] rfl) (by decide +kernel)

end Database
