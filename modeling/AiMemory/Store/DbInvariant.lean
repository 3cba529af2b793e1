/-
What every run of the database keeps.

Pages are where their projects are, ids are keys, and the store sees the
projects the registry holds.  What one operation can do to the pages is said
once (`PageChange`, `dbStep_change`); the invariants of pages follow from it.

* `dbStep_sound`, `sound_run` — every operation and every run keeps it.
-/
import AiMemory.Store.IngestKeys
import AiMemory.Store.ReadFilter

open Table Runs List

namespace Store

lemma PageRow.place_eq_iff {r q : PageRow} : r.place = q.place ↔
    r.workspaceId = q.workspaceId ∧ r.projectId = q.projectId ∧ r.path = q.path := by
  simp [PageRow.place]

def Fades (pages pages' : List PageRow) : Prop :=
  (pages'.map PageRow.id).Sublist (pages.map PageRow.id) ∧
    ∀ r' ∈ pages', ∃ r ∈ pages, r'.id = r.id ∧ r'.place = r.place ∧
      (r'.isLatest = true → r.isLatest = true)

lemma Fades.refl (pages : List PageRow) : Fades pages pages :=
  ⟨List.Sublist.refl _, fun r hr => ⟨r, hr, rfl, rfl, fun h => h⟩⟩

lemma Fades.trans {a b c : List PageRow} (h : Fades a b) (h' : Fades b c) : Fades a c := by
  refine ⟨h'.1.trans h.1, fun r'' hr'' => ?_⟩
  obtain ⟨r', hr', hid', hplace', hlatest'⟩ := h'.2 r'' hr''
  obtain ⟨r, hr, hid, hplace, hlatest⟩ := h.2 r' hr'
  exact ⟨r, hr, hid'.trans hid, hplace'.trans hplace, fun hl => hlatest (hlatest' hl)⟩

lemma fades_update {pages : List PageRow} {p : PageRow → Bool} {f : PageRow → PageRow}
    (hid : ∀ r, (f r).id = r.id) (hplace : ∀ r, (f r).place = r.place)
    (hlatest : ∀ r, (f r).isLatest = true → r.isLatest) : Fades pages (update p f pages) := by
  refine ⟨by rw [map_update hid], fun r' hr' => ?_⟩
  obtain ⟨r, hr, rfl⟩ := mem_update.mp hr'
  refine ⟨r, hr, ?_⟩
  split
  · exact ⟨hid r, hplace r, hlatest r⟩
  · exact ⟨rfl, rfl, fun h => h⟩

lemma fades_deletePages (s : Store) (p : PageRow → Bool) :
    Fades s.pages (s.deletePages p).pages := by
  have hdelete : Fades s.pages (delete p s.pages) :=
    ⟨filter_sublist.map _, fun r hr => ⟨r, delete_subset hr, rfl, rfl, fun h => h⟩⟩
  exact hdelete.trans (fades_update (fun _ => rfl) (fun _ => rfl) fun _ h => h)

lemma fades_softDelete (s : Store) (ws : WorkspaceId) (proj : ProjectId) (path : String)
    (expected : PageId) (now : ℤ) :
    Fades s.pages (s.softDeleteIfLatest ws proj path expected now).2.pages :=
  fades_update (fun _ => rfl) (fun _ => rfl) fun _ h => by cases h

end Store

namespace Database

open Store Projects

variable {E : Env} {C : IndexCodec} {n : Directory} {db db' : Database} {ws : WorkspaceId}
  {source target : ProjectId} {pages : List MergeProjectPage} {now : ℤ} {draws : MergeDraws}
  {d d' : Indexed}

/-! ### What an operation does to the pages -/

/-- All that an operation can do to the pages and to the rows page writes are
checked against. -/
inductive PageChange (C : IndexCodec) (db : Database) : DbOp → Database → Prop
  | fade {op : DbOp} {db' : Database} (hrows : db'.store.projects = db.store.projects)
      (hpages : Fades db.store.pages db'.store.pages) : PageChange C db op db'
  | upsert {op : DbOp} {db' : Database} {page : NewPage} {id id' : PageId} {now : ℤ} {tie : ℕ}
      (hok : upsertPage C.toPageCodec db.store page id now tie = .ok (id', db'.store)) :
      PageChange C db op db'
  /-- The registry adds projects, and moves none. -/
  | registry {op : RegistryOp} {db' : Database} (hpages : db'.store.pages = db.store.pages)
      (hrows : ∀ p ∈ db.store.projects, p ∈ db'.store.projects) :
      PageChange C db (.registry op) db'
  | merge {n : Directory} {ws : WorkspaceId} {source target : ProjectId}
      {pages : List MergeProjectPage} {now : ℤ} {draws : MergeDraws} {db' : Database}
      {index index' : Indexed} (hacc : Accepted C db ws source target pages)
      (hindex : index.store.pages = restampedPages db.store.pages source target pages now)
      (hplaces : (latestPlaces index.store.pages).Nodup)
      (hkept : index.store.projects = db.store.projects)
      (hfold : pages.foldlM (writeMerged C n ws target now draws) index = .ok index')
      (hpages : db'.store.pages = index'.store.pages)
      (hrows : db'.store.projects =
        delete (fun p => p.id = source && p.workspaceId = ws) db.store.projects) :
      PageChange C db (.mergeProject n ws source target pages true now draws) db'
  | moveProject {proj : ProjectId} {source target : WorkspaceId} {db' : Database}
      (hpages : db'.store.pages = update (fun r => r.projectId = proj)
        (fun r => { r with workspaceId := target }) db.store.pages)
      (hplaces : (latestPlaces db'.store.pages).Nodup)
      (hmoved : ⟨proj, target⟩ ∈ db'.store.projects)
      (hrows : ∀ p ∈ db.store.projects, p.id ≠ proj → p ∈ db'.store.projects) :
      PageChange C db (.moveProject proj source target) db'
  | moveSession {sid : SessionId} {ws : WorkspaceId} {proj : ProjectId} {now : ℤ}
      {db' : Database} {r : SessionRow} (hfind : db.store.findSession sid = some r)
      (hthere : db.present ws proj = true)
      (hpages : movePages db.store.pages r ws proj = .ok db'.store.pages)
      (hrows : db'.store.projects = db.store.projects) :
      PageChange C db (.moveSession sid ws proj .move true now) db'

variable {op : DbOp} {s s' : Store} {proj : ProjectId} {r : SessionRow} {mode : PagesMode}
  {rows : List PageRow}

lemma fades_of_eq (hrows : db'.store.projects = db.store.projects)
    (hpages : db'.store.pages = db.store.pages) : PageChange C db op db' :=
  .fade hrows (hpages.symm ▸ .refl _)

lemma onStore_frame {r : Except StoreError Store}
    (h : ∀ s, r = .ok s → s.projects = db.store.projects ∧ s.pages = db.store.pages) :
    (db.onStore r).store.projects = db.store.projects ∧
      (db.onStore r).store.pages = db.store.pages := by
  cases r with
  | error e => exact ⟨rfl, rfl⟩
  | ok s => exact h s rfl

lemma onStore_entities (r : Except StoreError Store) :
    (db.onStore r).index.entities = db.index.entities := by
  cases r <;> rfl

lemma ingested_frame {obs : NewObservation} {out : IngestOutcome}
    (h : Ingested s obs out s') : s'.projects = s.projects ∧ s'.pages = s.pages := by
  cases h with
  | known | inserted => exact ⟨rfl, rfl⟩

lemma admitted_frame {v : String → Bool} {f : NewObservation → Option String → String}
    {session : NewSession} {obs : NewObservation} {filter : OwnerFilter}
    {key movedFrom : Option String} {id : ObservationId} {adm : Admission}
    (h : admitHookSessionEvent v f s session obs filter key movedFrom id now = .ok (adm, s')) :
    s'.projects = s.projects ∧ s'.pages = s.pages := by
  obtain ⟨-, ⟨r, -, hadmit⟩ | ⟨-, ⟨-, rfl⟩ | ⟨-, -, ingest, -, hingest⟩⟩⟩ := admitHookSessionEvent_ok h
  · obtain ⟨-, -, ⟨-, rfl⟩ | ⟨-, ingest, s₁, -, hingest, rfl | ⟨-, hrebind⟩⟩⟩ := admitToSession_ok hadmit
    · exact ⟨rfl, rfl⟩
    · exact ingested_frame (ingestEvent_ok hingest).1
    · have hframe := ingested_frame (ingestEvent_ok hingest).1
      rw [rebind_ok hrebind]
      exact hframe
  · exact ⟨rfl, rfl⟩
  · exact ingested_frame (s := { s with sessions := s.sessions ++ [session.row now] })
      (ingestEvent_ok hingest).1

lemma indexStep_change (op : IndexOp) :
    PageChange C db (.pages n op) { db with index := indexStep n C db.index op } := by
  refine indexStep_elim (P := fun d => PageChange C db (.pages n op) { db with index := d }) op
    (fades_of_eq rfl rfl) (fun hok => .upsert (upsertPageIndexed_ok hok).1) ?_
    fun _ _ p => .fade rfl (fades_deletePages db.store p)
  exact fun ws proj path expected now =>
    .fade rfl (fades_softDelete db.store ws proj path expected now)

lemma writes_rows {reg reg' : Registry} (h : Relation.ReflTransGen Writes reg reg') :
    ∀ p ∈ reg.projects.map Project.row, p ∈ reg'.projects.map Project.row := by
  induction h with
  | refl => exact fun p hp => hp
  | tail _ hw ih =>
    intro row hrow
    obtain ⟨p, hp, rfl⟩ := mem_map.mp (ih row hrow)
    cases hw with
    | workspace w hfresh | grants gs hgs => exact mem_map_of_mem hp
    | insert new _ hins =>
      obtain ⟨-, -, rfl⟩ := insertProject_ok hins
      exact mem_map_of_mem (mem_append_left _ hp)
    | change f hf =>
      refine mem_map.mpr ⟨f p, mem_map_of_mem hp, ?_⟩
      rw [Project.row, Project.row, hf.id p hp, hf.home p hp]

lemma moveProjectRows_ok {reg reg' : Registry} {source target : WorkspaceId}
    (h : moveProjectRows reg proj source target = .ok reg') :
    (∃ p ∈ reg.projects, p.id = proj ∧ p.workspaceId = source) ∧
      reg'.projects = update (fun p => p.id = proj && p.workspaceId = source)
        (fun p => { p with workspaceId := target }) reg.projects ∧
      reg'.grants = update (fun g => g.projectId = proj) (fun g => { g with workspaceId := target })
        reg.grants := by
  unfold moveProjectRows at h
  simp only at h
  split at h
  · cases h
  · split at h
    · cases h
    · split at h
      · cases h
      · rename_i p hfind
        split at h
        · cases h
        · cases h
          have hmatch := find?_some hfind
          rw [Bool.and_eq_true, decide_eq_true_eq, decide_eq_true_eq] at hmatch
          exact ⟨⟨p, mem_of_find?_eq_some hfind, hmatch⟩, rfl, rfl⟩

lemma movePages_ok {rows rows' : List PageRow} (h : movePages rows r ws proj = .ok rows') :
    rows' = update (handles r ws proj) (fun p => { p with
          workspaceId := ws
          projectId := proj }) rows ∧
      (∀ p ∈ rows, p.place = (ws, proj, sessionPagePath r.id) → p.isLatest = false) ∧
      rows.countP (fun p => handles r ws proj p && p.isLatest) ≤ 1 ∧
      (latestPlaces rows').Nodup := by
  unfold movePages at h
  split at h
  · cases h
  · rename_i hfree
    obtain ⟨rfl, hnodup⟩ := checkedPages_ok h
    rw [Bool.or_eq_true, not_or, Bool.not_eq_true, any_eq_false, decide_eq_true_eq,
      Nat.not_lt] at hfree
    refine ⟨rfl, fun p hp hplace => ?_, hfree.2, hnodup⟩
    have hno := hfree.1 p hp
    rw [atPath_iff.mpr hplace, Bool.true_and, Bool.not_eq_true] at hno
    exact hno

lemma moveSessionPages_entities
    (h : moveSessionPages d r ws proj mode now = .ok d') : d'.entities = d.entities := by
  obtain ⟨rfl, -⟩ | ⟨-, rows, -, rfl⟩ | ⟨-, rfl⟩ := moveSessionPages_cases h <;> rfl

lemma moveSessionPages_change {sid : SessionId}
    {index : Indexed} (hfind : db.store.findSession sid = some r) (hthere : db.present ws proj)
    (h : moveSessionPages (moveSessionRows db r ws proj).index r ws proj mode now = .ok index) :
    PageChange C db (.moveSession sid ws proj mode true now)
      { moveSessionRows db r ws proj with index := index } := by
  obtain ⟨rfl, -⟩ | ⟨rfl, rows, hrows, rfl⟩ | ⟨rfl, rfl⟩ := moveSessionPages_cases h
  · exact fades_of_eq rfl rfl
  · exact .moveSession hfind hthere hrows rfl
  · exact .fade rfl (fades_update (fun _ => rfl) (fun _ => rfl) fun _ h => by cases h)

def DbOp.capture : DbOp → Bool
  | .endSession .. | .insertObservationKeyed .. | .admitEvent .. | .completeIngest .. => true
  | _ => false

lemma dbStep_capture_frame (E : Env) (db : Database) (hop : op.capture) :
    (dbStep E db op).registry = db.registry ∧ (dbStep E db op).index.entities = db.index.entities ∧
      (dbStep E db op).store.projects = db.store.projects ∧
      (dbStep E db op).store.pages = db.store.pages := by
  cases op with
  | endSession sid page now =>
    refine ⟨onStore_registry _, onStore_entities _, onStore_frame fun s hok => ?_⟩
    rw [endSession_ok hok]
    exact ⟨rfl, rfl⟩
  | insertObservationKeyed obs key id now =>
    refine ⟨onStore_registry _, onStore_entities _, onStore_frame fun s hok => ?_⟩
    obtain ⟨⟨out, s'⟩, hkeyed, rfl⟩ := map_ok.mp hok
    exact ingested_frame (insertObservationKeyed_ok hkeyed)
  | admitEvent session obs filter key movedFrom id now =>
    refine ⟨onStore_registry _, onStore_entities _, onStore_frame fun s hok => ?_⟩
    obtain ⟨⟨adm, s'⟩, hadmit, rfl⟩ := map_ok.mp hok
    exact admitted_frame hadmit
  | completeIngest proj key now =>
    refine ⟨onStore_registry _, onStore_entities _, onStore_frame fun s hok => ?_⟩
    unfold completeObservationIngest completeObservationIngestIfClaimed at hok
    simp only at hok
    split at hok
    · cases hok
      exact ⟨rfl, rfl⟩
    · cases hok
  | _ => cases hop

lemma capture_change (hop : op.capture) :
    PageChange C db op (dbStep E db op) := by
  obtain ⟨-, -, hrows, hpages⟩ := dbStep_capture_frame E db hop
  exact fades_of_eq hrows hpages

lemma dbStep_change (hwf : Wf db.registry)
    (hrows : db.store.projects = db.registry.projects.map Project.row)
    (hids : KeyUnique EntityRow.id db.index.entities) (op : DbOp) :
    PageChange E.codec db op (dbStep E db op) := by
  cases op with
  | pages n op => exact indexStep_change op
  | registry op =>
    refine .registry rfl fun p hp => ?_
    rw [hrows] at hp
    exact writes_rows (registryStep_writes hwf op) p hp
  | endSession sid page now | insertObservationKeyed obs key id now
  | admitEvent session obs filter key movedFrom id now | completeIngest proj key now =>
    exact capture_change rfl
  | mergeProject n ws source target pages commit now draws =>
    refine dbStep_mergeProject (P := PageChange E.codec db _) (fades_of_eq rfl rfl)
      fun _ merged hcommit hacc hmerged _ => ?_
    subst hcommit
    obtain ⟨index, index', streams, hstore, hplaces, -, -, hfold, -, rfl⟩ :=
      mergeStatements_tables hids hrows hacc hmerged
    have hkept : index.store.projects = db.store.projects := by
      rw [hstore]
      rfl
    refine .merge hacc ?_ hplaces hkept hfold rfl ?_
    · rw [hstore]
      rfl
    · change delete _ index'.store.projects = _
      rw [(mergedVersions_frame hfold).store]
      exact congrArg _ hkept
  | moveProject proj source target =>
    refine dbStep_moveProject (P := PageChange E.codec db _) (fades_of_eq rfl rfl)
      fun reg hreg hplaces => ?_
    obtain ⟨⟨p, hp, hid, hws⟩, hprojects, -⟩ := moveProjectRows_ok hreg
    refine .moveProject rfl hplaces ?_ fun row hrow hne => ?_
    · change _ ∈ reg.projects.map Project.row
      rw [hprojects]
      refine mem_map.mpr ⟨_, mem_update_of_match hp (by simp [hid, hws]), ?_⟩
      rw [Project.row, hid]
    · change _ ∈ reg.projects.map Project.row
      rw [hrows] at hrow
      obtain ⟨q, hq, rfl⟩ := mem_map.mp hrow
      rw [hprojects]
      have hqne : q.id ≠ proj := hne
      exact mem_map_of_mem (mem_update_of_not hq (by simp [hqne]))
  | moveSession sid ws proj mode commit now =>
    refine dbStep_moveSession (P := PageChange E.codec db _) (fades_of_eq rfl rfl)
      fun r index hcommit hfind hthere hindex => ?_
    subst hcommit
    exact moveSessionPages_change hfind hthere hindex

lemma mergedVersions_keep {I : Store → Prop} (hup : ∀ s s' page id now tie id', I s →
      upsertPage C.toPageCodec s page id now tie = .ok (id', s') → I s')
    (hfade : ∀ s pages', I s → Fades s.pages pages' → I { s with pages := pages' })
    (hd : I d.store) (h : pages.foldlM (writeMerged C n ws target now draws) d = .ok d') :
    I d'.store := by
  refine foldlM_invariant (I := fun x : Indexed => I x.store) ?_ hd h
  intro page _ x y hx hxy
  rcases writeMerged_ok hxy with ⟨-, rfl⟩ | ⟨merged, createdAt, mergedId, e, -, -, -, -, hok, rfl⟩
  · exact hx
  · have he : I e.store := hup _ _ _ _ _ _ _ hx (upsertPageIndexed_ok hok).1
    exact hfade e.store _ he (fades_update (fun _ => rfl) (fun _ => rfl) fun _ h => h)

/-- Page ids are a key, a path has one latest version, and a version is in the
workspace of its project. -/
structure Filed (s : Store) : Prop where
  ids : KeyUnique PageRow.id s.pages
  heads : ∀ a ∈ s.pages, ∀ b ∈ s.pages, a.isLatest = true → b.isLatest = true →
    a.place = b.place → a.id = b.id
  homed : ∀ r ∈ s.pages, ⟨r.projectId, r.workspaceId⟩ ∈ s.projects

lemma Filed.fade {s : Store} (h : Filed s) (hfade : Fades s.pages rows) :
    Filed { s with pages := rows } := by
  refine ⟨h.ids.sublist hfade.1, fun a' ha' b' hb' hal hbl hplace => ?_, fun r' hr' => ?_⟩
  · obtain ⟨a, ha, haid, haplace, halatest⟩ := hfade.2 a' ha'
    obtain ⟨b, hb, hbid, hbplace, hblatest⟩ := hfade.2 b' hb'
    rw [haplace, hbplace] at hplace
    rw [haid, hbid]
    exact h.heads a ha b hb (halatest hal) (hblatest hbl) hplace
  · obtain ⟨r, hr, -, hplace, -⟩ := hfade.2 r' hr'
    rw [PageRow.place_eq_iff] at hplace
    rw [hplace.1, hplace.2.1]
    exact h.homed r hr

lemma Filed.insert (h : Filed s) {row : PageRow} (hlatest : row.isLatest)
    (hok : s.insertPage row = .ok s') : Filed s' := by
  obtain ⟨rfl, hfresh⟩ := insertPage_ok hok
  obtain ⟨hpaired, -⟩ := insertPage_frame hok
  have hhead := insertPage_head hok hlatest
  refine ⟨keyUnique_append_singleton.mpr ⟨h.ids, hfresh⟩, ?_, fun r hr => ?_⟩
  · intro a ha b hb hal hbl hplace
    rcases mem_append.mp ha with ha | ha
    · rcases mem_append.mp hb with hb | hb
      · exact h.heads a ha b hb hal hbl hplace
      · rw [mem_singleton.mp hb] at hplace
        exact absurd hplace (hhead a ha hal)
    · rcases mem_append.mp hb with hb | hb
      · rw [mem_singleton.mp ha] at hplace
        exact absurd hplace.symm (hhead b hb hbl)
      · rw [mem_singleton.mp ha, mem_singleton.mp hb]
  · rcases mem_append.mp hr with hr | hr
    · exact h.homed r hr
    · obtain ⟨p, hp, hmatch⟩ := any_eq_true.mp hpaired
      rw [Bool.and_eq_true, decide_eq_true_eq, decide_eq_true_eq] at hmatch
      rw [mem_singleton.mp hr, ← hmatch.1, ← hmatch.2]
      exact hp

lemma fades_retire (s : Store) (id : PageId) (now : ℤ) :
    Fades s.pages (s.retire id now).pages :=
  fades_update (fun _ => rfl) (fun _ => rfl) fun _ h => by cases h

lemma fades_unbury (s : Store) (tombstone : Option PageRow) :
    Fades s.pages (tombstone.elim s fun r => s.unbury r.id).pages := by
  cases tombstone with
  | none => exact .refl _
  | some r => exact fades_update (fun _ => rfl) (fun _ => rfl) fun _ h => h

lemma Filed.upsert {K : PageCodec} (h : Filed s) {page : NewPage}
    {id id' : PageId} {tie : ℕ} (hok : upsertPage K s page id now tie = .ok (id', s')) :
    Filed s' := by
  rcases upsertPage_ok hok with ⟨existing, -, -, -, rfl⟩ | ⟨existing, -, -, hins⟩ | ⟨-, -, -, hins⟩
  · exact h
  · exact Filed.insert (h.fade (fades_retire s existing.id now)) rfl hins
  · have hbase := h.fade (fades_unbury s (s.mostRecentTombstoneAtPath page tie))
    cases htomb : s.mostRecentTombstoneAtPath page tie with
    | none | some b =>
      rw [htomb] at hbase hins
      exact hbase.insert rfl hins

lemma latestPlaces_inj (h : (latestPlaces rows).Nodup) {a b : PageRow} (ha : a ∈ rows)
    (hb : b ∈ rows) (hal : a.isLatest) (hbl : b.isLatest)
    (hplace : a.place = b.place) : a = b :=
  inj_on_of_nodup_map h (mem_filter.mpr ⟨ha, hal⟩) (mem_filter.mpr ⟨hb, hbl⟩) hplace

/-- What keys, foreign keys and triggers amount to, where merges and moves
depend on it. -/
structure Sound (db : Database) : Prop where
  registry : Wf db.registry
  /-- The triggers see the projects of the registry. -/
  projects : db.store.projects = db.registry.projects.map Project.row
  entityIds : KeyUnique EntityRow.id db.index.entities
  ingestKeys : KeyUnique IngestKeyRow.pk db.store.ingestKeys
  filed : Filed db.store

lemma Sound.projectIds (h : Sound db) : KeyUnique ProjectRow.id db.store.projects := by
  rw [h.projects, KeyUnique, map_map]
  exact h.registry.projectIds

lemma Sound.home_eq (h : Sound db) (hthere : db.present ws proj) :
    ⟨proj, ws⟩ ∈ db.store.projects ∧ ∀ ws', ⟨proj, ws'⟩ ∈ db.store.projects → ws' = ws := by
  obtain ⟨p, hp, hmatch⟩ := any_eq_true.mp hthere
  rw [Bool.and_eq_true, decide_eq_true_eq, decide_eq_true_eq] at hmatch
  have hrow : (⟨proj, ws⟩ : ProjectRow) ∈ db.store.projects := by
    rw [h.projects]
    refine mem_map.mpr ⟨p, hp, ?_⟩
    rw [Project.row, hmatch.1, hmatch.2]
  refine ⟨hrow, fun ws' hrow' => ?_⟩
  have heq := h.projectIds.eq hrow' hrow rfl
  rw [ProjectRow.mk.injEq] at heq
  exact heq.2

lemma restampedPages_mem {r' : PageRow} (hr' : r' ∈ restampedPages rows source target pages now) :
    ∃ r ∈ rows, r'.id = r.id ∧ r'.workspaceId = r.workspaceId ∧ r'.path = r.path ∧
      (r'.isLatest → r.isLatest) ∧
      (if r.projectId = source then r'.projectId = target else r'.projectId = r.projectId) := by
  obtain ⟨r₁, hr₁, rfl⟩ := mem_update.mp hr'
  obtain ⟨r, hr, rfl⟩ := mem_update.mp hr₁
  refine ⟨r, hr, ?_⟩
  by_cases hretire : (decide (r.id ∈ collidingHeads pages) && r.isLatest)
  · rw [if_pos hretire]
    by_cases hsource : r.projectId = source <;> simp [retiredRow, hsource]
  · rw [if_neg hretire]
    by_cases hsource : r.projectId = source <;> simp [hsource]

lemma Sound.filed_restamped (h : Sound db) (hacc : Accepted C db ws source target pages)
    (hindex : d.store.pages = restampedPages db.store.pages source target pages now)
    (hplaces : (latestPlaces d.store.pages).Nodup)
    (hkept : d.store.projects = db.store.projects) : Filed d.store := by
  refine ⟨?_, fun a ha b hb hal hbl hplace => ?_, fun r' hr' => ?_⟩
  · rw [hindex, restampedPages]
    refine KeyUnique.update ?_ fun _ => rfl
    exact h.filed.ids.update fun _ => rfl
  · rw [latestPlaces_inj hplaces ha hb hal hbl hplace]
  · rw [hindex] at hr'
    obtain ⟨r, hr, -, hws, -, -, hproj⟩ := restampedPages_mem hr'
    rw [hkept, hws]
    have hhome := h.filed.homed r hr
    split at hproj
    · rename_i hsource
      rw [hsource] at hhome
      rw [hproj, (h.home_eq hacc.sourceThere).2 _ hhome]
      exact (h.home_eq hacc.targetThere).1
    · rw [hproj]
      exact hhome

lemma Sound.filed_change (h : Sound db) (hchange : PageChange C db op db') :
    Filed db'.store := by
  cases hchange with
  | fade hrows hpages =>
    have hfaded := h.filed.fade hpages
    exact ⟨hfaded.ids, hfaded.heads, fun r hr => hrows.symm ▸ hfaded.homed r hr⟩
  | upsert hok => exact h.filed.upsert hok
  | registry hpages hrows =>
    exact ⟨hpages.symm ▸ h.filed.ids, hpages.symm ▸ h.filed.heads, fun r hr =>
      hrows _ (h.filed.homed r (hpages ▸ hr))⟩
  | @merge n ws source target pages now draws db' index index' hacc hindex hplaces hkept hfold
      hpages hrows =>
    have hmoved : Filed index.store := h.filed_restamped hacc hindex hplaces hkept
    have hunfiled : ∀ r ∈ index.store.pages, r.projectId ≠ source := by
      rw [hindex]
      exact fun r hr =>
        ne_of_mem_update PageRow.projectId hacc.differ.symm (fun _ => rfl) hr
    have hdone : Filed index'.store := mergedVersions_keep
      (fun _ _ _ _ _ _ _ hs hok => hs.upsert hok) (fun _ _ hs hfade => hs.fade hfade) hmoved hfold
    refine ⟨hpages.symm ▸ hdone.ids, hpages.symm ▸ hdone.heads, fun r hr => ?_⟩
    rw [hpages] at hr
    have hne := mergedVersions_unfiled hacc.differ hunfiled hfold r hr
    have hhome := hdone.homed r hr
    rw [(mergedVersions_frame hfold).store] at hhome
    rw [hrows, ← hkept]
    exact mem_delete.mpr ⟨hhome, by simp [hne]⟩
  | @moveProject proj _ target _ hpages hplaces hmoved hrows =>
    refine ⟨?_, fun a ha b hb hal hbl hplace => ?_, fun r' hr' => ?_⟩
    · rw [hpages]
      exact h.filed.ids.update fun _ => rfl
    · rw [latestPlaces_inj hplaces ha hb hal hbl hplace]
    · rw [hpages] at hr'
      obtain ⟨r, hr, rfl⟩ := mem_update.mp hr'
      by_cases hproj : r.projectId = proj
      · simp only [hproj, decide_true, if_true]
        exact hmoved
      · simp only [hproj, decide_false, Bool.false_eq_true, if_false]
        exact hrows _ (h.filed.homed r hr) hproj
  | @moveSession sid ws proj now _ s hfind hthere hpages hrows =>
    obtain ⟨hmoved, -, -, hplaces⟩ := movePages_ok hpages
    refine ⟨?_, fun a ha b hb hal hbl hplace => ?_, fun r' hr' => ?_⟩
    · rw [hmoved]
      exact h.filed.ids.update fun _ => rfl
    · rw [latestPlaces_inj hplaces ha hb hal hbl hplace]
    · rw [hmoved] at hr'
      rw [hrows]
      obtain ⟨r, hr, rfl⟩ := mem_update.mp hr'
      split
      · exact (h.home_eq hthere).1
      · exact h.filed.homed r hr

/-! ### Runs -/

theorem deletePagesIndexed_entityIds (hids : KeyUnique EntityRow.id d.entities)
    (ws : WorkspaceId) (proj : ProjectId) (p : PageRow → Bool) :
    KeyUnique EntityRow.id (deletePagesIndexed d ws proj p).entities := by
  unfold deletePagesIndexed
  simp only
  split
  · exact hids.delete
  · exact hids

lemma indexStep_entityIds (hids : KeyUnique EntityRow.id d.entities) (op : IndexOp) :
    KeyUnique EntityRow.id (indexStep n C d op).entities :=
  indexStep_elim (P := fun d => KeyUnique EntityRow.id d.entities) op hids
    (fun hok => (upsertPageIndexed_entities hok).ids hids) (fun _ _ _ _ _ => hids)
    (deletePagesIndexed_entityIds hids)

lemma dbStep_entityIds (h : Sound db) (op : DbOp) :
    KeyUnique EntityRow.id (dbStep E db op).index.entities := by
  have hids := h.entityIds
  have hcapture : ∀ op : DbOp, op.capture = true →
      KeyUnique EntityRow.id (dbStep E db op).index.entities := by
    intro op hop
    rw [(dbStep_capture_frame E db hop).2.1]
    exact hids
  cases op with
  | pages n op => exact indexStep_entityIds hids op
  | registry op => exact hids
  | endSession sid page now | insertObservationKeyed obs key id now
  | admitEvent session obs filter key movedFrom id now | completeIngest proj key now =>
    exact hcapture _ rfl
  | mergeProject n ws source target pages commit now draws =>
    refine dbStep_mergeProject (P := fun d => KeyUnique EntityRow.id d.index.entities) hids
      fun _ merged _ hacc hmerged _ => ?_
    obtain ⟨index, index', streams, -, -, hkeys, -, hfold, -, rfl⟩ :=
      mergeStatements_tables hids h.projects hacc hmerged
    exact (mergedVersions_frame hfold).entities.ids hkeys
  | moveProject proj source target =>
    exact dbStep_moveProject (P := fun d => KeyUnique EntityRow.id d.index.entities) hids
      fun _ _ _ => hids.update fun _ => rfl
  | moveSession sid ws proj mode commit now =>
    refine dbStep_moveSession (P := fun d => KeyUnique EntityRow.id d.index.entities) hids
      fun _ index _ _ _ hindex => ?_
    change KeyUnique EntityRow.id index.entities
    rw [moveSessionPages_entities hindex]
    exact hids

lemma dbStep_projects (h : Sound db) (op : DbOp) :
    (dbStep E db op).store.projects = (dbStep E db op).registry.projects.map Project.row := by
  have hrows := h.projects
  have hcapture : ∀ op : DbOp, op.capture = true →
      (dbStep E db op).store.projects = (dbStep E db op).registry.projects.map Project.row := by
    intro op hop
    obtain ⟨hreg, -, hproj, -⟩ := dbStep_capture_frame E db hop
    rw [hreg, hproj]
    exact hrows
  cases op with
  | pages n op =>
    have hkept : (indexStep n E.codec db.index op).store.projects = db.store.projects := by
      cases (indexStep_change op : PageChange E.codec db (.pages n op) _) with
      | fade hkept _ => exact hkept
      | upsert hok =>
        have hframe := congrArg Store.projects (upsertPage_frame hok)
        exact hframe
    exact hkept.trans hrows
  | registry op => rfl
  | endSession sid page now | insertObservationKeyed obs key id now
  | admitEvent session obs filter key movedFrom id now | completeIngest proj key now =>
    exact hcapture _ rfl
  | mergeProject n ws source target pages commit now draws =>
    refine dbStep_mergeProject (P := fun d => d.store.projects = d.registry.projects.map Project.row)
      hrows fun _ merged _ hacc hmerged _ => ?_
    obtain ⟨index, index', streams, hstore, -, -, -, hfold, -, rfl⟩ :=
      mergeStatements_tables h.entityIds hrows hacc hmerged
    -- the policy of the target changes, and the row of the source goes
    have hproj : index'.store.projects = db.registry.projects.map Project.row := by
      rw [(mergedVersions_frame hfold).store, hstore]
      exact hrows
    have hpolicy : (mergePolicy db.registry source target).projects.map Project.row =
        db.registry.projects.map Project.row := map_update fun _ => rfl
    change delete _ index'.store.projects = (delete _ (mergePolicy db.registry source
      target).projects).map Project.row
    rw [hproj, ← hpolicy, delete, delete, filter_map]
    rfl
  | moveProject proj source target =>
    exact dbStep_moveProject (P := fun d => d.store.projects = d.registry.projects.map Project.row)
      hrows fun _ _ _ => rfl
  | moveSession sid ws proj mode commit now =>
    refine dbStep_moveSession (P := fun d => d.store.projects = d.registry.projects.map Project.row)
      hrows fun s index _ hfind hthere hindex => ?_
    have hkept : ({ moveSessionRows db s ws proj with index := index } :
        Database).store.projects = db.store.projects := by
      cases moveSessionPages_change (C := E.codec) hfind hthere hindex with
      | fade hkept _ | moveSession _ _ _ hkept => exact hkept
      | upsert hok =>
        have hframe := congrArg Store.projects (upsertPage_frame hok)
        exact hframe
    exact hkept.trans hrows

lemma indexStep_ingestKeys (op : IndexOp) :
    (indexStep n C d op).store.ingestKeys = d.store.ingestKeys := by
  refine indexStep_elim (P := fun d' => d'.store.ingestKeys = d.store.ingestKeys) op rfl
    (fun hok => ?_) (fun _ _ _ _ _ => rfl) fun _ _ _ => rfl
  have hframe := congrArg Store.ingestKeys (upsertPage_frame (upsertPageIndexed_ok hok).1)
  exact hframe

lemma onStore_ingestKeys (h : KeyUnique IngestKeyRow.pk db.store.ingestKeys)
    {r : Except StoreError Store} (hr : ∀ s, r = .ok s → KeyUnique IngestKeyRow.pk s.ingestKeys) :
    KeyUnique IngestKeyRow.pk (db.onStore r).store.ingestKeys := by
  cases r with
  | error e => exact h
  | ok s => exact hr s rfl

lemma moveSessionPages_ingestKeys (h : moveSessionPages d r ws proj mode now = .ok d') :
    d'.store.ingestKeys = d.store.ingestKeys ∧ d'.store.observations = d.store.observations := by
  obtain ⟨rfl, -⟩ | ⟨-, rows, -, rfl⟩ | ⟨-, rfl⟩ := moveSessionPages_cases h <;> exact ⟨rfl, rfl⟩

lemma dbStep_ingestKeys (h : Sound db) (op : DbOp) :
    KeyUnique IngestKeyRow.pk (dbStep E db op).store.ingestKeys := by
  have hkeys := h.ingestKeys
  cases op with
  | pages n op =>
    change KeyUnique IngestKeyRow.pk (indexStep n E.codec db.index op).store.ingestKeys
    rw [indexStep_ingestKeys]
    exact hkeys
  | registry op => exact hkeys
  | endSession sid page now =>
    refine onStore_ingestKeys hkeys fun s hok => ?_
    rw [endSession_ok hok]
    exact hkeys
  | insertObservationKeyed obs key id now =>
    refine onStore_ingestKeys hkeys fun s hok => ?_
    obtain ⟨⟨out, s'⟩, hkeyed, rfl⟩ := map_ok.mp hok
    unfold Store.insertObservationKeyed at hkeyed
    simp only at hkeyed
    split at hkeyed
    · cases hkeyed
    · exact claimIngestKey_pk hkeys hkeyed
  | admitEvent session obs filter key movedFrom id now =>
    refine onStore_ingestKeys hkeys fun s hok => ?_
    obtain ⟨⟨adm, s'⟩, hadmit, rfl⟩ := map_ok.mp hok
    exact admitHookSessionEvent_pk hkeys hadmit
  | completeIngest proj key now =>
    refine onStore_ingestKeys hkeys fun s hok => ?_
    unfold completeObservationIngest completeObservationIngestIfClaimed at hok
    simp only at hok
    split at hok
    · cases hok
      exact hkeys.update fun _ => rfl
    · cases hok
  | mergeProject n ws source target pages commit now draws =>
    refine dbStep_mergeProject (P := fun d => KeyUnique IngestKeyRow.pk d.store.ingestKeys) hkeys
      fun _ merged _ hacc hmerged _ => ?_
    obtain ⟨index, index', streams, hstore, -, -, -, hfold, -, rfl⟩ :=
      mergeStatements_tables h.entityIds h.projects hacc hmerged
    change KeyUnique IngestKeyRow.pk index'.store.ingestKeys
    rw [(mergedVersions_frame hfold).store, hstore]
    exact mergeIngestKeys_pk hkeys
  | moveProject proj source target =>
    exact dbStep_moveProject (P := fun d => KeyUnique IngestKeyRow.pk d.store.ingestKeys) hkeys
      fun _ _ _ => hkeys
  | moveSession sid ws proj mode commit now =>
    refine dbStep_moveSession (P := fun d => KeyUnique IngestKeyRow.pk d.store.ingestKeys) hkeys
      fun _ index _ _ _ hindex => ?_
    change KeyUnique IngestKeyRow.pk index.store.ingestKeys
    rw [(moveSessionPages_ingestKeys hindex).1]
    exact moveIngestKeys_pk hkeys

lemma dbStep_sound (h : Sound db) (op : DbOp) : Sound (dbStep E db op) where
  registry := dbStep_registry_wf h.registry op
  projects := dbStep_projects h op
  entityIds := dbStep_entityIds h op
  ingestKeys := dbStep_ingestKeys h op
  filed := h.filed_change (dbStep_change (E := E) h.registry h.projects h.entityIds op)

lemma sound_empty : Sound empty where
  registry := wf_empty
  projects := rfl
  entityIds := nodup_nil
  ingestKeys := nodup_nil
  filed := ⟨nodup_nil, fun _ ha => absurd ha not_mem_nil, fun _ hr => absurd hr not_mem_nil⟩

lemma sound_run (E : Env) (ops : List DbOp) : Sound (exec (dbStep E) empty ops) :=
  exec_invariant (I := Sound) (fun _ op h => dbStep_sound h op) sound_empty ops

/-- Whatever operations were run, a page id, an ingest key and an entity id name
one row, a place has one latest version, a page is in the one project and
workspace its row names, and a grant is on a project of its workspace. -/
theorem run_integrity (E : Env) (ops : List DbOp) :
    let db := exec (dbStep E) empty ops
    KeyUnique PageRow.id db.store.pages ∧ KeyUnique IngestKeyRow.pk db.store.ingestKeys ∧
      KeyUnique EntityRow.id db.index.entities ∧ (latestPlaces db.store.pages).Nodup ∧
      (∀ r ∈ db.store.pages, ∃ p ∈ db.registry.projects, p.id = r.projectId ∧
        p.workspaceId = r.workspaceId ∧ ∀ q ∈ db.registry.projects, q.id = r.projectId → q = p) ∧
      ∀ g ∈ db.registry.grants, ∃ p ∈ db.registry.projects,
        p.id = g.projectId ∧ p.workspaceId = g.workspaceId := by
  intro db
  have h : Sound db := sound_run E ops
  refine ⟨h.filed.ids, h.ingestKeys, h.entityIds, ?_, fun r hr => ?_, h.registry.granted⟩
  · refine Nodup.map_on (fun a ha b hb hplace => ?_) ((Nodup.of_map _ h.filed.ids).filter _)
    rw [mem_filter] at ha hb
    exact h.filed.ids.eq ha.1 hb.1 (h.filed.heads a ha.1 b hb.1 ha.2 hb.2 hplace)
  · have hrow := h.filed.homed r hr
    rw [h.projects] at hrow
    obtain ⟨p, hp, hrow⟩ := mem_map.mp hrow
    rw [Project.row, ProjectRow.mk.injEq] at hrow
    exact ⟨p, hp, hrow.1, hrow.2, fun q hq hid =>
      h.registry.projectIds.eq hq hp (hid.trans hrow.1.symm)⟩

end Database
