/-
Taking a merge or a move apart.

* `moveSession_ok`, `moveSessionPages_cases`, `moveProjectWorkspace_ok` — the same
  for the moves.
* `dbStep_mergeProject`, `dbStep_moveProject`, `dbStep_moveSession` — such a step
  leaves the database as it is, or commits.
-/
import AiMemory.Store.Moves

open Table Runs List

namespace Database

open Store Projects

variable {C : IndexCodec} {n : Directory} {db db' : Database} {ws : WorkspaceId}
  {source target : ProjectId} {pages : List MergeProjectPage} {now : ℤ} {draws : MergeDraws}

lemma mem_latestOf {proj : ProjectId} {r : PageRow} :
    r ∈ db.latestOf proj ↔ r ∈ db.store.pages ∧ r.projectId = proj ∧ r.isLatest := by
  rw [latestOf, mem_filter, Bool.and_eq_true, decide_eq_true_eq]

structure Planned (db : Database) (source target : ProjectId) (page : MergeProjectPage) :
    Prop where
  /-- It is about a latest version of the source, at its path. -/
  sourced : ∃ r ∈ db.latestOf source, r.id = page.sourcePageId ∧ r.path = page.path
  /-- It names the latest version of the target at that path, if there is one. -/
  targeted : ((db.latestOf target).find? fun r => r.path = page.path).map (·.id) = page.targetPageId
  /-- There is a combined version exactly when the paths collide. -/
  combined : page.targetPageId.isSome = page.mergedPage.isSome
  samePath : ∀ merged, page.mergedPage = some merged → merged.path = page.path

structure Accepted (C : IndexCodec) (db : Database) (ws : WorkspaceId) (source target : ProjectId)
    (pages : List MergeProjectPage) : Prop where
  differ : source ≠ target
  sourceThere : db.present ws source = true
  targetThere : db.present ws target = true
  noDuplicates : (pages.map (·.sourcePageId)).Nodup
  complete : ∀ r ∈ db.latestOf source, ∃ page ∈ pages, page.sourcePageId = r.id
  portable : ∀ page ∈ pages, ∀ r ∈ db.latestOf target, r.path ≠ page.path →
    C.portablePageKey r.path ≠ C.portablePageKey page.path
  planned : ∀ page ∈ pages, Planned db source target page

lemma planRefusal_none {page : MergeProjectPage} (h : db.planRefusal source target page = none) :
    Planned db source target page := by
  unfold planRefusal at h
  simp only at h
  split at h
  · cases h
  · rename_i hsource
    split at h
    · cases h
    · rename_i htarget
      split at h
      · cases h
      · rename_i hcombined
        split at h
        · cases h
        · rename_i hpath
          rw [ne_eq, not_not, Option.map_eq_some_iff] at hsource
          obtain ⟨r, hfind, hrpath⟩ := hsource
          refine ⟨⟨r, mem_of_find?_eq_some hfind, by simpa using find?_some hfind,
            hrpath⟩, not_not.mp htarget, not_not.mp hcombined, ?_⟩
          intro merged hmerged
          rw [hmerged, Option.any_some, decide_eq_true_eq] at hpath
          exact not_not.mp hpath

lemma mergeRefusal_none (h : mergeRefusal C db ws source target pages now = none) :
    Accepted C db ws source target pages := by
  unfold mergeRefusal at h
  simp only at h
  split at h
  · cases h
  · rename_i hdiffer
    split at h
    · cases h
    · rename_i hthere
      split at h
      · cases h
      · split at h
        · cases h
        · split at h
          · cases h
          · rename_i hnodup
            split at h
            · cases h
            · rename_i hsame
              rw [Bool.or_eq_true, not_or, Bool.not_eq_true', Bool.not_eq_true', Bool.not_eq_false,
                Bool.not_eq_false] at hthere hsame
              rw [Option.orElse_eq_orElse, Option.orElse_eq_or, Option.or_eq_none_iff, findSome?_eq_none_iff,
                findSome?_eq_none_iff] at h
              refine ⟨hdiffer, hthere.1, hthere.2, not_not.mp hnodup, ?_, ?_, ?_⟩
              · intro r hr
                have hall := all_eq_true.mp hsame.1 r.id (mem_map_of_mem hr)
                simpa using hall
              · intro page hpage r hr hne hkey
                have hclash := h.1 page hpage
                rw [Option.map_eq_none_iff, portableClash, find?_eq_none] at hclash
                exact hclash r.path (mem_map_of_mem hr) (by simp [hne, hkey])
              · exact fun page hpage => planRefusal_none (h.2 page hpage)

/-! ### The statements of a merge -/

def mergedRows (db : Database) (source target : ProjectId) (index : Indexed)
    (workstreams : List WorkstreamRow) : Database where
  index := index
  registry := mergeGrants (mergePolicy db.registry source target) source target
  handoffs := update (fun h => h.projectId = source) (fun h => { h with projectId := target })
    db.handoffs
  messages := mergeMessages db.messages source target
  workstreams := workstreams
  runs := db.runs

def withMergedKeys (index : Indexed) (source target : ProjectId) : Indexed :=
  { index with
    store := { index.store with
      ingestKeys := mergeIngestKeys index.store.ingestKeys source target } }

def Restamped (db : Database) (source target : ProjectId) (pages : List MergeProjectPage)
    (now : ℤ) (index : Indexed) : Prop :=
  ∃ store, restampStore (retireHeads db.index pages now).store source target = .ok store ∧
    mergeEntities { retireHeads db.index pages now with store := store } source target = .ok index

lemma mergeStatements_ok (h : mergeStatements C n db ws source target pages now draws = .ok db') :
    ∃ index index' workstreams, Restamped db source target pages now index ∧
      pages.foldlM (writeMerged C n ws target now draws) (withMergedKeys index source target) =
        .ok index' ∧
      mergeWorkstreams db.workstreams source target = .ok workstreams ∧
      (mergedRows db source target index' workstreams).present ws source ∧
      db' = (mergedRows db source target index' workstreams).deleteProjectRow ws source := by
  obtain ⟨store, hstore, h⟩ := bind_ok.mp h
  obtain ⟨index, hindex, h⟩ := bind_ok.mp h
  obtain ⟨workstreams, hstreams, h⟩ := bind_ok.mp h
  obtain ⟨index', hindex', h⟩ := bind_ok.mp h
  simp only at h
  split at h
  · rename_i hthere
    rw [pure_ok] at h
    exact ⟨index, index', workstreams, ⟨store, hstore, hindex⟩, hindex', hstreams, hthere, h.symm⟩
  · cases h

lemma mergeProject_ok {commit : Bool} {summary : MergeProjectSummary}
    (h : mergeProject C n db ws source target pages commit now draws = .ok (summary, db')) :
    Accepted C db ws source target pages ∧
      ∃ merged, mergeStatements C n db ws source target pages now draws = .ok merged ∧
        db' = if commit then merged else db := by
  unfold mergeProject at h
  split at h
  · cases h
  · rename_i hnone
    obtain ⟨merged, hmerged, hret⟩ := bind_ok.mp h
    rw [pure_ok, Prod.mk.injEq] at hret
    exact ⟨mergeRefusal_none hnone, merged, hmerged, hret.2.symm⟩

lemma checkedPages_ok {rows rows' : List PageRow} (h : checkedPages rows = .ok rows') :
    rows' = rows ∧ (latestPlaces rows).Nodup := by
  unfold checkedPages at h
  split at h
  · rename_i hnodup
    cases h
    exact ⟨rfl, hnodup⟩
  · cases h

lemma checkedEntities_ok {rows rows' : List EntityRow} (h : checkedEntities rows = .ok rows') :
    rows' = rows := by
  unfold checkedEntities at h
  split at h
  · cases h
    rfl
  · cases h

lemma checkedWorkstreams_ok {rows rows' : List WorkstreamRow}
    (h : checkedWorkstreams rows = .ok rows') : rows' = rows := by
  unfold checkedWorkstreams at h
  split at h
  · cases h
    rfl
  · cases h

lemma moveSessionPages_cases {d d' : Indexed} {r : SessionRow} {proj : ProjectId}
    {mode : PagesMode} (h : moveSessionPages d r ws proj mode now = .ok d') :
    (d' = d ∧ ∀ p ∈ d.store.pages, handles r ws proj p = false) ∨
      (mode = .move ∧ ∃ rows, movePages d.store.pages r ws proj = .ok rows ∧
        d' = { d with store := { d.store with pages := rows } }) ∨
      (mode = .regenerate ∧ d' = regeneratePages d r ws proj now) := by
  unfold moveSessionPages at h
  split at h
  · rename_i hnone
    rw [Bool.not_eq_true', any_eq_false] at hnone
    cases h
    exact .inl ⟨rfl, fun p hp => Bool.eq_false_iff.mpr (hnone p hp)⟩
  · split at h
    · obtain ⟨rows, hrows, h⟩ := bind_ok.mp h
      cases h
      exact .inr (.inl ⟨rfl, rows, hrows, rfl⟩)
    · cases h
      exact .inr (.inr ⟨rfl, rfl⟩)

lemma moveSession_ok {sid : SessionId} {proj : ProjectId} {mode : PagesMode} {commit : Bool}
    {summary : MoveSessionSummary}
    (h : db.moveSession sid ws proj mode commit now = .ok (summary, db')) :
    ∃ r, db.store.findSession sid = some r ∧ db.present ws proj ∧
      ∃ index, moveSessionPages (moveSessionRows db r ws proj).index r ws proj mode now =
          .ok index ∧
        db' = if commit then { moveSessionRows db r ws proj with index := index } else db := by
  unfold moveSession at h
  split at h
  · cases h
  · rename_i r hr
    split at h
    · cases h
    · rename_i hthere
      rw [Bool.not_eq_true', Bool.not_eq_false] at hthere
      obtain ⟨index, hindex, hret⟩ := bind_ok.mp h
      rw [pure_ok, Prod.mk.injEq] at hret
      exact ⟨r, hr, hthere, index, hindex, hret.2.symm⟩

lemma moveSession_of_pages {sid : SessionId} {proj : ProjectId} {mode : PagesMode}
    (commit : Bool) {r : SessionRow} {index : Indexed} (hfind : db.store.findSession sid = some r)
    (hthere : db.present ws proj)
    (hindex : moveSessionPages (moveSessionRows db r ws proj).index r ws proj mode now =
      .ok index) :
    ∃ summary, db.moveSession sid ws proj mode commit now = .ok (summary,
      if commit then { moveSessionRows db r ws proj with index := index } else db) := by
  unfold moveSession
  rw [hfind]
  simp only [hthere, Bool.not_true, Bool.false_eq_true, if_false]
  rw [hindex]
  exact ⟨_, rfl⟩

lemma moveProjectWorkspace_ok {proj : ProjectId} {from' to' : WorkspaceId}
    (h : db.moveProjectWorkspace proj from' to' = .ok db') :
    ∃ reg, moveProjectRows db.registry proj from' to' = .ok reg ∧
      (latestPlaces (db.restampWorkspace proj from' to').store.pages).Nodup ∧
      db' = (db.restampWorkspace proj from' to').withRegistry reg := by
  obtain ⟨pages, hpages, h⟩ := bind_ok.mp h
  obtain ⟨entities, -, h⟩ := bind_ok.mp h
  obtain ⟨workstreams, -, h⟩ := bind_ok.mp h
  obtain ⟨reg, hreg, h⟩ := bind_ok.mp h
  rw [pure_ok] at h
  exact ⟨reg, hreg, (checkedPages_ok hpages).2, h.symm⟩

section Steps

variable {E : Env} {P : Database → Prop} {commit : Bool} {proj : ProjectId}

lemma dbStep_mergeProject (hsame : P db)
    (hmerge : ∀ summary merged, commit = true → Accepted E.codec db ws source target pages →
      mergeStatements E.codec n db ws source target pages now draws = .ok merged →
      mergeProject E.codec n db ws source target pages true now draws = .ok (summary, merged) →
      P merged) : P (dbStep E db (.mergeProject n ws source target pages commit now draws)) := by
  rw [dbStep]
  cases hres : mergeProject E.codec n db ws source target pages commit now draws with
  | error e => exact hsame
  | ok r =>
    obtain ⟨summary, db'⟩ := r
    obtain ⟨hacc, merged, hmerged, rfl⟩ := mergeProject_ok hres
    cases commit with
    | false => exact hsame
    | true => exact hmerge summary merged rfl hacc hmerged hres

lemma dbStep_moveProject {from' to' : WorkspaceId} (hsame : P db)
    (hmove : ∀ reg, moveProjectRows db.registry proj from' to' = .ok reg →
      (latestPlaces (db.restampWorkspace proj from' to').store.pages).Nodup →
      P ((db.restampWorkspace proj from' to').withRegistry reg)) :
    P (dbStep E db (.moveProject proj from' to')) := by
  rw [dbStep]
  cases hres : db.moveProjectWorkspace proj from' to' with
  | error e => exact hsame
  | ok db' =>
    obtain ⟨reg, hreg, hplaces, rfl⟩ := moveProjectWorkspace_ok hres
    exact hmove reg hreg hplaces

lemma dbStep_moveSession {sid : SessionId} {mode : PagesMode} (hsame : P db)
    (hmove : ∀ r index, commit = true → db.store.findSession sid = some r →
      db.present ws proj →
      moveSessionPages (moveSessionRows db r ws proj).index r ws proj mode now = .ok index →
      P { moveSessionRows db r ws proj with index := index }) :
    P (dbStep E db (.moveSession sid ws proj mode commit now)) := by
  rw [dbStep]
  cases hres : db.moveSession sid ws proj mode commit now with
  | error e => exact hsame
  | ok out =>
    obtain ⟨summary, db'⟩ := out
    obtain ⟨r, hfind, hthere, index, hindex, rfl⟩ := moveSession_ok hres
    cases commit with
    | false => exact hsame
    | true => exact hmove r index rfl hfind hthere hindex

end Steps

end Database
