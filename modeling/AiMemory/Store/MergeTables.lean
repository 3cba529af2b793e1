/-
What a committed merge leaves in every table.

Every table is re-stamped on its own, so that nothing is filed under the source
when its row goes, and the cascade of that delete takes nothing with it.

* `mergeProject_tables` — the whole merge, table by table.
-/
import AiMemory.Store.MergeSteps

open Table Runs List

namespace Store

lemma insertPage_frame {s s' : Store} {row : PageRow} (h : s.insertPage row = .ok s') :
    s.paired row.workspaceId row.projectId ∧ s' = { s with pages := s.pages ++ [row] } := by
  refine ⟨?_, (insertPage_ok h).1⟩
  unfold insertPage at h
  split at h
  · cases h
  · rename_i hpaired
    simpa using hpaired

lemma insertPage_head {s s' : Store} {row : PageRow} (h : s.insertPage row = .ok s')
    (hrow : row.isLatest) :
    ∀ r ∈ s.pages, r.isLatest = true → r.place ≠ row.place := by
  unfold insertPage at h
  split at h
  · cases h
  · split at h
    · cases h
    · rename_i hkeys
      intro r hr hlatest hplace
      refine hkeys (any_eq_true.mpr ⟨r, hr, ?_⟩)
      rw [hrow, hlatest, atPath_iff.mpr hplace]
      simp

lemma upsertPage_frame {C : PageCodec} {s s' : Store} {page : NewPage} {id id' : PageId}
    {now : ℤ} {tie : ℕ} (h : upsertPage C s page id now tie = .ok (id', s')) :
    s' = { s with pages := s'.pages } := by
  rcases upsertPage_ok h with ⟨existing, -, -, -, rfl⟩ | ⟨existing, -, -, hins⟩ | ⟨-, -, -, hins⟩
  · rfl
  · rw [(insertPage_frame hins).2]
    rfl
  · rw [(insertPage_frame hins).2]
    cases s.mostRecentTombstoneAtPath page tie <;> rfl

lemma upsertPage_places {C : PageCodec} {s s' : Store} {page : NewPage} {id id' : PageId}
    {now : ℤ} {tie : ℕ} (h : upsertPage C s page id now tie = .ok (id', s')) :
    ∀ r' ∈ s'.pages, (∃ r ∈ s.pages, r'.id = r.id ∧ r'.place = r.place) ∨
      r'.place = (page.workspaceId, page.projectId, page.path) := by
  -- an insert into rows that are where they were
  have hinsert : ∀ {base : Store} {supersedes : Option PageId},
      (∀ r' ∈ base.pages, ∃ r ∈ s.pages, r'.id = r.id ∧ r'.place = r.place) →
      base.insertPage (pageVersion C page supersedes id now) = .ok s' →
      ∀ r' ∈ s'.pages, (∃ r ∈ s.pages, r'.id = r.id ∧ r'.place = r.place) ∨
        r'.place = (page.workspaceId, page.projectId, page.path) := by
    intro base supersedes hbase hins r' hr'
    rw [(insertPage_frame hins).2] at hr'
    rcases mem_append.mp hr' with hr' | hr'
    · exact .inl (hbase r' hr')
    · rw [mem_singleton.mp hr']
      exact .inr rfl
  -- an update that moves no row
  have hupdate : ∀ {p : PageRow → Bool} {f : PageRow → PageRow}, (∀ r, (f r).id = r.id) →
      (∀ r, (f r).place = r.place) →
      ∀ r' ∈ update p f s.pages, ∃ r ∈ s.pages, r'.id = r.id ∧ r'.place = r.place := by
    intro p f hid hplace r' hr'
    obtain ⟨r, hr, rfl⟩ := mem_update.mp hr'
    refine ⟨r, hr, ?_⟩
    split
    · exact ⟨hid r, hplace r⟩
    · exact ⟨rfl, rfl⟩
  rcases upsertPage_ok h with ⟨existing, -, -, -, rfl⟩ | ⟨existing, -, -, hins⟩ | ⟨-, -, -, hins⟩
  · exact fun r hr => .inl ⟨r, hr, rfl, rfl⟩
  · refine hinsert ?_ hins
    exact hupdate (fun _ => rfl) (fun _ => rfl)
  · refine hinsert ?_ hins
    cases s.mostRecentTombstoneAtPath page tie with
    | none => exact fun r hr => ⟨r, hr, rfl, rfl⟩
    | some b => exact hupdate (fun _ => rfl) (fun _ => rfl)

lemma deletePages_of_none {s : Store} {p : PageRow → Bool} (h : ∀ r ∈ s.pages, p r = false) :
    s.deletePages p = s := by
  have hgone : ∀ id, (s.pages.any fun r => p r && r.id = id) = false := by
    intro id
    rw [any_eq_false]
    intro r hr
    rw [h r hr]
    simp
  unfold deletePages
  simp only [hgone]
  rw [delete_eq_self h, update_eq_self fun r _ => by simp, update_eq_self fun r _ => by simp]

lemma deleteSessions_of_none {s : Store} {p : SessionRow → Bool}
    (h : ∀ r ∈ s.sessions, p r = false) : s.deleteSessions p = s := by
  have hgone : ∀ id, (s.sessions.any fun r => p r && r.id = id) = false := by
    intro id
    rw [any_eq_false]
    intro r hr
    rw [h r hr]
    simp
  unfold deleteSessions
  simp only [hgone]
  rw [delete_eq_self h, delete_eq_self fun o _ => rfl, delete_eq_self fun j _ => rfl,
    delete_eq_self fun k _ => by simp]

variable {n : Directory} {C : IndexCodec} {d d' : Indexed} {page : IndexedPage} {id id' : PageId}
  {now entityNow : ℤ} {tie : ℕ} {mint : String → EntityId}

/-! ### Entities -/

def Indexed.About (d : Indexed) (id : PageId) (name : String) : Prop :=
  ∃ l ∈ d.entityLinks, l.pageId = id ∧ ∃ e ∈ d.entities, e.id = l.entityId ∧ e.name = name

structure AddsEntities (d d' : Indexed) (proj : ProjectId) : Prop where
  ids : KeyUnique EntityRow.id d.entities → KeyUnique EntityRow.id d'.entities
  kept : ∀ e ∈ d.entities, e ∈ d'.entities
  added : ∀ e ∈ d'.entities, e ∈ d.entities ∨ e.projectId = proj
  linked : ∀ l ∈ d.entityLinks, ∃ l' ∈ d'.entityLinks, l'.entityId = l.entityId ∧
    l'.pageId = l.pageId

lemma AddsEntities.refl (d : Indexed) (proj : ProjectId) : AddsEntities d d proj :=
  ⟨fun h => h, fun _ h => h, fun _ h => .inl h, fun l hl => ⟨l, hl, rfl, rfl⟩⟩

lemma AddsEntities.trans {d'' : Indexed} {proj : ProjectId} (h : AddsEntities d d' proj)
    (h' : AddsEntities d' d'' proj) : AddsEntities d d'' proj := by
  refine ⟨fun hids => h'.ids (h.ids hids), fun e he => h'.kept e (h.kept e he), ?_, ?_⟩
  · intro e he
    rcases h'.added e he with he | he
    · exact h.added e he
    · exact .inr he
  · intro l hl
    obtain ⟨l', hl', hentity, hpage⟩ := h.linked l hl
    obtain ⟨l'', hl'', hentity', hpage'⟩ := h'.linked l' hl'
    exact ⟨l'', hl'', hentity'.trans hentity, hpage'.trans hpage⟩

lemma AddsEntities.about {proj : ProjectId} (h : AddsEntities d d' proj) {name : String}
    (habout : d.About id name) : d'.About id name := by
  obtain ⟨l, hl, hpage, e, he, hid, hname⟩ := habout
  obtain ⟨l', hl', hentity', hpage'⟩ := h.linked l hl
  exact ⟨l', hl', hpage'.trans hpage, e, h.kept e he, hid.trans hentity'.symm, hname⟩

lemma attachEntity_adds {p : NewPage} {name : String}
    (h : attachEntity p id now entityNow mint d name = .ok d') :
    AddsEntities d d' p.projectId := by
  obtain ⟨⟨entityId, entities⟩, hupsert, hret⟩ := bind_ok.mp h
  cases hret
  have hlinked : ∀ l ∈ d.entityLinks, ∃ l' ∈ (if d.entityLinks.any fun l =>
      l.entityId = entityId && l.pageId = id then d.entityLinks
      else d.entityLinks ++ [⟨entityId, id, some now, none⟩]), l'.entityId = l.entityId ∧
        l'.pageId = l.pageId := by
    intro l hl
    refine ⟨l, ?_, rfl, rfl⟩
    split
    · exact hl
    · exact mem_append_left _ hl
  unfold upsertEntity at hupsert
  split at hupsert
  · cases hupsert
    exact ⟨fun h => h, fun _ he => he, fun _ he => .inl he, hlinked⟩
  · split at hupsert
    · cases hupsert
    · rename_i hfresh
      cases hupsert
      refine ⟨fun hids => ?_, fun _ he => mem_append_left _ he, ?_, hlinked⟩
      · refine keyUnique_append_singleton.mpr ⟨hids, fun e he hid => hfresh ?_⟩
        exact any_eq_true.mpr ⟨e, he, by simpa using hid⟩
      · intro e he
        rcases mem_append.mp he with he | he
        · exact .inl he
        · rw [mem_singleton.mp he]
          exact .inr rfl

lemma indexVersion_adds (h : indexVersion n C d page id now entityNow mint = .ok (id', d')) :
    AddsEntities d d' page.projectId := by
  obtain ⟨e, he, hret⟩ := bind_ok.mp h
  cases hret
  have hattached : AddsEntities (replaceLinks n d id page) e page.projectId :=
    foldlM_invariant (I := fun x => AddsEntities (replaceLinks n d id page) x page.projectId)
      (fun name _ x y hx hxy => hx.trans (attachEntity_adds hxy)) (.refl _ _) he
  exact ⟨hattached.ids, hattached.kept, hattached.added, hattached.linked⟩

lemma closeEntityLinks_linked {links : List EntityLinkRow} {l : EntityLinkRow}
    (hl : l ∈ links) (id : PageId) (now : ℤ) :
    ∃ l' ∈ closeEntityLinks links id now, l'.entityId = l.entityId ∧ l'.pageId = l.pageId := by
  refine ⟨_, mem_update.mpr ⟨l, hl, rfl⟩, ?_⟩
  split <;> exact ⟨rfl, rfl⟩

lemma upsertPageIndexed_entities
    (h : upsertPageIndexed n C d page id now entityNow tie mint = .ok (id', d')) :
    AddsEntities d d' page.projectId := by
  unfold upsertPageIndexed at h
  split at h
  · rename_i existing hlatest
    split at h
    · cases h
      exact .refl d _
    · obtain ⟨s, -, hindex⟩ := bind_ok.mp h
      refine AddsEntities.trans ?_ (indexVersion_adds hindex)
      exact ⟨fun h => h, fun _ he => he, fun _ he => .inl he, fun l hl =>
        closeEntityLinks_linked hl existing.id now⟩
  · split at h
    · cases h
    · obtain ⟨s, -, hindex⟩ := bind_ok.mp h
      refine AddsEntities.trans ?_ (indexVersion_adds hindex)
      exact ⟨fun h => h, fun _ he => he, fun _ he => .inl he, fun l hl => ⟨l, hl, rfl, rfl⟩⟩

end Store

namespace Database

open Store Projects

variable {C : IndexCodec} {n : Directory} {db db' : Database} {ws : WorkspaceId}
  {source target : ProjectId} {pages : List MergeProjectPage} {now : ℤ} {draws : MergeDraws}
  {d d' : Indexed}

lemma writeMerged_ok {page : MergeProjectPage}
    (h : writeMerged C n ws target now draws d page = .ok d') :
    (page.mergedPage = none ∧ d' = d) ∨
      ∃ merged createdAt mergedId e, page.mergedPage = some merged ∧ merged.workspaceId = ws ∧
        merged.projectId = target ∧
        ((d.store.pages.filter fun r => r.projectId = target && r.path = page.path).map
          (·.createdAt)).min? = some createdAt ∧
        upsertPageIndexed n C d merged (draws.version page.sourcePageId) now
          (draws.entityNow page.sourcePageId) (draws.tie page.sourcePageId)
          (draws.entity page.sourcePageId) = .ok (mergedId, e) ∧
        d' = { e with
          store := { e.store with
            pages := update (fun r => r.id = mergedId) (fun r => { r with createdAt := createdAt })
              e.store.pages } } := by
  unfold writeMerged at h
  split at h
  · rename_i hnone
    cases h
    exact .inl ⟨hnone, rfl⟩
  · rename_i merged hmerged
    split at h
    · cases h
    · rename_i hscope
      rw [not_or, not_not, not_not] at hscope
      split at h
      · cases h
      · rename_i createdAt hmin
        obtain ⟨⟨mergedId, e⟩, hupsert, hret⟩ := bind_ok.mp h
        cases hret
        exact .inr ⟨merged, createdAt, mergedId, e, hmerged, hscope.1, hscope.2, hmin, hupsert, rfl⟩

/-- The combined versions touch the pages of the target, its entities and the
links, and no other table. -/
structure MergedFrame (d d' : Indexed) (target : ProjectId) : Prop where
  store : d'.store = { d.store with pages := d'.store.pages }
  entities : AddsEntities d d' target

lemma writeMerged_frame {page : MergeProjectPage}
    (h : writeMerged C n ws target now draws d page = .ok d') : MergedFrame d d' target := by
  rcases writeMerged_ok h with ⟨-, rfl⟩ | ⟨merged, createdAt, mergedId, e, -, -, rfl, -, hup, rfl⟩
  · exact ⟨rfl, .refl d' target⟩
  · have hrows := upsertPage_frame (upsertPageIndexed_ok hup).1
    have hentities := upsertPageIndexed_entities hup
    refine ⟨?_, hentities.ids, hentities.kept, hentities.added, hentities.linked⟩
    simp only
    rw [hrows]

lemma mergedVersions_frame (h : pages.foldlM (writeMerged C n ws target now draws) d = .ok d') :
    MergedFrame d d' target := by
  refine foldlM_invariant (I := fun x => MergedFrame d x target) ?_ ⟨rfl, .refl d target⟩ h
  intro page _ x y hx hxy
  have hy := writeMerged_frame hxy
  refine ⟨?_, hx.entities.trans hy.entities⟩
  rw [hy.store, hx.store]

def AboutIn (d : List EntityRow × List EntityLinkRow) (id : PageId) (name : String) : Prop :=
  ∃ l ∈ d.2, l.pageId = id ∧ ∃ e ∈ d.1, e.id = l.entityId ∧ e.name = name

lemma mem_duplicateEntities {entities : List EntityRow} {pair : EntityRow × EntityRow}
    (h : pair ∈ duplicateEntities entities source target) :
    pair.1 ∈ entities ∧ pair.1.projectId = source ∧ pair.2 ∈ entities ∧
      pair.2.projectId = target ∧ pair.2.name = pair.1.name := by
  obtain ⟨e, he, hpair⟩ := mem_filterMap.mp h
  rw [mem_filter, decide_eq_true_eq] at he
  obtain ⟨t, ht, rfl⟩ := Option.map_eq_some_iff.mp hpair
  have hmatch := find?_some ht
  rw [Bool.and_eq_true, Bool.and_eq_true, decide_eq_true_eq, decide_eq_true_eq,
    decide_eq_true_eq] at hmatch
  exact ⟨he.1, he.2, mem_of_find?_eq_some ht, hmatch.1.2, hmatch.2⟩

lemma mergeEntity_ok {rows : List PageRow} {x y : List EntityRow × List EntityLinkRow}
    {pair : EntityRow × EntityRow} (h : mergeEntity rows x pair = .ok y) :
    y = (delete (fun e => e.id = pair.1.id) x.1, delete (fun l => l.entityId = pair.1.id)
        (x.2 ++ ((x.2.filter fun l => l.entityId = pair.1.id).map
          fun l => { l with entityId := pair.2.id }).filter fun l =>
            !x.2.any fun k => k.entityId = l.entityId && k.pageId = l.pageId)) := by
  unfold mergeEntity at h
  simp only at h
  split at h
  · cases h
  · cases h
    rfl

lemma mergeEntity_about {rows : List PageRow} {x y : List EntityRow × List EntityLinkRow}
    {e t : EntityRow} (h : mergeEntity rows x (e, t) = .ok y) (hne : t.id ≠ e.id) (ht : t ∈ x.1)
    (hname : t.name = e.name) (hone : ∀ a ∈ x.1, a.id = e.id → a = e) {id : PageId}
    {name : String} (habout : AboutIn x id name) : AboutIn y id name := by
  obtain ⟨l, hl, hpage, a, ha, hid, haname⟩ := habout
  rw [mergeEntity_ok h]
  by_cases hae : a.id = e.id
  · -- the link is rewritten to the target's entity, unless that link is there
    have hae' : a = e := hone a ha hae
    have htkept : t ∈ delete (fun e' => e'.id = e.id) x.1 :=
      mem_delete.mpr ⟨ht, by simpa using hne⟩
    have htname : t.name = name := by rw [hname, ← hae', haname]
    by_cases hknown : (x.2.any fun k => k.entityId = t.id && k.pageId = l.pageId)
    · obtain ⟨k, hk, hmatch⟩ := any_eq_true.mp hknown
      rw [Bool.and_eq_true, decide_eq_true_eq, decide_eq_true_eq] at hmatch
      refine ⟨k, mem_delete.mpr ⟨mem_append_left _ hk, ?_⟩, hmatch.2.trans hpage, t, htkept,
        hmatch.1.symm, htname⟩
      rw [hmatch.1]
      simpa using hne
    · refine ⟨{ l with entityId := t.id }, mem_delete.mpr ⟨mem_append_right _ ?_, ?_⟩, hpage, t,
        htkept, rfl, htname⟩
      · refine mem_filter.mpr ⟨mem_map.mpr ⟨l, mem_filter.mpr ⟨hl, ?_⟩, rfl⟩, ?_⟩
        · simpa using hid.symm.trans hae
        · rw [Bool.not_eq_true] at hknown
          simpa using hknown
      · simpa using hne
  · refine ⟨l, mem_delete.mpr ⟨mem_append_left _ hl, ?_⟩, hpage, a, mem_delete.mpr ⟨ha, ?_⟩,
      hid, haname⟩
    · rw [← hid]
      simpa using hae
    · simpa using hae

lemma mergeEntities_ok (hids : KeyUnique EntityRow.id d.entities) (hne : source ≠ target)
    (h : mergeEntities d source target = .ok d') :
    d'.store = d.store ∧ d'.links = d.links ∧ KeyUnique EntityRow.id d'.entities ∧
      (∀ e ∈ d'.entities, e.projectId ≠ source) ∧
      ∀ id name, d.About id name → d'.About id name := by
  obtain ⟨⟨entities, entityLinks⟩, hloop, h⟩ := bind_ok.mp h
  obtain ⟨entities', hchecked, h⟩ := bind_ok.mp h
  cases h
  rw [checkedEntities_ok hchecked]
  -- the loop takes entities of the source away, and keeps the names
  have hinv : (∀ e ∈ entities, e ∈ d.entities) ∧ KeyUnique EntityRow.id entities ∧
      (∀ t ∈ d.entities, t.projectId = target → t ∈ entities) ∧
      ∀ id name, d.About id name → AboutIn (entities, entityLinks) id name := by
    refine foldlM_invariant (s := (d.entities, d.entityLinks))
      (I := fun x : List EntityRow × List EntityLinkRow => (∀ e ∈ x.1, e ∈ d.entities) ∧
      KeyUnique EntityRow.id x.1 ∧
      (∀ t ∈ d.entities, t.projectId = target → t ∈ x.1) ∧
      ∀ id name, d.About id name → AboutIn x id name) ?_
      ⟨fun _ h => h, hids, fun _ h _ => h, fun _ _ h => h⟩ hloop
    rintro ⟨e, t⟩ hpair x y ⟨hsub, hkeys, htargets, habout⟩ hxy
    obtain ⟨he, hesource, ht, httarget, hname⟩ := mem_duplicateEntities hpair
    have hdiff : t.id ≠ e.id := by
      intro hid
      have heq : t = e := hids.eq ht he hid
      rw [heq, hesource] at httarget
      exact hne httarget
    have hone : ∀ a ∈ x.1, a.id = e.id → a = e := fun a ha hid => hids.eq (hsub a ha) he hid
    refine ⟨?_, ?_, ?_, fun id name h => ?_⟩
    · intro a ha
      rw [mergeEntity_ok hxy] at ha
      exact hsub a (delete_subset ha)
    · rw [mergeEntity_ok hxy]
      exact hkeys.delete
    · intro a ha hatarget
      rw [mergeEntity_ok hxy]
      refine mem_delete.mpr ⟨htargets a ha hatarget, decide_eq_false fun hid => ?_⟩
      rw [hids.eq ha he hid, hesource] at hatarget
      exact hne hatarget
    · exact mergeEntity_about hxy hdiff (htargets t ht httarget) hname hone (habout id name h)
  obtain ⟨-, hkeys, -, habout⟩ := hinv
  refine ⟨rfl, rfl, hkeys.update fun _ => rfl, fun e he => ?_, fun id name h => ?_⟩
  · exact ne_of_mem_update EntityRow.projectId hne.symm (fun _ => rfl) he
  · obtain ⟨l, hl, hpage, e, he, hid, hname⟩ := habout id name h
    refine ⟨l, hl, hpage, _, mem_update.mpr ⟨e, he, rfl⟩, ?_⟩
    split <;> exact ⟨hid, hname⟩

/-! ### Pages -/

def retiredRow (now : ℤ) (r : PageRow) : PageRow :=
  { r with
    isLatest := false
    validTo := some now }

def collidingHeads (pages : List MergeProjectPage) : List PageId :=
  (pages.filter (·.targetPageId.isSome)).map (·.sourcePageId)

lemma foldl_retireHead_pages (now : ℤ) (ids : List PageId) (d : Indexed) :
    (ids.foldl (retireHead now) d).store.pages =
      update (fun r => decide (r.id ∈ ids) && r.isLatest) (retiredRow now) d.store.pages := by
  induction ids generalizing d with
  | nil => exact (update_eq_self fun r _ => by simp).symm
  | cons id ids ih =>
    rw [foldl_cons, ih, retireHead]
    simp only [update]
    rw [map_map]
    refine map_congr_left fun r _ => ?_
    rw [Function.comp_apply]
    by_cases hlatest : r.isLatest
    · by_cases hid : r.id = id
      · simp [hid, hlatest, retiredRow]
      · simp [hid]
    · simp [hlatest]

lemma foldl_retireHead_frame (now : ℤ) (ids : List PageId) (d : Indexed) :
    (ids.foldl (retireHead now) d).store =
        { d.store with pages := (ids.foldl (retireHead now) d).store.pages } ∧
      (ids.foldl (retireHead now) d).entities = d.entities ∧
      (∀ l ∈ d.entityLinks, ∃ l' ∈ (ids.foldl (retireHead now) d).entityLinks,
        l'.entityId = l.entityId ∧ l'.pageId = l.pageId) := by
  induction ids generalizing d with
  | nil => exact ⟨rfl, rfl, fun l hl => ⟨l, hl, rfl, rfl⟩⟩
  | cons id ids ih =>
    obtain ⟨hstore, hentities, hlinks⟩ := ih (retireHead now d id)
    refine ⟨hstore, hentities, fun l hl => ?_⟩
    obtain ⟨l₁, hl₁, hentity₁, hpage₁⟩ := closeEntityLinks_linked hl id now
    obtain ⟨l₂, hl₂, hentity₂, hpage₂⟩ := hlinks l₁ hl₁
    exact ⟨l₂, hl₂, hentity₂.trans hentity₁, hpage₂.trans hpage₁⟩

lemma retireHeads_about (d : Indexed) {id : PageId} {name : String} (h : d.About id name) :
    (retireHeads d pages now).About id name := by
  obtain ⟨-, hentities, hlinks⟩ := foldl_retireHead_frame now (collidingHeads pages) d
  obtain ⟨l, hl, hpage, e, he, hid, hname⟩ := h
  obtain ⟨l', hl', hentity', hpage'⟩ := hlinks l hl
  exact ⟨l', hl', hpage'.trans hpage, e, hentities.symm ▸ he, hid.trans hentity'.symm, hname⟩

/-- The rows of `pages` before the combined versions are written. -/
def restampedPages (rows : List PageRow) (source target : ProjectId)
    (pages : List MergeProjectPage) (now : ℤ) : List PageRow :=
  update (fun r => r.projectId = source) (fun r => { r with projectId := target })
    (update (fun r => decide (r.id ∈ collidingHeads pages) && r.isLatest) (retiredRow now) rows)

/-- The tables of the store after the `UPDATE`s of a merge. -/
def restampedStore (s : Store) (source target : ProjectId) (pages : List MergeProjectPage)
    (now : ℤ) : Store :=
  { s with
    pages := restampedPages s.pages source target pages now
    sessions := update (fun r => r.projectId = source) (fun r => { r with projectId := target })
      s.sessions
    observations := update (fun o => o.projectId = source)
      (fun o => { o with projectId := target }) s.observations
    jobs := update (fun j => j.projectId = source) (fun j => { j with projectId := target }) s.jobs
    purgedSessions := update (fun t => t.projectId = source)
      (fun t => { t with projectId := target }) s.purgedSessions }

lemma restampStore_ok {s : Store} (h : restampStore (retireHeads d pages now).store source target =
    .ok s) :
    s = restampedStore d.store source target pages now ∧ (latestPlaces s.pages).Nodup := by
  obtain ⟨rows, hrows, h⟩ := bind_ok.mp h
  obtain ⟨rfl, hnodup⟩ := checkedPages_ok hrows
  cases h
  refine ⟨?_, hnodup⟩
  obtain ⟨hstore, -⟩ := foldl_retireHead_frame now (collidingHeads pages) d
  rw [foldl_retireHead_pages] at hstore
  have hretired : (retireHeads d pages now).store = { d.store with
      pages := update (fun r => decide (r.id ∈ collidingHeads pages) && r.isLatest)
        (retiredRow now) d.store.pages } := hstore
  rw [hretired]
  rfl

structure Unfiled (db : Database) (proj : ProjectId) : Prop where
  pages : ∀ r ∈ db.store.pages, r.projectId ≠ proj
  sessions : ∀ r ∈ db.store.sessions, r.projectId ≠ proj
  observations : ∀ o ∈ db.store.observations, o.projectId ≠ proj
  jobs : ∀ j ∈ db.store.jobs, j.projectId ≠ proj
  ingestKeys : ∀ k ∈ db.store.ingestKeys, k.projectId ≠ proj
  purgedSessions : ∀ t ∈ db.store.purgedSessions, t.projectId ≠ proj
  entities : ∀ e ∈ db.index.entities, e.projectId ≠ proj
  handoffs : ∀ h ∈ db.handoffs, h.projectId ≠ proj
  messages : ∀ m ∈ db.messages, m.fromProjectId ≠ proj ∧ m.toProjectId ≠ proj
  workstreams : ∀ w ∈ db.workstreams, w.projectId ≠ proj

lemma deleteProjectRow_of_unfiled {proj : ProjectId} (hthere : db.present ws proj)
    (hpaired : db.store.paired ws proj) (h : db.Unfiled proj) :
    db.deleteProjectRow ws proj = { db with
        index := { db.index with
          store := { db.store with
            projects := delete (fun p => p.id = proj && p.workspaceId = ws) db.store.projects } }
        registry := deleteProjectRows db.registry ws proj } := by
  have hpage : ∀ id, (db.store.pages.any fun r => r.projectId = proj && r.id = id) = false :=
    fun id => any_eq_false.mpr fun r hr => by simp [h.pages r hr]
  have hsession : ∀ id, (db.store.sessions.any fun r => r.projectId = proj && r.id = id) = false :=
    fun id => any_eq_false.mpr fun r hr => by simp [h.sessions r hr]
  have hentity : ∀ id, (db.index.entities.any fun e => e.projectId = proj && e.id = id) = false :=
    fun id => any_eq_false.mpr fun e he => by simp [h.entities e he]
  have hstream : ∀ id, (db.workstreams.any fun w => w.projectId = proj && w.id = id) = false :=
    fun id => any_eq_false.mpr fun w hw => by simp [h.workstreams w hw]
  have hstore : db.store.deleteProject ws proj = { db.store with
      projects := delete (fun p => p.id = proj && p.workspaceId = ws) db.store.projects } := by
    have hobservations := delete_of_ne ObservationRow.projectId h.observations
    have hjobs := delete_of_ne JobRow.projectId h.jobs
    have hkeys := delete_of_ne IngestKeyRow.projectId h.ingestKeys
    have hpurged := delete_of_ne PurgedSessionRow.projectId h.purgedSessions
    rw [deleteProject, if_pos hpaired, deletePages_of_none fun r hr => by simp [h.pages r hr]]
    simp only
    rw [deleteSessions_of_none fun r hr => by simp [h.sessions r hr], hobservations, hjobs, hkeys,
      hpurged]
  have hreleased : ∀ sid : Option SessionId, (sid.filter fun _ => !false) = sid := by
    intro sid
    cases sid <;> rfl
  have hentities := delete_of_ne EntityRow.projectId h.entities
  have hentityLinks : delete (fun _ => false || false) db.index.entityLinks =
      db.index.entityLinks := delete_eq_self fun _ _ => rfl
  have hlinks : update (fun l => l.toPageId.any fun _ => false)
      (fun l => { l with toPageId := none }) (delete (fun _ => false) db.index.links) =
        db.index.links := by
    rw [delete_eq_self fun _ _ => rfl, update_eq_self fun l _ => by simp]
  have hhandoffs := delete_of_ne Handoffs.HandoffRow.projectId h.handoffs
  have hmessages : delete (fun m => m.fromProjectId = proj || m.toProjectId = proj) db.messages =
      db.messages := delete_eq_self fun m hm => by simp [h.messages m hm]
  have hstreams := delete_of_ne WorkstreamRow.projectId h.workstreams
  have hruns : delete (fun _ => false) db.runs = db.runs := delete_eq_self fun _ _ => rfl
  rw [deleteProjectRow, if_pos hthere]
  simp only [hpage, hsession, hentity, hstream, hstore, hreleased, hentityLinks, hlinks, hmessages,
    hruns, hentities, hhandoffs, hstreams, map_id']

lemma mergeWorkstreams_ok {streams streams' : List WorkstreamRow}
    (h : mergeWorkstreams streams source target = .ok streams') :
    streams' = update (fun w => w.projectId = source) (fun w => { w with projectId := target })
      (update (fun w => w.projectId = source && streamCollides streams target w)
        (fun w => { w with name := disambiguated source w }) streams) := by
  obtain ⟨renamed, hrenamed, h⟩ := bind_ok.mp h
  rw [checkedWorkstreams_ok hrenamed] at h
  exact checkedWorkstreams_ok h

lemma mem_mergeMessages (hne : source ≠ target) {messages : List Messages.MessageRow}
    {m : Messages.MessageRow} (hm : m ∈ mergeMessages messages source target) :
    m.fromProjectId ≠ source ∧ m.toProjectId ≠ source := by
  refine ⟨?_, ne_of_mem_update Messages.MessageRow.toProjectId hne.symm (fun _ => rfl) hm⟩
  obtain ⟨m₁, hm₁, rfl⟩ := mem_update.mp hm
  have hfrom : m₁.fromProjectId ≠ source :=
    ne_of_mem_update Messages.MessageRow.fromProjectId hne.symm (fun _ => rfl) hm₁
  split <;> exact hfrom

lemma mergedVersions_unfiled (hne : source ≠ target)
    (hd : ∀ r ∈ d.store.pages, r.projectId ≠ source)
    (h : pages.foldlM (writeMerged C n ws target now draws) d = .ok d') :
    ∀ r ∈ d'.store.pages, r.projectId ≠ source := by
  refine foldlM_invariant (I := fun x : Indexed => ∀ r ∈ x.store.pages, r.projectId ≠ source) ?_
    hd h
  intro page _ x y hx hxy
  rcases writeMerged_ok hxy with ⟨-, rfl⟩ | ⟨merged, createdAt, mergedId, e, -, -, htarget, -, hup, rfl⟩
  · exact hx
  · intro r' hr'
    obtain ⟨r, hr, rfl⟩ := mem_update.mp hr'
    have hproj : r.projectId ≠ source := by
      rcases upsertPage_places (upsertPageIndexed_ok hup).1 r hr with ⟨r₀, hr₀, -, hplace⟩ | hplace
      · rw [PageRow.place, PageRow.place, Prod.mk.injEq, Prod.mk.injEq] at hplace
        rw [hplace.2.1]
        exact hx r₀ hr₀
      · rw [PageRow.place, Prod.mk.injEq, Prod.mk.injEq] at hplace
        rw [hplace.2.1, htarget]
        exact hne.symm
    split <;> exact hproj

lemma mergeStatements_tables (hids : KeyUnique EntityRow.id db.index.entities)
    (hprojects : db.store.projects = db.registry.projects.map Project.row)
    (hacc : Accepted C db ws source target pages)
    (h : mergeStatements C n db ws source target pages now draws = .ok db') :
    ∃ index index' workstreams, index.store = { restampedStore db.store source target pages now with
        ingestKeys := mergeIngestKeys db.store.ingestKeys source target } ∧
      (latestPlaces index.store.pages).Nodup ∧ KeyUnique EntityRow.id index.entities ∧
      (∀ id name, db.index.About id name → index.About id name) ∧
      pages.foldlM (writeMerged C n ws target now draws) index = .ok index' ∧
      mergeWorkstreams db.workstreams source target = .ok workstreams ∧
      db' = { mergedRows db source target index' workstreams with
        index := { index' with
          store := { index'.store with
            projects := delete (fun p => p.id = source && p.workspaceId = ws)
              index'.store.projects } }
        registry := deleteProjectRows (mergeGrants (mergePolicy db.registry source target) source
          target) ws source } := by
  obtain ⟨index, index', workstreams, ⟨store, hstore, hentities⟩, hfold, hstreams, hthere, rfl⟩ :=
    mergeStatements_ok h
  obtain ⟨hstore, hnodup⟩ := restampStore_ok hstore
  have hkeys₀ : KeyUnique EntityRow.id
      ({ retireHeads db.index pages now with store := store } : Indexed).entities := by
    change KeyUnique EntityRow.id (retireHeads db.index pages now).entities
    rw [show (retireHeads db.index pages now).entities = db.index.entities from
      (foldl_retireHead_frame now (collidingHeads pages) db.index).2.1]
    exact hids
  obtain ⟨hkept, -, hkeys, hentities, habout⟩ := mergeEntities_ok hkeys₀ hacc.differ hentities
  have hrows : (withMergedKeys index source target).store =
      { restampedStore db.store source target pages now with
        ingestKeys := mergeIngestKeys db.store.ingestKeys source target } := by
    rw [withMergedKeys, hkept, hstore]
    rfl
  have hframe := mergedVersions_frame hfold
  have hstore' := hframe.store
  rw [hrows] at hstore'
  refine ⟨withMergedKeys index source target, index', workstreams, hrows, ?_, hkeys, ?_, hfold,
    hstreams, deleteProjectRow_of_unfiled hthere ?_ ?_⟩
  · rw [hrows, ← hstore]
    exact hnodup
  · exact fun id name hab => habout id name (retireHeads_about db.index hab)
  · -- the pairing triggers see the project as long as its row is there
    change index'.store.paired ws source = true
    rw [hstore']
    change db.store.paired ws source = true
    have hpresent := hacc.sourceThere
    rw [paired, hprojects, any_map]
    exact hpresent
  · -- nothing is left under the source
    have hne := hacc.differ
    have hfiled : ∀ r ∈ index'.store.pages, r.projectId ≠ source := by
      refine mergedVersions_unfiled hne ?_ hfold
      rw [hrows]
      exact fun r hr => ne_of_mem_update PageRow.projectId hne.symm (fun _ => rfl) hr
    have hentities' : ∀ e ∈ index'.entities, e.projectId ≠ source := by
      intro e he
      rcases hframe.entities.added e he with he | he
      · exact hentities e he
      · rw [he]
        exact hne.symm
    have hstreams' : ∀ w ∈ workstreams, w.projectId ≠ source := by
      intro w hw
      rw [mergeWorkstreams_ok hstreams] at hw
      exact ne_of_mem_update WorkstreamRow.projectId hne.symm (fun _ => rfl) hw
    refine ⟨hfiled, ?_, ?_, ?_, ?_, ?_, hentities', ?_, fun m hm => mem_mergeMessages hne hm,
      hstreams'⟩
    · change ∀ r ∈ index'.store.sessions, _
      rw [hstore']
      exact fun r hr => ne_of_mem_update SessionRow.projectId hne.symm (fun _ => rfl) hr
    · change ∀ o ∈ index'.store.observations, _
      rw [hstore']
      exact fun o ho => ne_of_mem_update ObservationRow.projectId hne.symm (fun _ => rfl) ho
    · change ∀ j ∈ index'.store.jobs, _
      rw [hstore']
      exact fun j hj => ne_of_mem_update JobRow.projectId hne.symm (fun _ => rfl) hj
    · change ∀ k ∈ index'.store.ingestKeys, _
      rw [hstore']
      exact fun k hk => of_decide_eq_false (mem_delete.mp hk).2
    · change ∀ t ∈ index'.store.purgedSessions, _
      rw [hstore']
      exact fun t ht => ne_of_mem_update PurgedSessionRow.projectId hne.symm (fun _ => rfl) ht
    · exact fun m hm => ne_of_mem_update Handoffs.HandoffRow.projectId hne.symm (fun _ => rfl) hm

end Database
