/-
A committed merge loses nothing.

Every version, session, observation, handoff, workstream, message, job and
ingest key of the source is found under the target.  What the target had stays
as it was, but for the heads the combined versions are written over and the
ingest keys both projects had claimed.
-/
import AiMemory.Store.DbInvariant

open Table Runs List

namespace Database

open Store Projects

variable {E : Env} {C : IndexCodec} {n : Directory} {db db' : Database} {ws : WorkspaceId}
  {source target : ProjectId} {pages plan : List MergeProjectPage} {now : ℤ} {draws : MergeDraws}
  {d d' : Indexed}

/-! ### Heads -/

theorem upsertPage_headed {K : PageCodec} {s s' : Store} (h : Filed s) {page : NewPage}
    {id id' : PageId} {tie : ℕ} (hok : upsertPage K s page id now tie = .ok (id', s')) {b : PageRow}
    (hb : b ∈ s.pages) (hlatest : b.isLatest) :
    ∃ b' ∈ s'.pages, b'.isLatest = true ∧ b'.place = b.place := by
  rcases upsertPage_ok hok with ⟨existing, -, -, -, rfl⟩ | ⟨existing, hat, -, hins⟩ |
    ⟨-, -, -, hins⟩
  · exact ⟨b, hb, hlatest, rfl⟩
  · obtain ⟨hmem, hplace, -⟩ := latestAt_some hat
    rw [(insertPage_frame hins).2]
    by_cases hid : b.id = existing.id
    · -- the head itself is superseded, at its place
      refine ⟨_, mem_append_right _ mem_cons_self, rfl, ?_⟩
      rw [h.ids.eq hb hmem hid, hplace]
      rfl
    · refine ⟨b, mem_append_left _ (mem_update_of_not hb (by simpa using hid)), hlatest, rfl⟩
  · rw [(insertPage_frame hins).2]
    cases s.mostRecentTombstoneAtPath page tie with
    | none => exact ⟨b, mem_append_left _ hb, hlatest, rfl⟩
    | some t =>
      refine ⟨_, mem_append_left _ (mem_update.mpr ⟨b, hb, rfl⟩), ?_⟩
      split <;> exact ⟨hlatest, rfl⟩

lemma Sound.head_eq (h : Sound db) {a b : PageRow} (ha : a ∈ db.store.pages)
    (hb : b ∈ db.store.pages) (hproj : a.projectId = b.projectId) (hal : a.isLatest)
    (hbl : b.isLatest) (hpath : a.path = b.path) : a = b := by
  have hhome := h.projectIds.eq (h.filed.homed a ha) (h.filed.homed b hb) hproj
  rw [ProjectRow.mk.injEq] at hhome
  exact h.filed.ids.eq ha hb
    (h.filed.heads a ha b hb hal hbl (PageRow.place_eq_iff.mpr ⟨hhome.2, hproj, hpath⟩))

/-- What holds while the combined versions are written: every path of one has a
head in the target. -/
structure MergeInv (ws : WorkspaceId) (target : ProjectId) (plan : List MergeProjectPage)
    (x : Indexed) : Prop where
  filed : Filed x.store
  headed : ∀ page ∈ plan, page.mergedPage.isSome = true →
    ∃ b ∈ x.store.pages, b.isLatest = true ∧ b.place = (ws, target, page.path)

lemma MergeInv.step (h : MergeInv ws target plan d) {page : MergeProjectPage}
    (hok : writeMerged C n ws target now draws d page = .ok d') : MergeInv ws target plan d' := by
  rcases writeMerged_ok hok with ⟨-, rfl⟩ | ⟨merged, createdAt, mergedId, e, -, -, -, -, hup, rfl⟩
  · exact h
  · have hrows := (upsertPageIndexed_ok hup).1
    have hfades : Fades e.store.pages (update (fun r => r.id = mergedId)
        (fun r => { r with createdAt := createdAt }) e.store.pages) :=
      fades_update (fun _ => rfl) (fun _ => rfl) fun _ hl => hl
    refine ⟨(h.filed.upsert hrows).fade hfades, fun q hq hsome => ?_⟩
    obtain ⟨b, hb, hlatest, hplace⟩ := h.headed q hq hsome
    obtain ⟨b', hb', hlatest', hplace'⟩ := upsertPage_headed h.filed hrows hb hlatest
    refine ⟨_, mem_update.mpr ⟨b', hb', rfl⟩, ?_⟩
    split <;> exact ⟨hlatest', hplace'.trans hplace⟩

lemma MergeInv.run (h : MergeInv ws target plan d)
    (hok : pages.foldlM (writeMerged C n ws target now draws) d = .ok d') :
    MergeInv ws target plan d' :=
  foldlM_invariant (I := MergeInv ws target plan) (fun _ _ _ _ hx hxy => hx.step hxy) h hok

lemma writeMerged_rows (h : MergeInv ws target plan d) {page : MergeProjectPage}
    {merged : IndexedPage} (hpage : page ∈ plan) (hmerged : page.mergedPage = some merged)
    (hpath : merged.path = page.path) (hok : writeMerged C n ws target now draws d page = .ok d') :
    ∃ existing ∈ d.store.pages, existing.isLatest = true ∧
      existing.place = (ws, target, page.path) ∧
      (∀ r ∈ d.store.pages, r.id ≠ existing.id → r ∈ d'.store.pages) ∧
      (retiredRow now existing ∈ d'.store.pages ∨
        unchanged C.toPageCodec existing merged.toNewPage ∧
          ∃ c ≤ existing.createdAt, { existing with createdAt := c } ∈ d'.store.pages) := by
  rcases writeMerged_ok hok with ⟨hnone, -⟩ |
    ⟨merged', createdAt, mergedId, e, hmerged', hws, htarget, hmin, hup, rfl⟩
  · rw [hmerged] at hnone
    cases hnone
  · rw [hmerged, Option.some.injEq] at hmerged'
    subst hmerged'
    rcases upsertPage_ok (upsertPageIndexed_ok hup).1 with
      ⟨existing, hat, hsame, hid, hstore⟩ | ⟨existing, hat, hid, hins⟩ | ⟨hat, -⟩
    · -- the head says it already: it is dated
      obtain ⟨hmem, hplace, hlatest⟩ := latestAt_some hat
      rw [hws, htarget, hpath] at hplace
      refine ⟨existing, hmem, hlatest, hplace, fun r hr hne => ?_, .inr ⟨hsame, createdAt, ?_, ?_⟩⟩
      · rw [hstore, hid]
        exact mem_update_of_not hr (by simpa using hne)
      · rw [PageRow.place, Prod.mk.injEq, Prod.mk.injEq] at hplace
        refine (min?_eq_some_iff.mp hmin).2 _ (mem_map_of_mem ?_)
        exact mem_filter.mpr ⟨hmem, by simp [hplace.2.1, hplace.2.2]⟩
      · rw [hstore, hid]
        exact mem_update_of_match hmem (by simp)
    · -- the head is closed, and the new version dated
      obtain ⟨hmem, hplace, hlatest⟩ := latestAt_some hat
      rw [hws, htarget, hpath] at hplace
      obtain ⟨hstore, hfresh⟩ := insertPage_ok hins
      have hkept : ∀ r ∈ (d.store.retire existing.id now).pages,
          r ∈ update (fun r => r.id = mergedId) (fun r => { r with createdAt := createdAt })
            e.store.pages := by
        intro r hr
        rw [hstore, hid]
        exact mem_update_of_not (mem_append_left _ hr) (decide_eq_false (hfresh r hr))
      refine ⟨existing, hmem, hlatest, hplace, fun r hr hne => ?_, .inl ?_⟩
      · exact hkept r (mem_update_of_not hr (by simpa using hne))
      · exact hkept _ (mem_update_of_match hmem (by simp))
    · -- the path has a head
      obtain ⟨b, hb, hlatest, hplace⟩ := h.headed page hpage (by rw [hmerged]; rfl)
      rw [hws, htarget, hpath] at hat
      have hdead := latestAt_none hat b hb hplace
      rw [hlatest] at hdead
      cases hdead

lemma mergedVersions_untouched (h : MergeInv ws target plan d) (hsub : ∀ page ∈ pages, page ∈ plan)
    (hpaths : ∀ page ∈ pages, ∀ merged, page.mergedPage = some merged → merged.path = page.path)
    (hok : pages.foldlM (writeMerged C n ws target now draws) d = .ok d') {r : PageRow}
    (hr : r ∈ d.store.pages)
    (hno : ∀ page ∈ pages, page.mergedPage.isSome = true → r.isLatest →
      r.place ≠ (ws, target, page.path)) : r ∈ d'.store.pages := by
  have hrun : MergeInv ws target plan d' ∧ r ∈ d'.store.pages := by
    refine foldlM_invariant (I := fun x : Indexed => MergeInv ws target plan x ∧ r ∈ x.store.pages)
      ?_ ⟨h, hr⟩ hok
    rintro page hpage x y ⟨hx, hrx⟩ hxy
    refine ⟨hx.step hxy, ?_⟩
    cases hmerged : page.mergedPage with
    | none =>
      rw [writeMerged, hmerged] at hxy
      cases hxy
      exact hrx
    | some merged =>
      obtain ⟨existing, hmem, hlatest, hplace, hothers, -⟩ :=
        writeMerged_rows hx (hsub page hpage) hmerged (hpaths page hpage merged hmerged) hxy
      refine hothers r hrx fun hid => ?_
      have heq : r = existing := hx.filed.ids.eq hrx hmem hid
      exact hno page hpage (by rw [hmerged]; rfl) (heq ▸ hlatest) (heq ▸ hplace)
  exact hrun.2

/-- What a committed merge keeps.  The columns the `INSERT` of an ingest key
leaves out are not spoken of. -/
structure Lossless (C : IndexCodec) (db db' : Database) (source target : ProjectId)
    (pages : List MergeProjectPage) (now : ℤ) : Prop where
  /-- A version of the source is filed under the target; a head that has a
  combined version is closed. -/
  sourcePages : ∀ r ∈ db.store.pages, r.projectId = source →
    { r with projectId := target } ∈ db'.store.pages ∨
      r.isLatest = true ∧ (∃ page ∈ pages, page.sourcePageId = r.id ∧ page.mergedPage.isSome) ∧
        { r with
          projectId := target
          isLatest := false
          validTo := some now } ∈ db'.store.pages
  /-- A version of the target stays as it is; a head that has a combined version
  is superseded, or, if it says the same already, dated back. -/
  targetPages : ∀ r ∈ db.store.pages, r.projectId = target →
    r ∈ db'.store.pages ∨
      r.isLatest = true ∧ ∃ page ∈ pages, page.targetPageId = some r.id ∧
        ∃ merged, page.mergedPage = some merged ∧
          ({ r with
              isLatest := false
              validTo := some now } ∈ db'.store.pages ∨
            unchanged C.toPageCodec r merged.toNewPage = true ∧
              ∃ c ≤ r.createdAt, { r with createdAt := c } ∈ db'.store.pages)
  otherPages : ∀ r ∈ db.store.pages, r.projectId ≠ source → r.projectId ≠ target →
    r ∈ db'.store.pages
  oneHead : ∀ a ∈ db'.store.pages, ∀ b ∈ db'.store.pages, a.projectId = target →
    b.projectId = target → a.isLatest = true → b.isLatest = true → a.path = b.path → a = b
  entityNames : ∀ id name, db.index.About id name → db'.index.About id name
  sessions : db'.store.sessions = update (fun r => r.projectId = source)
    (fun r => { r with projectId := target }) db.store.sessions
  observations : db'.store.observations = update (fun o => o.projectId = source)
    (fun o => { o with projectId := target }) db.store.observations
  jobs : db'.store.jobs = update (fun j => j.projectId = source)
    (fun j => { j with projectId := target }) db.store.jobs
  handoffs : db'.handoffs = update (fun h => h.projectId = source)
    (fun h => { h with projectId := target }) db.handoffs
  /-- A message names the project on both ends. -/
  messages : db'.messages = db.messages.map fun m =>
    { m with
      fromProjectId := if m.fromProjectId = source then target else m.fromProjectId
      toProjectId := if m.toProjectId = source then target else m.toProjectId }
  /-- A workstream whose name the target has taken is given another one. -/
  workstreams : db'.workstreams = db.workstreams.map fun w =>
    if w.projectId = source then
      { w with
        projectId := target
        name := if streamCollides db.workstreams target w then disambiguated source w else w.name }
    else w
  /-- A key of the source is held by the target, with its sighting and its
  completion, or the later ones of both. -/
  sourceKeys : ∀ k ∈ db.store.ingestKeys, k.projectId = source →
    ∃ k' ∈ db'.store.ingestKeys, k'.projectId = target ∧ k'.key = k.key ∧
      (k'.seenAt = k.seenAt ∧ k'.completedAt = k.completedAt ∨
        ∃ t ∈ db.store.ingestKeys, t.projectId = target ∧ t.key = k.key ∧ k' = coalesceKey t k)
  /-- The other keys stay as they are, but for those of the target that the
  source held too: they take the later sighting and the later completion. -/
  otherKeys : ∀ t ∈ db.store.ingestKeys, t.projectId ≠ source →
    t ∈ db'.store.ingestKeys ∨ t.projectId = target ∧
      ∃ k ∈ db.store.ingestKeys, k.projectId = source ∧ k.key = t.key ∧
        coalesceKey t k ∈ db'.store.ingestKeys

lemma mergeMessages_eq (messages : List Messages.MessageRow) :
    mergeMessages messages source target = messages.map fun m =>
      { m with
        fromProjectId := if m.fromProjectId = source then target else m.fromProjectId
        toProjectId := if m.toProjectId = source then target else m.toProjectId } := by
  rw [mergeMessages, update, update, map_map]
  refine map_congr_left fun m _ => ?_
  rw [Function.comp_apply]
  by_cases hfrom : m.fromProjectId = source <;> by_cases hto : m.toProjectId = source <;>
    simp [hfrom, hto]

lemma mergeWorkstreams_eq {streams streams' : List WorkstreamRow}
    (h : mergeWorkstreams streams source target = .ok streams') :
    streams' = streams.map fun w =>
      if w.projectId = source then
        { w with
          projectId := target
          name := if streamCollides streams target w then disambiguated source w else w.name }
      else w := by
  rw [mergeWorkstreams_ok h, update, update, map_map]
  refine map_congr_left fun w _ => ?_
  rw [Function.comp_apply]
  by_cases hsource : w.projectId = source <;>
    by_cases hcollides : streamCollides streams target w = true <;> simp [hsource, hcollides]

lemma mergeIngestKeys_kept {keys : List IngestKeyRow} (hkeys : KeyUnique IngestKeyRow.pk keys)
    (hne : source ≠ target) :
    (∀ k ∈ keys, k.projectId = source →
      ∃ k' ∈ mergeIngestKeys keys source target, k'.projectId = target ∧ k'.key = k.key ∧
        (k'.seenAt = k.seenAt ∧ k'.completedAt = k.completedAt ∨
          ∃ t ∈ keys, t.projectId = target ∧ t.key = k.key ∧ k' = coalesceKey t k)) ∧
      ∀ t ∈ keys, t.projectId ≠ source →
        t ∈ mergeIngestKeys keys source target ∨ t.projectId = target ∧
          ∃ k ∈ keys, k.projectId = source ∧ k.key = t.key ∧
            coalesceKey t k ∈ mergeIngestKeys keys source target := by
  refine ⟨fun k hk hsource => ?_, fun t ht hother => ?_⟩
  · by_cases hshared : ∃ t ∈ keys, t.projectId = target ∧ t.key = k.key
    · obtain ⟨t, ht, htarget, hkey⟩ := hshared
      refine ⟨coalesceKey t k, (mem_mergeIngestKeys hkeys hne).mpr (.inr (.inr
        ⟨t, ht, htarget, k, hk, hsource, hkey.symm, rfl⟩)), htarget, hkey, .inr
        ⟨t, ht, htarget, hkey, rfl⟩⟩
    · refine ⟨carriedKey target k, (mem_mergeIngestKeys hkeys hne).mpr (.inr (.inl
        ⟨k, hk, hsource, rfl, fun t ht htarget hkey => hshared ⟨t, ht, htarget, hkey⟩⟩)), rfl, rfl,
        .inl ⟨rfl, rfl⟩⟩
  · by_cases hshared : t.projectId = target ∧ ∃ k ∈ keys, k.projectId = source ∧ k.key = t.key
    · obtain ⟨htarget, k, hk, hsource, hkey⟩ := hshared
      exact .inr ⟨htarget, k, hk, hsource, hkey, (mem_mergeIngestKeys hkeys hne).mpr (.inr (.inr
        ⟨t, ht, htarget, k, hk, hsource, hkey, rfl⟩))⟩
    · refine .inl ((mem_mergeIngestKeys hkeys hne).mpr (.inl ⟨ht, hother, ?_⟩))
      exact fun htarget k hk hsource hkey => hshared ⟨htarget, k, hk, hsource, hkey⟩

/-! ### The plan and the rows -/

theorem Planned.head {page : MergeProjectPage} (h : Planned db source target page)
    (hsome : page.mergedPage.isSome) :
    ∃ t ∈ db.store.pages, t.projectId = target ∧ t.isLatest ∧ t.path = page.path ∧
      page.targetPageId = some t.id := by
  rw [← h.combined] at hsome
  obtain ⟨id, hid⟩ := Option.isSome_iff_exists.mp hsome
  have htargeted := h.targeted
  rw [hid, Option.map_eq_some_iff] at htargeted
  obtain ⟨t, hfind, rfl⟩ := htargeted
  obtain ⟨ht, htarget, hlatest⟩ := mem_latestOf.mp (mem_of_find?_eq_some hfind)
  exact ⟨t, ht, htarget, hlatest, by simpa using find?_some hfind, hid⟩

lemma mem_collidingHeads {id : PageId} : id ∈ collidingHeads pages ↔
    ∃ page ∈ pages, page.targetPageId.isSome = true ∧ page.sourcePageId = id := by
  rw [collidingHeads, mem_map]
  constructor
  · rintro ⟨page, hpage, rfl⟩
    rw [mem_filter] at hpage
    exact ⟨page, hpage.1, hpage.2, rfl⟩
  · rintro ⟨page, hpage, hsome, rfl⟩
    exact ⟨page, mem_filter.mpr ⟨hpage, hsome⟩, rfl⟩

lemma Accepted.not_colliding (hacc : Accepted C db ws source target pages)
    (hids : KeyUnique PageRow.id db.store.pages) {r : PageRow} (hr : r ∈ db.store.pages)
    (hother : r.projectId ≠ source) : r.id ∉ collidingHeads pages := by
  intro hmem
  obtain ⟨page, hpage, -, hid⟩ := mem_collidingHeads.mp hmem
  obtain ⟨q, hq, hqid, -⟩ := (hacc.planned page hpage).sourced
  obtain ⟨hqmem, hqsource, -⟩ := mem_latestOf.mp hq
  rw [hids.eq hqmem hr (hqid.trans hid)] at hqsource
  exact hother hqsource

lemma restampedPages_other (hacc : Accepted C db ws source target pages)
    (hids : KeyUnique PageRow.id db.store.pages) {r : PageRow} (hr : r ∈ db.store.pages)
    (hother : r.projectId ≠ source) :
    r ∈ restampedPages db.store.pages source target pages now := by
  have hkept := hacc.not_colliding hids hr hother
  exact mem_update_of_not (mem_update_of_not hr (by simp [hkept])) (by simpa using hother)

lemma restampedPages_source (target : ProjectId) (pages : List MergeProjectPage) (now : ℤ)
    {r : PageRow} (hr : r ∈ db.store.pages) (hsource : r.projectId = source) :
    (if r.id ∈ collidingHeads pages ∧ r.isLatest = true then
      { r with
        projectId := target
        isLatest := false
        validTo := some now }
    else { r with projectId := target }) ∈
      restampedPages db.store.pages source target pages now := by
  by_cases hretire : r.id ∈ collidingHeads pages ∧ r.isLatest
  · rw [if_pos hretire]
    have hrow : retiredRow now r ∈ update (fun r => decide (r.id ∈ collidingHeads pages) && r.isLatest)
        (retiredRow now) db.store.pages := mem_update_of_match hr (by simpa using hretire)
    have hmoved : decide ((retiredRow now r).projectId = source) := decide_eq_true hsource
    exact mem_update_of_match hrow hmoved
  · rw [if_neg hretire]
    have hrow : r ∈ update (fun r => decide (r.id ∈ collidingHeads pages) && r.isLatest)
        (retiredRow now) db.store.pages :=
      mem_update_of_not hr (by simpa using hretire)
    exact mem_update_of_match hrow (decide_eq_true hsource)

lemma mergeInv_start (h : Sound db) (hacc : Accepted C db ws source target pages)
    (hindex : d.store.pages = restampedPages db.store.pages source target pages now)
    (hplaces : (latestPlaces d.store.pages).Nodup)
    (hkept : d.store.projects = db.store.projects) : MergeInv ws target pages d := by
  refine ⟨h.filed_restamped hacc hindex hplaces hkept, fun page hpage hsome => ?_⟩
  obtain ⟨t, ht, htarget, hlatest, hpath, -⟩ := (hacc.planned page hpage).head hsome
  have hhome := h.filed.homed t ht
  rw [htarget] at hhome
  have hother : t.projectId ≠ source := by
    rw [htarget]
    exact hacc.differ.symm
  refine ⟨t, hindex ▸ restampedPages_other hacc h.filed.ids ht hother, hlatest, ?_⟩
  rw [PageRow.place, (h.home_eq hacc.targetThere).2 _ hhome, htarget, hpath]

lemma Accepted.entry_unique (hacc : Accepted C db ws source target pages) (h : Sound db)
    {p q : MergeProjectPage} (hp : p ∈ pages) (hq : q ∈ pages) (hpath : p.path = q.path) : p = q := by
  obtain ⟨a, ha, haid, hapath⟩ := (hacc.planned p hp).sourced
  obtain ⟨b, hb, hbid, hbpath⟩ := (hacc.planned q hq).sourced
  obtain ⟨hamem, hasource, hal⟩ := mem_latestOf.mp ha
  obtain ⟨hbmem, hbsource, hbl⟩ := mem_latestOf.mp hb
  -- two live versions of the source at one path are one version
  have hhome : ∀ r ∈ db.store.pages, r.projectId = source → r.workspaceId = ws := by
    intro r hr hsource
    have hhome := h.filed.homed r hr
    rw [hsource] at hhome
    exact (h.home_eq hacc.sourceThere).2 _ hhome
  have hid : a.id = b.id := h.filed.heads a hamem b hbmem hal hbl (PageRow.place_eq_iff.mpr
    ⟨(hhome a hamem hasource).trans (hhome b hbmem hbsource).symm, hasource.trans hbsource.symm,
      hapath.trans (hpath.trans hbpath.symm)⟩)
  exact inj_on_of_nodup_map hacc.noDuplicates hp hq (haid.symm.trans (hid.trans hbid))

section Versions

variable (h : Sound db) (hacc : Accepted C db ws source target pages)
  (hindex : d.store.pages = restampedPages db.store.pages source target pages now)
  (hplaces : (latestPlaces d.store.pages).Nodup) (hkept : d.store.projects = db.store.projects)
  (hfold : pages.foldlM (writeMerged C n ws target now draws) d = .ok d')
include h hacc hindex hplaces hkept hfold

lemma merged_untouched {r : PageRow} (hr : r ∈ d.store.pages)
    (hno : ∀ page ∈ pages, page.mergedPage.isSome = true → r.isLatest →
      r.place ≠ (ws, target, page.path)) : r ∈ d'.store.pages :=
  mergedVersions_untouched (mergeInv_start h hacc hindex hplaces hkept) (fun _ hp => hp)
    (fun page hpage => (hacc.planned page hpage).samePath) hfold hr hno

lemma merged_sourcePages {r : PageRow} (hr : r ∈ db.store.pages) (hsource : r.projectId = source) :
    { r with projectId := target } ∈ d'.store.pages ∨
      r.isLatest ∧ (∃ page ∈ pages, page.sourcePageId = r.id ∧ page.mergedPage.isSome) ∧
        { r with
          projectId := target
          isLatest := false
          validTo := some now } ∈ d'.store.pages := by
  have hrow := restampedPages_source target pages now hr hsource
  rw [← hindex] at hrow
  by_cases hretire : r.id ∈ collidingHeads pages ∧ r.isLatest
  · rw [if_pos hretire] at hrow
    obtain ⟨page, hpage, hsome, hid⟩ := mem_collidingHeads.mp hretire.1
    have hcombined := (hacc.planned page hpage).combined
    refine .inr ⟨hretire.2, ⟨page, hpage, hid, hcombined ▸ hsome⟩, ?_⟩
    exact merged_untouched h hacc hindex hplaces hkept hfold hrow fun _ _ _ hl => by cases hl
  · rw [if_neg hretire] at hrow
    refine .inl (merged_untouched h hacc hindex hplaces hkept hfold hrow ?_)
    -- it is live beside no head of the target
    intro page hpage hsome hlatest hplace
    have hstart := mergeInv_start h hacc hindex hplaces hkept
    obtain ⟨t, ht, htarget, htlatest, htpath, -⟩ := (hacc.planned page hpage).head hsome
    have hother : t.projectId ≠ source := by
      rw [htarget]
      exact hacc.differ.symm
    have hhome := h.filed.homed t ht
    rw [htarget] at hhome
    have htplace : t.place = (ws, target, page.path) := by
      rw [PageRow.place, (h.home_eq hacc.targetThere).2 _ hhome, htarget, htpath]
    have htrow : t ∈ d.store.pages := hindex ▸ restampedPages_other hacc h.filed.ids ht hother
    have hid : r.id = t.id :=
      hstart.filed.heads _ hrow t htrow hlatest htlatest (hplace.trans htplace.symm)
    rw [h.filed.ids.eq hr ht hid] at hsource
    exact hother hsource

lemma merged_targetPages {r : PageRow} (hr : r ∈ db.store.pages) (htarget : r.projectId = target) :
    r ∈ d'.store.pages ∨
      r.isLatest ∧ ∃ page ∈ pages, page.targetPageId = some r.id ∧
        ∃ merged, page.mergedPage = some merged ∧
          ({ r with
              isLatest := false
              validTo := some now } ∈ d'.store.pages ∨
            unchanged C.toPageCodec r merged.toNewPage ∧
              ∃ c ≤ r.createdAt, { r with createdAt := c } ∈ d'.store.pages) := by
  have hother : r.projectId ≠ source := by
    rw [htarget]
    exact hacc.differ.symm
  have hrow : r ∈ d.store.pages := hindex ▸ restampedPages_other hacc h.filed.ids hr hother
  have hstart := mergeInv_start h hacc hindex hplaces hkept
  have hsame : ∀ page ∈ pages, ∀ merged, page.mergedPage = some merged →
      merged.path = page.path := fun page hpage => (hacc.planned page hpage).samePath
  by_cases hcombined : ∃ page ∈ pages, page.mergedPage.isSome = true ∧ r.isLatest ∧
      r.place = (ws, target, page.path)
  · obtain ⟨page, hpage, hsome, hlatest, hplace⟩ := hcombined
    obtain ⟨merged, hmerged⟩ := Option.isSome_iff_exists.mp hsome
    obtain ⟨before, after, hsplit⟩ := append_of_mem hpage
    -- no other entry of the plan is about this path
    have hpaths : ∀ q ∈ before ++ after, q.path ≠ page.path := by
      intro q hq hpath
      have hqmem : q ∈ pages := by
        rw [hsplit]
        rcases mem_append.mp hq with hq | hq
        · exact mem_append_left _ hq
        · exact mem_append_right _ (mem_cons_of_mem _ hq)
      have heq := hacc.entry_unique h hqmem hpage hpath
      have hnodup : pages.Nodup := List.Nodup.of_map _ hacc.noDuplicates
      rw [hsplit, nodup_middle, nodup_cons] at hnodup
      exact hnodup.1 (heq ▸ hq)
    have hbefore : ∀ q ∈ before, q ∈ pages := fun q hq => hsplit ▸ mem_append_left _ hq
    have hafter : ∀ q ∈ after, q ∈ pages := fun q hq =>
      hsplit ▸ mem_append_right _ (mem_cons_of_mem _ hq)
    rw [hsplit, foldlM_append] at hfold
    obtain ⟨x, hx, hrest⟩ := bind_ok.mp hfold
    obtain ⟨y, hxy, hlast⟩ := foldlM_cons_ok.mp hrest
    have hinvx := hstart.run hx
    have hrx : r ∈ x.store.pages := by
      refine mergedVersions_untouched hstart hbefore (fun q hq => hsame q (hbefore q hq)) hx hrow ?_
      intro q hq _ _ hqplace
      rw [hplace, Prod.mk.injEq, Prod.mk.injEq] at hqplace
      exact hpaths q (mem_append_left _ hq) hqplace.2.2.symm
    obtain ⟨existing, hmem, hel, heplace, -, hwritten⟩ :=
      writeMerged_rows hinvx hpage hmerged (hsame page hpage merged hmerged) hxy
    have heq : existing = r := hinvx.filed.ids.eq hmem hrx
      (hinvx.filed.heads existing hmem r hrx hel hlatest (heplace.trans hplace.symm))
    rw [heq] at hwritten
    -- what it becomes is touched by no later entry
    have hlater : ∀ r' ∈ y.store.pages, r'.place = r.place → r' ∈ d'.store.pages := by
      intro r' hr' hplace'
      refine mergedVersions_untouched (hinvx.step hxy) hafter (fun q hq => hsame q (hafter q hq))
        hlast hr' ?_
      intro q hq _ _ hqplace
      rw [hplace', hplace, Prod.mk.injEq, Prod.mk.injEq] at hqplace
      exact hpaths q (mem_append_right _ hq) hqplace.2.2.symm
    have hid : page.targetPageId = some r.id := by
      obtain ⟨t, ht, httarget, htlatest, htpath, htid⟩ := (hacc.planned page hpage).head hsome
      rw [PageRow.place, Prod.mk.injEq, Prod.mk.injEq] at hplace
      have hhome := h.filed.homed t ht
      rw [httarget] at hhome
      rw [htid, h.filed.heads t ht r hr htlatest hlatest (PageRow.place_eq_iff.mpr
        ⟨((h.home_eq hacc.targetThere).2 _ hhome).trans hplace.1.symm,
          httarget.trans htarget.symm, htpath.trans hplace.2.2.symm⟩)]
    refine .inr ⟨hlatest, page, hpage, hid, merged, hmerged, ?_⟩
    rcases hwritten with hretired | ⟨hunchanged, c, hc, hdated⟩
    · exact .inl (hlater _ hretired rfl)
    · exact .inr ⟨hunchanged, c, hc, hlater _ hdated rfl⟩
  · refine .inl (merged_untouched h hacc hindex hplaces hkept hfold hrow ?_)
    exact fun page hpage hsome hlatest hplace => hcombined ⟨page, hpage, hsome, hlatest, hplace⟩

lemma merged_otherPages {r : PageRow} (hr : r ∈ db.store.pages) (hsource : r.projectId ≠ source)
    (htarget : r.projectId ≠ target) : r ∈ d'.store.pages := by
  have hrow : r ∈ d.store.pages := hindex ▸ restampedPages_other hacc h.filed.ids hr hsource
  refine merged_untouched h hacc hindex hplaces hkept hfold hrow fun page _ _ _ hplace => ?_
  rw [PageRow.place, Prod.mk.injEq, Prod.mk.injEq] at hplace
  exact htarget hplace.2.1

end Versions

lemma mergeStatements_lossless (h : Sound db) (hacc : Accepted C db ws source target pages)
    (hok : mergeStatements C n db ws source target pages now draws = .ok db')
    (hsound : Sound db') : Lossless C db db' source target pages now := by
  obtain ⟨index, index', streams, hstore, hplaces, -, hnames, hfold, hstreams, rfl⟩ :=
    mergeStatements_tables h.entityIds h.projects hacc hok
  have hindex : index.store.pages = restampedPages db.store.pages source target pages now := by
    rw [hstore]
    rfl
  have hkept : index.store.projects = db.store.projects := by
    rw [hstore]
    rfl
  have hframe := mergedVersions_frame hfold
  have hstore' := hframe.store
  rw [hstore] at hstore'
  obtain ⟨hsourceKeys, hotherKeys⟩ := mergeIngestKeys_kept h.ingestKeys hacc.differ
  have hkeys : index'.store.ingestKeys = mergeIngestKeys db.store.ingestKeys source target := by
    rw [hstore']
  refine
    { sourcePages := fun r hr => merged_sourcePages h hacc hindex hplaces hkept hfold hr
      targetPages := fun r hr => merged_targetPages h hacc hindex hplaces hkept hfold hr
      otherPages := fun r hr => merged_otherPages h hacc hindex hplaces hkept hfold hr
      oneHead := ?_
      entityNames := fun id name habout => ?_
      sessions := ?_
      observations := ?_
      jobs := ?_
      handoffs := rfl
      messages := mergeMessages_eq db.messages
      workstreams := mergeWorkstreams_eq hstreams
      sourceKeys := ?_
      otherKeys := ?_ }
  · intro a ha b hb hatarget hbtarget hal hbl hpath
    exact hsound.head_eq ha hb (hatarget.trans hbtarget.symm) hal hbl hpath
  · exact hframe.entities.about (hnames id name habout)
  · change index'.store.sessions = _
    rw [hstore']
    rfl
  · change index'.store.observations = _
    rw [hstore']
    rfl
  · change index'.store.jobs = _
    rw [hstore']
    rfl
  · change ∀ k ∈ db.store.ingestKeys, k.projectId = source → ∃ k' ∈ index'.store.ingestKeys, _
    rw [hkeys]
    exact hsourceKeys
  · change ∀ t ∈ db.store.ingestKeys, t.projectId ≠ source → t ∈ index'.store.ingestKeys ∨ _ ∧
      ∃ k ∈ db.store.ingestKeys, k.projectId = source ∧ k.key = t.key ∧
        coalesceKey t k ∈ index'.store.ingestKeys
    rw [hkeys]
    exact hotherKeys

/-- A committed merge loses nothing; one that is refused, fails or is run without
commit changes nothing. -/
theorem merge_project_lossless (E : Env) (n : Directory) (db : Database) (h : Sound db)
    (ws : WorkspaceId) (source target : ProjectId) (pages : List MergeProjectPage) (commit : Bool)
    (now : ℤ) (draws : MergeDraws) :
    let result := Database.mergeProject E.codec n db ws source target pages commit now draws
    let db' := dbStep E db (.mergeProject n ws source target pages commit now draws)
    (∀ out, result = .ok out → commit = true → Lossless E.codec db db' source target pages now) ∧
      (∀ e, result = .error e → db' = db) ∧ (commit = false → db' = db) := by
  intro result db'
  have hdb' : db' = db.committed (result.map (·.2)) := rfl
  refine ⟨fun out hresult hcommit => ?_, fun e hresult => ?_, fun hcommit => ?_⟩
  · obtain ⟨hacc, merged, hok, hout⟩ := mergeProject_ok hresult
    rw [hcommit, if_pos rfl] at hout
    have hmerged : db' = merged := by
      rw [hdb', hresult, ← hout]
      rfl
    have hsound : Sound db' := dbStep_sound h _
    rw [hmerged] at hsound ⊢
    exact mergeStatements_lossless h hacc hok hsound
  · rw [hdb', hresult]
    rfl
  · cases hresult : result with
    | error e =>
      rw [hdb', hresult]
      rfl
    | ok out =>
      obtain ⟨-, merged, -, hout⟩ := mergeProject_ok hresult
      rw [hcommit, if_neg (by decide)] at hout
      rw [hdb', hresult, ← hout]
      rfl

/-- Projects 1 and 2 have a page at one path and an event under one key; project 1
saw the event later. -/
def sharedKey : List DbOp :=
  [.registry (.getOrCreateWorkspace "default" 0),
    .registry (.getOrCreateProjectAs 0 "one" none .open 1),
    .registry (.getOrCreateProjectAs 0 "two" none .open 2),
    .admitEvent (sampleSession 8 2) (sampleObservation 8 2 .userPrompt) .any (some "k") none 2 0,
    .admitEvent (sampleSession 7 1) (sampleObservation 7 1 .userPrompt) .any (some "k") none 1 5,
    .endSession 7 none 6,
    .pages noNames (.upsert (plainPage 1 "notes.md" "one") 11 0 0 0 fun _ => 0),
    .pages noNames (.upsert (plainPage 2 "notes.md" "two") 12 0 0 0 fun _ => 0)]

def sharedPlan : List MergeProjectPage :=
  [⟨"notes.md", 11, some 12, some (plainPage 2 "notes.md" "two and one")⟩]

theorem merge_project_lossless_sharedKey :
    Lossless sampleEnv.codec (exec (dbStep sampleEnv) empty sharedKey)
      (exec (dbStep sampleEnv) empty
        (sharedKey ++ [.mergeProject noNames 0 1 2 sharedPlan true 9 sampleDraws])) 1 2 sharedPlan
      9 := by
  rw [exec_append, exec_cons, exec_nil]
  have hmerge := merge_project_lossless sampleEnv noNames _ (sound_run sampleEnv sharedKey) 0 1 2
    sharedPlan true 9 sampleDraws
  have hdone : (Database.mergeProject sampleEnv.codec noNames
      (exec (dbStep sampleEnv) empty sharedKey) 0 1 2 sharedPlan true 9 sampleDraws).isOk = true := by
    decide +kernel
  cases hout : Database.mergeProject sampleEnv.codec noNames
      (exec (dbStep sampleEnv) empty sharedKey) 0 1 2 sharedPlan true 9 sampleDraws with
  | error e =>
    rw [hout] at hdone
    cases hdone
  | ok out => exact hmerge.1 out hout rfl

/-- The target's own row of a key both had claimed does not stay as it was. -/
theorem shared_key_takes_later_sighting :
    (Database.mergeProject sampleEnv.codec noNames (exec (dbStep sampleEnv) empty sharedKey) 0 1 2
        sharedPlan true 9 sampleDraws).isOk = true ∧
      ¬ ∀ t ∈ (exec (dbStep sampleEnv) empty sharedKey).store.ingestKeys, t.projectId = 2 →
        t ∈ (exec (dbStep sampleEnv) empty
          (sharedKey ++ [.mergeProject noNames 0 1 2 sharedPlan true 9
            sampleDraws])).store.ingestKeys := by
  decide +kernel

end Database
