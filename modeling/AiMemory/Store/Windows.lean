/-
The ingestion windows of page versions partition time.

A version is valid from the instant it is written to the instant it is
superseded or retired; an entity link of a version is valid exactly as long as
the version.  Three operations close windows, each in two statements, and a
path that is written again after a delete keeps the old closing instants.
-/
import AiMemory.Store.Index

open Table Runs List

namespace Store

/-- The version is the valid one at this time. -/
def PageRow.Covers (r : PageRow) (t : ℤ) : Prop :=
  (∃ f, r.validFrom = some f ∧ f ≤ t) ∧ ∀ u, r.validTo = some u → t < u

/-- Windows of a page do not overlap, and the head's alone is open; links carry them too. -/
structure Windows (d : Indexed) : Prop where
  atMostOne : ∀ t, ∀ a ∈ d.store.pages, ∀ b ∈ d.store.pages, a.place = b.place →
    a.Covers t → b.Covers t → a = b
  openIffLatest : ∀ a ∈ d.store.pages, a.validTo = none ↔ a.isLatest = true
  links : ∀ l ∈ d.entityLinks, ∃ a ∈ d.store.pages, a.id = l.pageId ∧
    l.validFrom = a.validFrom ∧ l.supersededAt = a.validTo

structure Windowed (clock : ℤ) (pages : List PageRow) (links : List EntityLinkRow) : Prop where
  opened : ∀ a ∈ pages, ∀ f, a.validFrom = some f → f ≤ clock
  closed : ∀ a ∈ pages, ∀ u, a.validTo = some u → u ≤ clock
  openIffLatest : ∀ a ∈ pages, a.validTo = none ↔ a.isLatest = true
  atMostOne : ∀ t, ∀ a ∈ pages, ∀ b ∈ pages, a.place = b.place →
    a.Covers t → b.Covers t → a.id = b.id
  linked : ∀ l ∈ links, ∃ a ∈ pages, a.id = l.pageId ∧
    l.validFrom = a.validFrom ∧ l.supersededAt = a.validTo

variable {clock now : ℤ} {pages : List PageRow} {links : List EntityLinkRow}

lemma windowed_nil (clock : ℤ) : Windowed clock [] [] where
  opened _ ha := absurd ha not_mem_nil
  closed _ ha := absurd ha not_mem_nil
  openIffLatest _ ha := absurd ha not_mem_nil
  atMostOne _ _ ha := absurd ha not_mem_nil
  linked _ hl := absurd hl not_mem_nil

lemma Windowed.mono (h : Windowed clock pages links) (hle : clock ≤ now) :
    Windowed now pages links where
  opened a ha f hf := (h.opened a ha f hf).trans hle
  closed a ha u hu := (h.closed a ha u hu).trans hle
  openIffLatest := h.openIffLatest
  atMostOne := h.atMostOne
  linked := h.linked

def SameWindow (a' a : PageRow) : Prop :=
  a'.id = a.id ∧ a'.place = a.place ∧ a'.validFrom = a.validFrom ∧ a'.validTo = a.validTo ∧
    a'.isLatest = a.isLatest

lemma SameWindow.covers {a' a : PageRow} (h : SameWindow a' a) {t : ℤ} (hc : a'.Covers t) :
    a.Covers t := by
  obtain ⟨-, -, hfrom, hto, -⟩ := h
  rw [PageRow.Covers, hfrom, hto] at hc
  exact hc

lemma Windowed.restrict (h : Windowed clock pages links)
    (hkeys : KeyUnique PageRow.id pages) {pages' : List PageRow} {links' : List EntityLinkRow}
    (hpages : ∀ a' ∈ pages', ∃ a ∈ pages, SameWindow a' a)
    (hlinks : ∀ l ∈ links', l ∈ links ∧ ∃ a' ∈ pages', a'.id = l.pageId) :
    Windowed clock pages' links' where
  opened a' ha' f hf := by
    obtain ⟨a, ha, -, -, hfrom, -⟩ := hpages a' ha'
    exact h.opened a ha f (hfrom ▸ hf)
  closed a' ha' u hu := by
    obtain ⟨a, ha, -, -, -, hto, -⟩ := hpages a' ha'
    exact h.closed a ha u (hto ▸ hu)
  openIffLatest a' ha' := by
    obtain ⟨a, ha, -, -, -, hto, hlatest⟩ := hpages a' ha'
    rw [hto, hlatest]
    exact h.openIffLatest a ha
  atMostOne t a' ha' b' hb' hplace hca hcb := by
    obtain ⟨a, ha, hsame⟩ := hpages a' ha'
    obtain ⟨b, hb, hsame'⟩ := hpages b' hb'
    rw [hsame.1, hsame'.1]
    refine h.atMostOne t a ha b hb ?_ (hsame.covers hca) (hsame'.covers hcb)
    rw [← hsame.2.1, ← hsame'.2.1, hplace]
  linked l hl := by
    obtain ⟨hl, a', ha', hid⟩ := hlinks l hl
    obtain ⟨a, ha, hid', -, hfrom, hto, -⟩ := hpages a' ha'
    obtain ⟨b, hb, hbid, hbfrom, hbto⟩ := h.linked l hl
    have hsame : b = a := hkeys.eq hb ha (hbid.trans (hid.symm.trans hid'))
    refine ⟨a', ha', hid, ?_, ?_⟩
    · rw [hfrom, ← hsame]
      exact hbfrom
    · rw [hto, ← hsame]
      exact hbto

lemma Windowed.close (h : Windowed clock pages links) (hkeys : KeyUnique PageRow.id pages)
    (hle : clock ≤ now) {x : PageRow} (hx : x ∈ pages) (hlatest : x.isLatest)
    {p : PageRow → Bool} {f : PageRow → PageRow} (hp : ∀ r ∈ pages, p r = true ↔ r.id = x.id)
    (hid : ∀ r, (f r).id = r.id) (hplace : ∀ r, (f r).place = r.place)
    (hfrom : ∀ r, (f r).validFrom = r.validFrom) (hto : ∀ r, (f r).validTo = some now)
    (hoff : ∀ r, (f r).isLatest = false) :
    Windowed now (update p f pages) (closeEntityLinks links x.id now) := by
  have hone : ∀ r ∈ pages, p r = true → r = x := fun r hr hpr => hkeys.eq hr hx ((hp r hr).mp hpr)
  -- a row afterwards has the window of the old one, cut at the clock
  have hold : ∀ a' ∈ update p f pages, ∃ a ∈ pages, a'.id = a.id ∧ a'.place = a.place ∧
      a'.validFrom = a.validFrom ∧ (∀ t, a'.Covers t → a.Covers t) ∧
      (a' = a ∨ a = x ∧ a'.validTo = some now ∧ a'.isLatest = false) := by
    intro a' ha'
    obtain ⟨a, ha, rfl⟩ := mem_update.mp ha'
    by_cases hpa : p a
    · rw [if_pos hpa]
      refine ⟨a, ha, hid a, hplace a, hfrom a, ?_, .inr ⟨hone a ha hpa, hto a, hoff a⟩⟩
      rintro t ⟨hf, -⟩
      refine ⟨hfrom a ▸ hf, fun u hu => ?_⟩
      rw [hone a ha hpa, (h.openIffLatest x hx).mpr hlatest] at hu
      cases hu
    · rw [if_neg hpa]
      exact ⟨a, ha, rfl, rfl, rfl, fun _ hc => hc, .inl rfl⟩
  have hnew : f x ∈ update p f pages := mem_update_of_match hx ((hp x hx).mpr rfl)
  refine ⟨?_, ?_, ?_, ?_, ?_⟩
  · intro a' ha' g hg
    obtain ⟨a, ha, -, -, hfrom', -⟩ := hold a' ha'
    exact (h.opened a ha g (hfrom' ▸ hg)).trans hle
  · intro a' ha' u hu
    obtain ⟨a, ha, -, -, -, -, rfl | ⟨-, hcut, -⟩⟩ := hold a' ha'
    · exact (h.closed a' ha u hu).trans hle
    · rw [hcut, Option.some.injEq] at hu
      exact hu.symm.le
  · intro a' ha'
    obtain ⟨a, ha, -, -, -, -, rfl | ⟨-, hcut, hoff'⟩⟩ := hold a' ha'
    · exact h.openIffLatest a' ha
    · rw [hcut, hoff']
      simp
  · intro t a' ha' b' hb' hpl hca hcb
    obtain ⟨a, ha, hida, hpla, -, hcova, -⟩ := hold a' ha'
    obtain ⟨b, hb, hidb, hplb, -, hcovb, -⟩ := hold b' hb'
    rw [hida, hidb]
    exact h.atMostOne t a ha b hb (by rw [← hpla, ← hplb, hpl]) (hcova t hca) (hcovb t hcb)
  · intro l' hl'
    obtain ⟨l, hl, rfl⟩ := mem_update.mp hl'
    obtain ⟨a, ha, hid', hlfrom, hlto⟩ := h.linked l hl
    by_cases hpage : l.pageId = x.id
    · -- a link of the version being closed is open, so it is closed with it
      have hax : a = x := hkeys.eq ha hx (hid'.trans hpage)
      rw [hax, (h.openIffLatest x hx).mpr hlatest] at hlto
      rw [if_pos (by simp [hpage, hlto])]
      refine ⟨f x, hnew, ?_, ?_, ?_⟩
      · rw [hid x]
        exact hpage.symm
      · rw [hfrom x, ← hax]
        exact hlfrom
      · exact (hto x).symm
    · rw [if_neg (by simp [hpage])]
      refine ⟨a, mem_update_of_not ha ?_, hid', hlfrom, hlto⟩
      rw [Bool.eq_false_iff]
      exact fun hpa => hpage (hid'.symm.trans ((hp a ha).mp hpa))

lemma Windowed.openVersion (h : Windowed clock pages links) (hle : clock ≤ now) {row : PageRow}
    (hfrom : row.validFrom = some now) (hto : row.validTo = none) (hlatest : row.isLatest)
    (hclosed : ∀ a ∈ pages, a.place = row.place → a.isLatest = false)
    {new : List EntityLinkRow} (hnew : ∀ l ∈ new, OpensAt row.id now l) :
    Windowed now (pages ++ [row]) (links ++ new) := by
  -- the old versions of the path ended by now, the new one starts now
  have hapart : ∀ t, ∀ a ∈ pages, a.place = row.place → a.Covers t → row.Covers t → False := by
    intro t a ha hplace hca hcr
    obtain ⟨⟨f, hf, hft⟩, -⟩ := hcr
    rw [hfrom, Option.some.injEq] at hf
    cases hu : a.validTo with
    | none =>
      have hlive := (h.openIffLatest a ha).mp hu
      rw [hclosed a ha hplace] at hlive
      cases hlive
    | some u =>
      have hend := h.closed a ha u hu
      have hbefore := hca.2 u hu
      omega
  refine ⟨?_, ?_, ?_, ?_, ?_⟩
  · intro a ha f hf
    rcases mem_append.mp ha with ha | ha
    · exact (h.opened a ha f hf).trans hle
    · rw [mem_singleton.mp ha, hfrom, Option.some.injEq] at hf
      exact hf.symm.le
  · intro a ha u hu
    rcases mem_append.mp ha with ha | ha
    · exact (h.closed a ha u hu).trans hle
    · rw [mem_singleton.mp ha, hto] at hu
      cases hu
  · intro a ha
    rcases mem_append.mp ha with ha | ha
    · exact h.openIffLatest a ha
    · rw [mem_singleton.mp ha, hto, hlatest]
      simp
  · intro t a ha b hb hplace hca hcb
    rcases mem_append.mp ha with ha | ha <;> rcases mem_append.mp hb with hb | hb
    · exact h.atMostOne t a ha b hb hplace hca hcb
    · rw [mem_singleton.mp hb] at hplace hcb
      exact (hapart t a ha hplace hca hcb).elim
    · rw [mem_singleton.mp ha] at hplace hca
      exact (hapart t b hb hplace.symm hcb hca).elim
    · rw [mem_singleton.mp ha, mem_singleton.mp hb]
  · intro l hl
    rcases mem_append.mp hl with hl | hl
    · obtain ⟨a, ha, hrest⟩ := h.linked l hl
      exact ⟨a, mem_append_left _ ha, hrest⟩
    · obtain ⟨hpage, hlfrom, hlto⟩ := hnew l hl
      exact ⟨row, mem_append_right _ (mem_singleton.mpr rfl), hpage.symm,
        hlfrom.trans hfrom.symm, hlto.trans hto.symm⟩

variable {n : Directory} {C : IndexCodec} {d d' : Indexed}

structure WindowInv (clock : ℤ) (d : Indexed) : Prop where
  pages : PageInv d.store.pages
  windows : Windowed clock d.store.pages d.entityLinks

lemma windowInv_supersede {page : IndexedPage} {id : PageId} {existing : PageRow} {s : Store}
    (h : WindowInv clock d) (hle : clock ≤ now)
    (hlatest : d.store.latestAt page.workspaceId page.projectId page.path = some existing)
    (hs : (d.store.retire existing.id now).insertPage
      (pageVersion C.toPageCodec page.toNewPage (some existing.id) id now) = .ok s)
    (hix : Indexes n s d.links (closeEntityLinks d.entityLinks existing.id now) page id now d') :
    Windowed now d'.store.pages d'.entityLinks := by
  obtain ⟨hmem, hplace, hlive⟩ := latestAt_some hlatest
  obtain ⟨hstore, -, new, hnew, hopens⟩ := hix
  obtain ⟨rfl, hfresh⟩ := insertPage_ok hs
  have hkeys := h.pages.chained.keys
  have hclosed := h.windows.close hkeys hle hmem hlive (p := fun r => r.id = existing.id)
    (f := fun r => { r with isLatest := false, validTo := some now })
    (fun r _ => by simp) (fun _ => rfl) (fun _ => rfl) (fun _ => rfl) (fun _ => rfl) (fun _ => rfl)
  rw [hstore, hnew]
  refine hclosed.openVersion le_rfl rfl rfl rfl (fun a' ha' hpl => ?_) hopens
  obtain ⟨a, ha, rfl⟩ := mem_update.mp ha'
  by_cases hid : a.id = existing.id
  · rw [if_pos (decide_eq_true hid)]
  · rw [if_neg (by simpa using hid)] at hpl ⊢
    by_contra hl
    -- the path has one latest version, the one that was closed
    have heq := h.pages.history.oneLatest a ha existing hmem (by simpa using hl) hlive
      (hpl.trans hplace.symm)
    exact hid (by rw [heq])

lemma windowInv_create {page : IndexedPage} {id : PageId} {tie : ℕ} {s : Store}
    (h : WindowInv clock d) (hle : clock ≤ now)
    (hlatest : d.store.latestAt page.workspaceId page.projectId page.path = none)
    (hs : ((d.store.mostRecentTombstoneAtPath page.toNewPage tie).elim d.store
      fun r => d.store.unbury r.id).insertPage (pageVersion C.toPageCodec page.toNewPage
        ((d.store.mostRecentTombstoneAtPath page.toNewPage tie).map (·.id)) id now) = .ok s)
    (hix : Indexes n s d.links d.entityLinks page id now d') :
    Windowed now d'.store.pages d'.entityLinks := by
  obtain ⟨hstore, -, new, hnew, hopens⟩ := hix
  obtain ⟨rfl, hfresh⟩ := insertPage_ok hs
  rw [hstore, hnew]
  set base := (d.store.mostRecentTombstoneAtPath page.toNewPage tie).elim d.store
    fun r => d.store.unbury r.id with hbase
  have hrows : ∀ a' ∈ base.pages, ∃ a ∈ d.store.pages, SameWindow a' a := by
    intro a' ha'
    cases htomb : d.store.mostRecentTombstoneAtPath page.toNewPage tie with
    | none =>
      rw [hbase, htomb] at ha'
      exact ⟨a', ha', rfl, rfl, rfl, rfl, rfl⟩
    | some r =>
      rw [hbase, htomb] at ha'
      obtain ⟨a, ha, rfl⟩ := mem_update.mp ha'
      refine ⟨a, ha, ?_⟩
      split <;> exact ⟨rfl, rfl, rfl, rfl, rfl⟩
  have hids : base.pages.map (·.id) = d.store.pages.map (·.id) := by
    rw [hbase]
    cases d.store.mostRecentTombstoneAtPath page.toNewPage tie with
    | none => rfl
    | some r => exact map_update fun _ => rfl
  have hkept : Windowed clock base.pages d.entityLinks := by
    refine h.windows.restrict h.pages.chained.keys hrows fun l hl => ⟨hl, ?_⟩
    obtain ⟨a, ha, hid, -⟩ := h.windows.linked l hl
    have hmem : a.id ∈ base.pages.map (·.id) := by
      rw [hids]
      exact mem_map_of_mem ha
    obtain ⟨a', ha', hid'⟩ := mem_map.mp hmem
    exact ⟨a', ha', hid'.trans hid⟩
  refine hkept.openVersion hle rfl rfl rfl (fun a' ha' hpl => ?_) hopens
  obtain ⟨a, ha, -, hplace, -, -, hl⟩ := hrows a' ha'
  rw [hl]
  exact latestAt_none hlatest a ha (hplace.symm.trans hpl)

lemma windowInv_upsert {page : IndexedPage} {id id' : PageId} {entityNow : ℤ} {tie : ℕ}
    {mint : String → EntityId} (h : WindowInv clock d) (hle : clock ≤ now)
    (hok : upsertPageIndexed n C d page id now entityNow tie mint = .ok (id', d')) :
    WindowInv now d' := by
  obtain ⟨hrows, hcases⟩ := upsertPageIndexed_ok hok
  refine ⟨upsertPage_inv h.pages hrows, ?_⟩
  rcases hcases with rfl | ⟨existing, hlatest, s, hs, hix⟩ | ⟨hlatest, s, hs, hix⟩
  · exact h.windows.mono hle
  · exact windowInv_supersede h hle hlatest hs hix
  · exact windowInv_create h hle hlatest hs hix

lemma windowInv_softDelete (h : WindowInv clock d) (hle : clock ≤ now) (ws : WorkspaceId)
    (proj : ProjectId) (path : String) (expected : PageId) :
    WindowInv now (softDeleteIndexed d ws proj path expected now).2 := by
  refine ⟨softDeleteIfLatest_inv h.pages ws proj path expected now, ?_⟩
  by_cases hany : d.store.pages.any (fun r =>
      r.id = expected && atPath ws proj path r && r.isLatest) = true
  · obtain ⟨x, hx, hhere⟩ := any_eq_true.mp hany
    simp only [Bool.and_eq_true, decide_eq_true_eq] at hhere
    have hwin := h.windows.close h.pages.chained.keys hle hx hhere.2
      (p := fun r => r.id = expected && atPath ws proj path r && r.isLatest)
      (f := fun r => { r with isLatest := false, supersededAt := some now, validTo := some now })
      (fun r hr => ?_) (fun _ => rfl) (fun _ => rfl) (fun _ => rfl) (fun _ => rfl) (fun _ => rfl)
    · rw [hhere.1.1] at hwin
      simp only [softDeleteIndexed, softDeleteIfLatest, hany, if_true]
      exact hwin
    · constructor
      · intro hp
        simp only [Bool.and_eq_true, decide_eq_true_eq] at hp
        exact hp.1.1.trans hhere.1.1.symm
      · intro hid
        rw [h.pages.chained.keys.eq hr hx hid]
        simp [hhere]
  · -- no row matches
    have hnone : ∀ r ∈ d.store.pages,
        (decide (r.id = expected) && atPath ws proj path r && r.isLatest) = false := by
      rw [Bool.not_eq_true, any_eq_false] at hany
      exact fun r hr => Bool.eq_false_iff.mpr (hany r hr)
    simp only [softDeleteIndexed, softDeleteIfLatest, hany]
    rw [update_eq_self hnone]
    exact h.windows.mono hle

lemma windowInv_deletePages (h : WindowInv clock d) (ws : WorkspaceId) (proj : ProjectId)
    (p : PageRow → Bool) : WindowInv clock (deletePagesIndexed d ws proj p) := by
  refine ⟨h.pages.deletePages p, h.windows.restrict h.pages.chained.keys ?_ ?_⟩
  · intro a' ha'
    obtain ⟨a, ha, rfl⟩ := mem_update.mp ha'
    refine ⟨a, delete_subset ha, ?_⟩
    split <;> exact ⟨rfl, rfl, rfl, rfl, rfl⟩
  · intro l hl
    obtain ⟨hl, hkept⟩ := mem_delete.mp hl
    refine ⟨hl, ?_⟩
    obtain ⟨a, ha, hid, -⟩ := h.windows.linked l hl
    rw [any_eq_false] at hkept
    have hpa : p a = false := by
      have hno := hkept a ha
      rw [Bool.and_eq_true, not_and, decide_eq_true_eq] at hno
      rw [Bool.eq_false_iff]
      exact fun hpa => hno hpa hid
    refine ⟨_, mem_update.mpr ⟨a, mem_delete.mpr ⟨ha, hpa⟩, rfl⟩, ?_⟩
    split <;> exact hid

/-! ### Runs -/

def IndexOp.time : IndexOp → Option ℤ
  | .upsert _ _ now _ _ _ => some now
  | .softDeleteForDecay _ _ _ _ now => some now
  | .softDeleteForReconcile _ _ _ _ now => some now
  | .delete _ _ _ | .deleteIfLatest _ _ _ _ | .hardDelete _ _ _ _ _ _ => none

lemma windowInv_step (op : IndexOp) (h : WindowInv clock d)
    (hle : ∀ t, op.time = some t → clock ≤ t) :
    WindowInv (op.time.getD clock) (indexStep n C d op) := by
  cases op with
  | upsert page id now entityNow tie mint =>
    have hnow : clock ≤ now := hle now rfl
    change WindowInv now (indexStep n C d (.upsert page id now entityNow tie mint))
    rw [indexStep]
    split
    · rename_i id' d' hok
      exact windowInv_upsert h hnow hok
    · exact ⟨h.pages, h.windows.mono hnow⟩
  | softDeleteForDecay ws proj path expected now
  | softDeleteForReconcile ws proj path expected now =>
    exact windowInv_softDelete h (hle now rfl) ws proj path expected
  | delete ws proj path => exact windowInv_deletePages h ws proj _
  | deleteIfLatest ws proj path expected =>
    change WindowInv clock (deletePageIndexed d ws proj path (some expected))
    rw [deletePageIndexed]
    split
    · exact h
    · exact windowInv_deletePages h ws proj _
  | hardDelete ws proj path tombstone expected cutoff =>
    change WindowInv clock (hardDeleteIndexed d ws proj path tombstone expected cutoff)
    rw [hardDeleteIndexed]
    split
    · exact h
    · exact windowInv_deletePages h ws proj _

lemma windowInv_exec (ops : List IndexOp) (h : WindowInv clock d)
    (hmono : (ops.filterMap IndexOp.time).Pairwise (· ≤ ·))
    (hle : ∀ t ∈ ops.filterMap IndexOp.time, clock ≤ t) :
    ∃ clock', WindowInv clock' (exec (indexStep n C) d ops) := by
  induction ops generalizing d clock with
  | nil => exact ⟨clock, h⟩
  | cons op ops ih =>
    rw [filterMap_cons] at hmono hle
    have hstep := windowInv_step (n := n) (C := C) op h
    cases htime : op.time with
    | none =>
      rw [htime] at hmono hle hstep
      exact ih (hstep (by simp)) hmono hle
    | some t =>
      rw [htime] at hmono hle hstep
      rw [pairwise_cons] at hmono
      refine ih (hstep fun t' ht' => ?_) hmono.2 hmono.1
      rw [Option.some.injEq] at ht'
      exact hle t' (by rw [ht']; exact mem_cons_self)

lemma WindowInv.done (h : WindowInv clock d) : Windows d where
  atMostOne t a ha b hb hplace hca hcb :=
    h.pages.chained.keys.eq ha hb (h.windows.atMostOne t a ha b hb hplace hca hcb)
  openIffLatest := h.windows.openIffLatest
  links := h.windows.linked

/-- Under a clock that does not go back, the ingestion windows partition time in
every state reached. -/
theorem ingestion_windows_partition (n : Directory) (C : IndexCodec) (s : Store)
    (ops : List IndexOp) (hclock : (ops.filterMap IndexOp.time).Pairwise (· ≤ ·)) :
    Windows (exec (indexStep n C) (Indexed.start n s) ops) := by
  -- any instant before the first reading will do for the start
  obtain ⟨first, hfirst⟩ : ∃ first, ∀ t ∈ ops.filterMap IndexOp.time, first ≤ t := by
    cases htimes : ops.filterMap IndexOp.time with
    | nil => exact ⟨0, fun t ht => absurd ht not_mem_nil⟩
    | cons t₀ ts =>
      rw [htimes, pairwise_cons] at hclock
      refine ⟨t₀, fun t ht => ?_⟩
      rcases mem_cons.mp ht with rfl | ht
      · exact le_rfl
      · exact hclock.1 t ht
  have hstart : WindowInv first (Indexed.start n s) := ⟨pageInv_nil, windowed_nil first⟩
  obtain ⟨clock', hdone⟩ := windowInv_exec (n := n) (C := C) ops hstart hclock hfirst
  exact hdone.done

def oneRepo : Directory where
  workspaces := [⟨0, "default"⟩]
  projects := [⟨1, 0, "app"⟩]
  workspaceIds := by decide
  workspaceNames := by decide
  projectIds := by decide
  projectNames := by decide
  homed := by decide

def plainIndexCodec : IndexCodec where
  toPageCodec := plainCodec
  lowercase := id

def aboutRust (body : String) : IndexedPage where
  toNewPage := samplePage body
  entities := ["rust"]
  links := []

def evictedAndBack : List IndexOp :=
  [.upsert (aboutRust "one") 10 1 1 0 (fun _ => 7), .softDeleteForDecay 0 1 "notes/a.md" 10 2,
    .upsert (aboutRust "two") 11 4 4 0 (fun _ => 8), .upsert (aboutRust "three") 12 4 5 0 (fun _ => 9)]

theorem ingestion_windows_evictedAndBack :
    Windows (exec (indexStep oneRepo plainIndexCodec) (Indexed.start oneRepo Store.empty)
        evictedAndBack) ∧
      (exec (indexStep oneRepo plainIndexCodec) (Indexed.start oneRepo Store.empty)
        evictedAndBack).store.pages.map (fun r => (r.id, r.validFrom, r.validTo)) =
      [(10, some 1, some 2), (11, some 4, some 4), (12, some 4, none)] ∧
      (exec (indexStep oneRepo plainIndexCodec) (Indexed.start oneRepo Store.empty)
        evictedAndBack).entityLinks =
      [⟨7, 10, some 1, some 2⟩, ⟨7, 11, some 4, some 4⟩, ⟨7, 12, some 4, none⟩] :=
  ⟨ingestion_windows_partition oneRepo plainIndexCodec Store.empty evictedAndBack (by decide),
    by decide +kernel, by decide +kernel⟩

end Store
