/-
The version history of pages.

A path's versions form chains through `supersedes`, and at most one version of
a path is its head: the latest one, or the tombstone that took its place.
-/
import Mathlib.Data.Finset.Max
import AiMemory.Lib.Chains
import AiMemory.Lib.Runs
import AiMemory.Store.Pages

open Chains Relation Runs Table List

namespace Store

open Bool (and_eq_true)

inductive PageOp
  | upsert (page : NewPage) (id : PageId) (now : ℤ) (tie : ℕ)
  | softDeleteForDecay (ws : WorkspaceId) (proj : ProjectId) (path : String) (expected : PageId)
      (now : ℤ)
  | softDeleteForReconcile (ws : WorkspaceId) (proj : ProjectId) (path : String)
      (expected : PageId) (now : ℤ)
  | delete (ws : WorkspaceId) (proj : ProjectId) (path : String)
  | deleteIfLatest (ws : WorkspaceId) (proj : ProjectId) (path : String) (expected : PageId)
  | hardDelete (ws : WorkspaceId) (proj : ProjectId) (path : String) (tombstone : PageId)
      (expected : Option PageId) (cutoff : ℤ)

def pageStep (C : PageCodec) (s : Store) : PageOp → Store
  | .upsert page id now tie =>
    match upsertPage C s page id now tie with
    | .ok (_, s') => s'
    | .error _ => s
  | .softDeleteForDecay ws proj path expected now =>
    (s.softDeleteForDecayIfLatest ws proj path expected now).2
  | .softDeleteForReconcile ws proj path expected now =>
    (s.softDeleteForReconcileIfLatest ws proj path expected now).2
  | .delete ws proj path => s.deletePage ws proj path
  | .deleteIfLatest ws proj path expected => (s.deletePageIfLatest ws proj path expected).2
  | .hardDelete ws proj path tombstone expected cutoff =>
    (s.hardDeleteDecayedPageChain ws proj path tombstone expected cutoff).2

def PageRow.place (r : PageRow) : WorkspaceId × ProjectId × String :=
  (r.workspaceId, r.projectId, r.path)

def PageRow.head (r : PageRow) : Bool := r.isLatest || r.supersededAt.isSome

abbrev Supersedes (pages : List PageRow) : PageRow → PageRow → Prop :=
  Edge PageRow.id PageRow.supersedes pages

structure PageInv (pages : List PageRow) : Prop where
  chained : Chained PageRow.id PageRow.supersedes pages
  place : ∀ a ∈ pages, ∀ b ∈ pages, a.supersedes = some b.id → a.place = b.place
  heads : ∀ a ∈ pages, ∀ b ∈ pages, a.head → b.head → a.place = b.place → a = b
  top : ∀ a ∈ pages, ∀ b ∈ pages, b.head → a.supersedes ≠ some b.id
  live : ∀ a ∈ pages, a.isLatest → a.supersededAt = none

lemma pageInv_nil : PageInv [] where
  chained := chained_nil
  place _ ha := absurd ha not_mem_nil
  heads _ ha := absurd ha not_mem_nil
  top _ ha := absurd ha not_mem_nil
  live _ ha := absurd ha not_mem_nil

variable {pages : List PageRow}

variable {f : PageRow → PageRow} {s : Store} {ws : WorkspaceId} {proj : ProjectId} {path : String}
  {r : PageRow} {page : NewPage} {C : PageCodec} {now : ℤ} {tie : ℕ} {here : PageRow → Bool}

lemma PageInv.update (h : PageInv pages) {p : PageRow → Bool}
    (hid : ∀ r, (f r).id = r.id) (hsup : ∀ r, (f r).supersedes = r.supersedes)
    (hplace : ∀ r, (f r).place = r.place) (hhead : ∀ r ∈ pages, p r = true → (f r).head → r.head)
    (hlive : ∀ r ∈ pages, p r = true → (f r).isLatest → (f r).supersededAt = none) :
    PageInv (update p f pages) := by
  have hcols : ∀ r, (if p r then f r else r).id = r.id ∧
      (if p r then f r else r).supersedes = r.supersedes ∧
      (if p r then f r else r).place = r.place := fun r => by
    split
    · exact ⟨hid r, hsup r, hplace r⟩
    · exact ⟨rfl, rfl, rfl⟩
  have hheads : ∀ r ∈ pages, (if p r then f r else r).head = true → r.head := by
    intro r hr hh
    by_cases hp : p r
    · rw [if_pos hp] at hh
      exact hhead r hr hp hh
    · rw [if_neg hp] at hh
      exact hh
  refine ⟨h.chained.update hid hsup, ?_, ?_, ?_, ?_⟩
  · intro a' ha' b' hb' hab
    obtain ⟨a, ha, rfl⟩ := mem_update.mp ha'
    obtain ⟨b, hb, rfl⟩ := mem_update.mp hb'
    rw [(hcols a).2.1, (hcols b).1] at hab
    rw [(hcols a).2.2, (hcols b).2.2]
    exact h.place a ha b hb hab
  · intro a' ha' b' hb' hah hbh hab
    obtain ⟨a, ha, rfl⟩ := mem_update.mp ha'
    obtain ⟨b, hb, rfl⟩ := mem_update.mp hb'
    rw [(hcols a).2.2, (hcols b).2.2] at hab
    rw [h.heads a ha b hb (hheads a ha hah) (hheads b hb hbh) hab]
  · intro a' ha' b' hb' hbh
    obtain ⟨a, ha, rfl⟩ := mem_update.mp ha'
    obtain ⟨b, hb, rfl⟩ := mem_update.mp hb'
    rw [(hcols a).2.1, (hcols b).1]
    exact h.top a ha b hb (hheads b hb hbh)
  · intro a' ha' hal
    obtain ⟨a, ha, rfl⟩ := mem_update.mp ha'
    by_cases hp : p a
    · rw [if_pos hp] at hal ⊢
      exact hlive a ha hp hal
    · rw [if_neg hp] at hal ⊢
      exact h.live a ha hal

lemma PageInv.insert (h : PageInv pages) {row : PageRow} (hfresh : ∀ a ∈ pages, a.id ≠ row.id)
    (hopen : row.supersededAt = none) (hnohead : ∀ a ∈ pages, a.place = row.place → a.head = false)
    (hbase : ∀ k, row.supersedes = some k → ∃ b ∈ pages, b.id = k ∧ b.place = row.place ∧
      ∀ a ∈ pages, a.supersedes ≠ some k) : PageInv (pages ++ [row]) := by
  have hnew : ∀ a ∈ pages, a.supersedes ≠ some row.id := by
    intro a ha hpar
    obtain ⟨b, hb, hbk⟩ := h.chained.resolved a ha _ hpar
    exact hfresh b hb hbk
  refine ⟨h.chained.append hfresh ?_ ?_, ?_, ?_, ?_, ?_⟩
  · intro k hk
    obtain ⟨b, hb, hbk, -⟩ := hbase k hk
    exact ⟨b, hb, hbk⟩
  · intro k hk
    obtain ⟨-, -, -, -, hfree⟩ := hbase k hk
    exact hfree
  · intro a ha b hb hab
    rcases mem_append.mp ha with ha | ha <;> rcases mem_append.mp hb with hb | hb
    · exact h.place a ha b hb hab
    · rw [mem_singleton.mp hb] at hab
      exact absurd hab (hnew a ha)
    · rw [mem_singleton.mp ha] at hab ⊢
      obtain ⟨b', hb', hbk, hplace, -⟩ := hbase b.id hab
      rw [← hplace, h.chained.keys.eq hb' hb hbk]
    · rw [mem_singleton.mp ha, mem_singleton.mp hb]
  · intro a ha b hb hah hbh hab
    rcases mem_append.mp ha with ha | ha <;> rcases mem_append.mp hb with hb | hb
    · exact h.heads a ha b hb hah hbh hab
    · rw [mem_singleton.mp hb] at hab
      rw [hnohead a ha hab] at hah
      cases hah
    · rw [mem_singleton.mp ha] at hab
      rw [hnohead b hb hab.symm] at hbh
      cases hbh
    · rw [mem_singleton.mp ha, mem_singleton.mp hb]
  · intro a ha b hb hbh hab
    rcases mem_append.mp hb with hb | hb
    · rcases mem_append.mp ha with ha | ha
      · exact h.top a ha b hb hbh hab
      · rw [mem_singleton.mp ha] at hab
        obtain ⟨b', hb', hbk, hplace, -⟩ := hbase b.id hab
        rw [h.chained.keys.eq hb' hb hbk] at hplace
        rw [hnohead b hb hplace] at hbh
        cases hbh
    · rw [mem_singleton.mp hb] at hab
      rcases mem_append.mp ha with ha | ha
      · exact hnew a ha hab
      · rw [mem_singleton.mp ha] at hab
        obtain ⟨b', hb', hbk, -⟩ := hbase row.id hab
        exact hfresh b' hb' hbk
  · intro a ha hal
    rcases mem_append.mp ha with ha | ha
    · exact h.live a ha hal
    · rw [mem_singleton.mp ha]
      exact hopen

lemma PageInv.deletePages (h : PageInv s.pages) (p : PageRow → Bool) :
    PageInv (s.deletePages p).pages := by
  have hchained : Chained PageRow.id PageRow.supersedes (s.deletePages p).pages := by
    refine h.chained.delete (fun _ => rfl) (fun _ => rfl) fun r => ?_
    cases hr : r.supersedes with
    | none => simp
    | some k =>
      rw [Option.any_some, any_eq_true]
      constructor
      · rintro ⟨b, hb, hpb⟩
        simp only [and_eq_true, decide_eq_true_eq] at hpb
        exact ⟨k, rfl, b, hb, hpb⟩
      · rintro ⟨k', hk, b, hb, hpb, hbk⟩
        cases hk
        exact ⟨b, hb, by simp [hpb, hbk]⟩
  -- A version that stays is an old one, up to its pointer.
  have hfrom : ∀ a' ∈ (s.deletePages p).pages, ∃ a ∈ s.pages, a'.id = a.id ∧ a'.place = a.place ∧
      a'.head = a.head ∧ a'.isLatest = a.isLatest ∧ a'.supersededAt = a.supersededAt ∧
      (a'.supersedes = none ∨ a' = a) := by
    intro a' ha'
    obtain ⟨a, ha, rfl⟩ := mem_update.mp ha'
    refine ⟨a, delete_subset ha, ?_⟩
    split
    · exact ⟨rfl, rfl, rfl, rfl, rfl, .inl rfl⟩
    · exact ⟨rfl, rfl, rfl, rfl, rfl, .inr rfl⟩
  refine ⟨hchained, ?_, ?_, ?_, ?_⟩
  · intro a' ha' b' hb' hab
    obtain ⟨a, ha, -, -, -, -, -, hnull | rfl⟩ := hfrom a' ha'
    · rw [hnull] at hab
      cases hab
    · obtain ⟨b, hb, hbid, hbplace, -⟩ := hfrom b' hb'
      rw [hbplace]
      exact h.place a' ha b hb (hbid ▸ hab)
  · intro a' ha' b' hb' hah hbh hab
    obtain ⟨a, ha, haid, haplace, hahead, -⟩ := hfrom a' ha'
    obtain ⟨b, hb, hbid, hbplace, hbhead, -⟩ := hfrom b' hb'
    have heq : a = b := h.heads a ha b hb (hahead ▸ hah) (hbhead ▸ hbh)
      (haplace.symm.trans (hab.trans hbplace))
    exact hchained.keys.eq ha' hb' (by rw [haid, hbid, heq])
  · intro a' ha' b' hb' hbh hab
    obtain ⟨a, ha, -, -, -, -, -, hnull | rfl⟩ := hfrom a' ha'
    · rw [hnull] at hab
      cases hab
    · obtain ⟨b, hb, hbid, -, hbhead, -⟩ := hfrom b' hb'
      exact h.top a' ha b hb (hbhead ▸ hbh) (hbid ▸ hab)
  · intro a' ha' hal
    obtain ⟨a, ha, -, -, -, hlatest, hsup, -⟩ := hfrom a' ha'
    rw [hsup]
    exact h.live a ha (hlatest ▸ hal)

/-! ### The operations -/

theorem atPath_iff :
    atPath ws proj path r ↔ r.place = (ws, proj, path) := by
  simp [atPath, PageRow.place, and_assoc]

lemma insertPage_ok {s s' : Store} {row : PageRow} (h : s.insertPage row = .ok s') :
    s' = { s with pages := s.pages ++ [row] } ∧ ∀ a ∈ s.pages, a.id ≠ row.id := by
  unfold insertPage at h
  split at h
  · cases h
  · split at h
    · cases h
    · rename_i hkeys
      cases h
      refine ⟨rfl, fun a ha hid => hkeys (any_eq_true.mpr ⟨a, ha, ?_⟩)⟩
      simp [hid]

lemma PageInv.demote (h : PageInv pages) {b : PageRow} (hb : b ∈ pages) (hhead : b.head)
    (hid : ∀ r, (f r).id = r.id)
    (hsup : ∀ r, (f r).supersedes = r.supersedes) (hplace : ∀ r, (f r).place = r.place)
    (hoff : (f b).head = false) :
    PageInv (Table.update (fun r => r.id = b.id) f pages) ∧
      (∀ a ∈ Table.update (fun r => r.id = b.id) f pages, a.place = b.place → a.head = false) ∧
      ∀ a ∈ Table.update (fun r => r.id = b.id) f pages, a.supersedes ≠ some b.id := by
  have hone : ∀ r ∈ pages, decide (r.id = b.id) = true → r = b := fun r hr hrb =>
    h.chained.keys.eq hr hb (of_decide_eq_true hrb)
  refine ⟨h.update hid hsup hplace ?_ ?_, ?_, ?_⟩
  · intro r hr hrb hh
    rw [hone r hr hrb, hoff] at hh
    cases hh
  · intro r hr hrb hl
    rw [hone r hr hrb] at hl
    rw [PageRow.head, hl] at hoff
    cases hoff
  · intro a' ha' hab
    obtain ⟨a, ha, rfl⟩ := mem_update.mp ha'
    by_cases hid' : decide (a.id = b.id)
    · rw [if_pos hid', hone a ha hid']
      exact hoff
    · rw [if_neg hid'] at hab ⊢
      by_contra hh
      -- Two heads of one path would be one row.
      have heq : a = b := h.heads a ha b hb (by simpa using hh) hhead hab
      exact hid' (by simp [heq])
  · intro a' ha'
    obtain ⟨a, ha, rfl⟩ := mem_update.mp ha'
    have hkept : (if decide (a.id = b.id) = true then f a else a).supersedes = a.supersedes := by
      split
      · exact hsup a
      · rfl
    rw [hkept]
    exact h.top a ha b hb hhead

lemma PageInv.write {id : PageId}
    (h : PageInv pages) {b : PageRow} (hb : b ∈ pages) (hhead : b.head)
    (hbplace : b.place = (page.workspaceId, page.projectId, page.path)) (hid : ∀ r, (f r).id = r.id)
    (hsup : ∀ r, (f r).supersedes = r.supersedes) (hplace : ∀ r, (f r).place = r.place)
    (hoff : (f b).head = false)
    (hfresh : ∀ a ∈ Table.update (fun r => r.id = b.id) f pages, a.id ≠ id) :
    PageInv (Table.update (fun r => r.id = b.id) f pages ++
      [pageVersion C page (some b.id) id now]) := by
  obtain ⟨hinv, hnohead, hfree⟩ := h.demote hb hhead hid hsup hplace hoff
  refine hinv.insert hfresh rfl (fun a ha hab => ?_) fun k hk => ?_
  · exact hnohead a ha (hab.trans hbplace.symm)
  · cases hk
    refine ⟨f b, mem_update_of_match hb (by simp), hid b, ?_, hfree⟩
    exact (hplace b).trans hbplace

lemma latestAt_some (h : s.latestAt ws proj path = some r) :
    r ∈ s.pages ∧ r.place = (ws, proj, path) ∧ r.isLatest := by
  have hr := find?_some h
  rw [and_eq_true, atPath_iff] at hr
  exact ⟨mem_of_find?_eq_some h, hr⟩

lemma latestAt_none (h : s.latestAt ws proj path = none) :
    ∀ r ∈ s.pages, r.place = (ws, proj, path) → r.isLatest = false := by
  intro r hr hplace
  have hno := find?_eq_none.mp h r hr
  simpa [atPath_iff.mpr hplace] using hno

lemma mem_newestTombstones (h : r ∈ s.newestTombstones ws proj path) :
    r ∈ s.pages ∧ r.place = (ws, proj, path) ∧ r.tombstone := by
  obtain ⟨hr, hprop⟩ := mem_filter.mp (mem_filter.mp h).1
  rw [and_eq_true, atPath_iff] at hprop
  exact ⟨hr, hprop⟩

lemma mostRecentTombstone_none (h : s.mostRecentTombstoneAtPath page tie = none) :
    ∀ r ∈ s.pages, r.place = (page.workspaceId, page.projectId, page.path) →
      r.tombstone = false := by
  intro r hr hplace
  by_contra hne
  set tombstones := s.pages.filter fun r =>
    atPath page.workspaceId page.projectId page.path r && r.tombstone with htombs
  have hmem : r ∈ tombstones := by
    rw [htombs, mem_filter, and_eq_true, atPath_iff]
    exact ⟨hr, hplace, by simpa using hne⟩
  obtain ⟨m, hm, hmax⟩ := tombstones.toFinset.exists_max_image (fun r => r.supersededAt.getD 0)
    ⟨r, mem_toFinset.mpr hmem⟩
  have hnewest : m ∈ s.newestTombstones page.workspaceId page.projectId page.path := by
    refine mem_filter.mpr ⟨mem_toFinset.mp hm, all_eq_true.mpr fun r' hr' => ?_⟩
    exact decide_eq_true (hmax r' (mem_toFinset.mpr hr'))
  have hlen := length_pos_of_mem hnewest
  have hge := getElem?_eq_none_iff.mp h
  have hlt := Nat.mod_lt tie hlen
  omega

/-- What an upsert did: nothing, since the latest version already says it; or it
closed that version and wrote one over it; or it wrote the first version of the
path, or one over its newest tombstone. -/
theorem upsertPage_ok {s s' : Store} {id id' : PageId}
    (hok : upsertPage C s page id now tie = .ok (id', s')) :
    (∃ existing, s.latestAt page.workspaceId page.projectId page.path = some existing ∧
        unchanged C existing page ∧ id' = existing.id ∧ s' = s) ∨
      (∃ existing, s.latestAt page.workspaceId page.projectId page.path = some existing ∧ id' = id ∧
        (s.retire existing.id now).insertPage (pageVersion C page (some existing.id) id now) =
          .ok s') ∨
      (s.latestAt page.workspaceId page.projectId page.path = none ∧
        collidingLivePath C s page = none ∧ id' = id ∧
        ((s.mostRecentTombstoneAtPath page tie).elim s fun r => s.unbury r.id).insertPage
          (pageVersion C page ((s.mostRecentTombstoneAtPath page tie).map (·.id)) id now) =
            .ok s') := by
  unfold upsertPage at hok
  split at hok
  · rename_i existing hlatest
    split at hok
    · rename_i hsame
      cases hok
      exact .inl ⟨existing, hlatest, hsame, rfl, rfl⟩
    · obtain ⟨s₁, hins, hret⟩ := bind_ok.mp hok
      cases hret
      exact .inr (.inl ⟨existing, hlatest, rfl, hins⟩)
  · rename_i hlatest
    split at hok
    · cases hok
    · rename_i hfree
      obtain ⟨s₁, hins, hret⟩ := bind_ok.mp hok
      cases hret
      exact .inr (.inr ⟨hlatest, hfree, rfl, hins⟩)

lemma upsertPage_inv {s s' : Store} (h : PageInv s.pages)
    {id id' : PageId} (hok : upsertPage C s page id now tie = .ok (id', s')) :
    PageInv s'.pages := by
  rcases upsertPage_ok hok with ⟨existing, -, -, -, rfl⟩ | ⟨existing, hlatest, -, hins⟩ |
    ⟨hlatest, -, -, hins⟩
  · exact h
  · obtain ⟨hmem, hplace, hlive⟩ := latestAt_some hlatest
    obtain ⟨rfl, hfresh⟩ := insertPage_ok hins
    refine h.write hmem ?_ hplace (fun _ => rfl) (fun _ => rfl) (fun _ => rfl) ?_ hfresh
    · rw [PageRow.head, hlive]
      rfl
    · simp [PageRow.head, h.live existing hmem hlive]
  · obtain ⟨rfl, hfresh⟩ := insertPage_ok hins
    cases htomb : s.mostRecentTombstoneAtPath page tie with
    | some b =>
      rw [htomb] at hfresh
      obtain ⟨hmem, hplace, hb⟩ := mem_newestTombstones (mem_of_getElem? htomb)
      simp only [PageRow.tombstone, and_eq_true, Bool.not_eq_true'] at hb
      refine h.write hmem ?_ hplace (fun _ => rfl) (fun _ => rfl) (fun _ => rfl) ?_ hfresh
      · rw [PageRow.head, hb.2, Bool.or_true]
      · simp [PageRow.head, hb.1]
    | none =>
      rw [htomb] at hfresh
      refine h.insert hfresh rfl (fun a ha hplace => ?_) fun k hk => by cases hk
      -- Neither a latest version nor a tombstone is there.
      have hl := latestAt_none hlatest a ha hplace
      have ht := mostRecentTombstone_none htomb a ha hplace
      rw [PageRow.tombstone, hl, Bool.not_false, Bool.true_and] at ht
      rw [PageRow.head, hl, ht]
      rfl

lemma softDeleteIfLatest_inv (h : PageInv s.pages) (ws : WorkspaceId)
    (proj : ProjectId) (path : String) (expected : PageId) (now : ℤ) :
    PageInv (s.softDeleteIfLatest ws proj path expected now).2.pages := by
  refine h.update (fun _ => rfl) (fun _ => rfl) (fun _ => rfl) (fun r _ hp _ => ?_)
    fun r _ _ hl => by cases hl
  rw [and_eq_true] at hp
  rw [PageRow.head, hp.2]
  rfl

/-- All that a page operation can do to the store. -/
theorem pageStep_elim {C : PageCodec} {P : Store → Prop} (op : PageOp) (hsame : P s)
    (hupsert : ∀ {page id now tie id' s'}, upsertPage C s page id now tie = .ok (id', s') → P s')
    (hsoftDelete : ∀ ws proj path expected now, P (s.softDeleteIfLatest ws proj path expected now).2)
    (hdelete : ∀ p, P (s.deletePages p)) : P (pageStep C s op) := by
  have hinner : ∀ ws proj path expected, P (s.deletePageInner ws proj path expected).2 := by
    intro ws proj path expected
    unfold deletePageInner
    split
    · exact hsame
    · exact hdelete _
  cases op with
  | upsert page id now tie =>
    rw [pageStep]
    split
    · rename_i id' s' hok
      exact hupsert hok
    · exact hsame
  | softDeleteForDecay ws proj path expected now
  | softDeleteForReconcile ws proj path expected now =>
    exact hsoftDelete ws proj path expected now
  | delete ws proj path => exact hinner ws proj path none
  | deleteIfLatest ws proj path expected => exact hinner ws proj path (some expected)
  | hardDelete ws proj path tombstone expected cutoff =>
    show P (s.hardDeleteDecayedPageChain ws proj path tombstone expected cutoff).2
    unfold hardDeleteDecayedPageChain
    split
    · exact hsame
    · exact hdelete _

lemma pageStep_inv (C : PageCodec) (s : Store) (op : PageOp) (h : PageInv s.pages) :
    PageInv (pageStep C s op).pages :=
  pageStep_elim (P := fun s => PageInv s.pages) op h (upsertPage_inv h) (softDeleteIfLatest_inv h)
    h.deletePages

lemma ancestry_reaches {n : ℕ} (hr : r ∈ pages) :
    ∀ id ∈ ancestry pages here n r, ∃ x ∈ pages, x.id = id ∧
      ReflTransGen (Supersedes pages) r x := by
  induction n generalizing r with
  | zero =>
    intro id hid
    rw [ancestry, mem_singleton] at hid
    exact ⟨r, hr, hid.symm, ReflTransGen.refl⟩
  | succ n ih =>
    intro id hid
    rw [ancestry] at hid
    rcases mem_cons.mp hid with rfl | hid
    · exact ⟨r, hr, rfl, ReflTransGen.refl⟩
    · split at hid
      · rename_i parent hparent
        have hmem := mem_of_find?_eq_some hparent
        have hedge := find?_some hparent
        rw [and_eq_true, decide_eq_true_eq] at hedge
        obtain ⟨x, hx, hxid, hreach⟩ := ih hmem id hid
        exact ⟨x, hx, hxid, ReflTransGen.head ⟨hr, hmem, hedge.1⟩ hreach⟩
      · cases hid

lemma ancestry_complete (h : PageInv pages) {n : ℕ} {r x : PageRow}
    (hhere : ∀ a b, Supersedes pages a b → here a → here b) (hr : here r)
    (hn : pages.idxOf r ≤ n) (hreach : ReflTransGen (Supersedes pages) r x) :
    x.id ∈ ancestry pages here n r := by
  induction n generalizing r with
  | zero =>
    rcases ReflTransGen.cases_head hreach with rfl | ⟨b, hedge, -⟩
    · exact mem_singleton.mpr rfl
    · have hlt := h.chained.edge_lt hedge
      omega
  | succ n ih =>
    rcases ReflTransGen.cases_head hreach with rfl | ⟨b, hedge, hrest⟩
    · exact mem_cons_self
    · have hlt := h.chained.edge_lt hedge
      have hb := hhere r b hedge hr
      have hfind : pages.find? (fun q => r.supersedes = some q.id && here q) = some b := by
        cases hf : pages.find? fun q => r.supersedes = some q.id && here q with
        | none =>
          have hno := find?_eq_none.mp hf b hedge.2.1
          simp [hedge.2.2, hb] at hno
        | some q =>
          have hq := find?_some hf
          rw [and_eq_true, decide_eq_true_eq, hedge.2.2, Option.some.injEq] at hq
          rw [h.chained.keys.eq (mem_of_find?_eq_some hf) hedge.2.1 hq.1.symm]
      rw [ancestry, hfind]
      exact mem_cons_of_mem _ (ih hb (by omega) hrest)

lemma mem_decayChain (h : PageInv s.pages)
    {tombstone : PageId} {cutoff : ℤ} {x : PageRow} (hx : x ∈ s.pages) :
    x.id ∈ s.decayChain ws proj path tombstone cutoff ↔
      ∃ root, s.pages.find? (fun r => r.id = tombstone && atPath ws proj path r && r.tombstone
          && r.supersededAt.any (fun t => decide (t ≤ cutoff))) = some root ∧
        ReflTransGen (Supersedes s.pages) root x := by
  unfold decayChain
  cases hroot : s.pages.find? fun r => r.id = tombstone && atPath ws proj path r && r.tombstone
      && r.supersededAt.any (fun t => decide (t ≤ cutoff)) with
  | none => simp
  | some root =>
    have hmem := mem_of_find?_eq_some hroot
    constructor
    · intro hid
      obtain ⟨y, hy, hyid, hreach⟩ := ancestry_reaches hmem x.id hid
      rw [h.chained.keys.eq hy hx hyid] at hreach
      exact ⟨root, rfl, hreach⟩
    · rintro ⟨root', heq, hreach⟩
      cases heq
      have hprop := find?_some hroot
      simp only [and_eq_true] at hprop
      refine ancestry_complete h (fun a b hab ha => ?_) hprop.1.1.2 ?_ hreach
      · rw [atPath_iff] at ha ⊢
        exact (h.place a hab.1 b hab.2.1 hab.2.2).symm.trans ha
      · exact (idxOf_lt_length_iff.mpr hmem).le

lemma decayChain_disjoint (h : PageInv s.pages) {tombstone : PageId} {cutoff : ℤ} {top x : PageRow}
    (htop : top ∈ s.pages) (hlatest : top.isLatest) (hx : x ∈ s.pages)
    (hreach : ReflTransGen (Supersedes s.pages) top x) :
    x.id ∉ s.decayChain ws proj path tombstone cutoff := by
  intro hmem
  obtain ⟨root, hroot, hry⟩ := (mem_decayChain h hx).mp hmem
  have hrmem := mem_of_find?_eq_some hroot
  have hrprop := find?_some hroot
  simp only [and_eq_true, PageRow.tombstone, Bool.not_eq_true'] at hrprop
  obtain ⟨⟨-, hdead, hburied⟩, -⟩ := hrprop
  -- The latest version and the tombstone are both heads, so nothing supersedes
  -- them; reaching a common version makes them one.
  have heq : top = root := h.chained.root_unique
    (fun a ha => h.top a ha top htop (by rw [PageRow.head, hlatest]; rfl))
    (fun a ha => h.top a ha root hrmem (by rw [PageRow.head, hburied, Bool.or_true])) hreach hry
  rw [← heq, hlatest] at hdead
  cases hdead

lemma hardDelete_keeps (h : PageInv s.pages) (ws : WorkspaceId) (proj : ProjectId)
    (path : String) (tombstone : PageId) (expected : Option PageId) (cutoff : ℤ)
    {top x : PageRow} (htop : top ∈ s.pages) (hlatest : top.isLatest)
    (hreach : ReflTransGen (Supersedes s.pages) top x) :
    x ∈ (s.hardDeleteDecayedPageChain ws proj path tombstone expected cutoff).2.pages := by
  have hx : x ∈ s.pages := by
    rcases ReflTransGen.cases_tail hreach with heq | ⟨y, -, hedge⟩
    · exact heq ▸ htop
    · exact hedge.2.1
  unfold hardDeleteDecayedPageChain
  split
  · exact hx
  · have hkept : ∀ {y}, y ∈ s.pages → ReflTransGen (Supersedes s.pages) top y →
        y.id ∉ s.decayChain ws proj path tombstone cutoff :=
      fun hy hty => decayChain_disjoint h htop hlatest hy hty
    refine mem_update_of_not (mem_delete.mpr ⟨hx, decide_eq_false (hkept hx hreach)⟩) ?_
    -- What it supersedes stays too, so its pointer is not nulled.
    rw [Option.any_eq_false]
    intro k hk
    rw [any_eq_false]
    intro y hy hyk
    rw [and_eq_true, decide_eq_true_eq, decide_eq_true_eq] at hyk
    exact hkept hy (hreach.tail ⟨hx, hy, by rw [hk, hyk.2]⟩) hyk.1

/-- The versions of a page are one chain with one head. -/
structure PageHistory (pages : List PageRow) : Prop where
  oneLatest : ∀ a ∈ pages, ∀ b ∈ pages, a.isLatest → b.isLatest → a.place = b.place → a = b
  acyclic : ∀ a, ¬ TransGen (Supersedes pages) a a
  onePath : ∀ a b, Supersedes pages a b → a.place = b.place
  oneSuccessor : ∀ a a' b, Supersedes pages a b → Supersedes pages a' b → a = a'
  tombstoneLast : ∀ a b, Supersedes pages a b → b.supersededAt = none
  oneTombstone : ∀ a ∈ pages, ∀ b ∈ pages, a.supersededAt.isSome → b.supersededAt.isSome →
    a.place = b.place → a = b

lemma PageInv.history (h : PageInv pages) : PageHistory pages where
  oneLatest a ha b hb hal hbl := h.heads a ha b hb (by rw [PageRow.head, hal]; rfl)
    (by rw [PageRow.head, hbl]; rfl)
  acyclic := h.chained.acyclic
  onePath a b hab := h.place a hab.1 b hab.2.1 hab.2.2
  oneSuccessor a a' b hab hab' := h.chained.single a hab.1 a' hab'.1 _ hab.2.2 hab'.2.2
  tombstoneLast a b hab := by
    by_contra hne
    refine h.top a hab.1 b hab.2.1 ?_ hab.2.2
    rw [PageRow.head, Option.isSome_iff_ne_none.mpr hne, Bool.or_true]
  oneTombstone a ha b hb hat hbt := h.heads a ha b hb (by rw [PageRow.head, hat, Bool.or_true])
    (by rw [PageRow.head, hbt, Bool.or_true])

/-- Every run of page operations keeps the version history, and no hard delete
in the state it reaches takes a latest version or one a latest version reaches. -/
theorem page_version_history (C : PageCodec) (s : Store) (hs : s.pages = []) (ops : List PageOp) :
    PageHistory (exec (pageStep C) s ops).pages ∧
      ∀ (ws : WorkspaceId) (proj : ProjectId) (path : String) (tombstone : PageId)
        (expected : Option PageId) (cutoff : ℤ),
        ∀ top ∈ (exec (pageStep C) s ops).pages, top.isLatest → ∀ x,
          ReflTransGen (Supersedes (exec (pageStep C) s ops).pages) top x →
          x ∈ ((exec (pageStep C) s ops).hardDeleteDecayedPageChain ws proj path tombstone expected
            cutoff).2.pages := by
  have hinv : PageInv (exec (pageStep C) s ops).pages := by
    refine exec_invariant (I := fun s : Store => PageInv s.pages) (pageStep_inv C) ?_ ops
    rw [hs]
    exact pageInv_nil
  refine ⟨hinv.history, fun ws proj path tombstone expected cutoff top htop hlatest x hreach => ?_⟩
  exact hardDelete_keeps hinv ws proj path tombstone expected cutoff htop hlatest hreach

def plainCodec : PageCodec where
  sha256 := id
  conform _ fm := fm
  sameFrontmatter a b := a = b
  stamped fm _ := fm
  compacted _ := false
  portablePageKey := id

def samplePage (body : String) : NewPage where
  workspaceId := 0
  projectId := 1
  path := "notes/a.md"
  title := "a"
  tier := "semantic"
  body := body
  frontmatterJson := ""
  pinned := false
  authorId := none
  expiresAt := none

def oneProject : Store := { Store.empty with projects := [⟨1, 0⟩] }

def resurrect : List PageOp :=
  [.upsert (samplePage "one") 10 1 0, .softDeleteForDecay 0 1 "notes/a.md" 10 2,
    .upsert (samplePage "two") 11 3 0]

theorem page_version_history_resurrected :
    PageHistory (exec (pageStep plainCodec) oneProject resurrect).pages ∧
      (exec (pageStep plainCodec) oneProject resurrect).pages.map (fun r => (r.id, r.supersedes))
        = [(10, none), (11, some 10)] :=
  ⟨(page_version_history plainCodec oneProject rfl resurrect).1, by decide⟩

end Store
