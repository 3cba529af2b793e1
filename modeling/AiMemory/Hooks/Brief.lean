/-
Tiers of the pages in a session's brief (`ai-memory-hooks`, `brief_tiers.rs`).

Every page that fits gets its shortest excerpt first; what is left deepens pages to longer
excerpts and whole bodies, privileged pages first.  Costs are lengths of rendered strings; sums
of them are of a `usize`.
-/
import Mathlib

open List

namespace Brief

/-! ### Costs -/

/-- A body at most this much longer than what its page shows is completed early. -/
def shortBodySlack : ℕ := 128

inductive BriefTier
  | omitted | titleOnly | l0 | l1 | l2
  deriving DecidableEq

def BriefTier.depth : BriefTier → ℕ
  | omitted => 0
  | titleOnly => 1
  | l0 => 2
  | l1 => 3
  | l2 => 4

structure PageCosts where
  /-- deepened before every other page -/
  privileged : Bool
  titleOnly : ℕ
  /-- costs at L0, L1 and L2, when the page has an excerpt -/
  tiers : Option (ℕ × ℕ × ℕ)

namespace PageCosts

def cost (page : PageCosts) (tier : BriefTier) : ℕ :=
  match tier, page.tiers with
  | .omitted, _ => 0
  | .l0, some (l0, _, _) => l0
  | .l1, some (_, l1, _) => l1
  | .l2, some (_, _, l2) => l2
  | _, _ => page.titleOnly

def l1Adds (page : PageCosts) : Bool :=
  match page.tiers with
  | some (l0, l1, _) => l0 < l1
  | none => false

def coverTier (page : PageCosts) : BriefTier :=
  match page.tiers with
  | some (l0, _, l2) => if l2 < l0 then .l2 else .l0
  | none => .titleOnly

def deepens (page : PageCosts) (current target : BriefTier) : Bool :=
  page.tiers.isSome && current ≠ .titleOnly && current.depth < target.depth

def delta (page : PageCosts) (current target : BriefTier) : Option ℕ :=
  if page.deepens current target && page.cost current < page.cost target then
    some (page.cost target - page.cost current)
  else none

def saving (page : PageCosts) (current target : BriefTier) : Option ℕ :=
  if target = .l2 && page.deepens current target && page.cost target < page.cost current then
    some (page.cost current - page.cost target)
  else none

end PageCosts

structure BriefBudget where
  /-- spent before the first page -/
  prefixLen : ℕ
  contentCeiling : ℕ
  /-- the recent-pages section at full length -/
  recentFull : ℕ
  /-- the shortest recent-pages section that shows anything -/
  recentFirst : ℕ

structure BriefPlan where
  tiers : List BriefTier
  omittedFrom : ℕ
  recentReserve : ℕ

/-! ### Assignment -/

/-- Recent titles get a quarter of what is left, but never less than one line. -/
def recentShare (budget : BriefBudget) (left : ℕ) : ℕ :=
  min budget.recentFull (max (left / 4) budget.recentFirst)

/-- Addition of a `usize` in a release build; a debug build panics where it wraps. -/
def usizeAdd (a b : ℕ) : ℕ := (a + b) % 2 ^ 64

/-- The count of omitted pages is reserved before coverage starts. -/
def omittedFloor (pages : List PageCosts) (countOnly : ℕ → ℕ) : ℕ :=
  if pages = [] then 0 else countOnly pages.length

def coverageCeiling (pages : List PageCosts) (budget : BriefBudget) (countOnly : ℕ → ℕ) : ℕ :=
  budget.contentCeiling - usizeAdd (recentShare budget (budget.contentCeiling - budget.prefixLen))
    (omittedFloor pages countOnly)

def cover (ceiling : ℕ) : ℕ → List PageCosts → List BriefTier × ℕ
  | spent, [] => ([], spent)
  | spent, page :: rest =>
    let total := usizeAdd spent (page.cost page.coverTier)
    if ceiling < total then ([], spent)
    else
      let covered := cover ceiling total rest
      (page.coverTier :: covered.1, covered.2)

/-- No sum on the way to the covered pages wraps. -/
structure NoWrap (pages : List PageCosts) (budget : BriefBudget) (countOnly : ℕ → ℕ) : Prop where
  reserve : recentShare budget (budget.contentCeiling - budget.prefixLen) +
    omittedFloor pages countOnly < 2 ^ 64
  page : ∀ page ∈ pages,
    max budget.contentCeiling budget.prefixLen + page.cost page.coverTier < 2 ^ 64

def promoteOne (pages : List PageCosts) (target : BriefTier) (maxDelta : ℕ)
    (state : List BriefTier × ℕ) (idx : ℕ) : List BriefTier × ℕ :=
  match pages[idx]?, state.1[idx]? with
  | some page, some current =>
    match page.saving current target with
    | some s => (state.1.set idx target, state.2 + s)
    | none =>
      match page.delta current target with
      | some d => if d ≤ min state.2 maxDelta then (state.1.set idx target, state.2 - d) else state
      | none => state
  | _, _ => state

def promote (pages : List PageCosts) (target : BriefTier) (maxDelta : ℕ) (order : List ℕ)
    (state : List BriefTier × ℕ) : List BriefTier × ℕ :=
  order.foldl (promoteOne pages target maxDelta) state

def usizeMax : ℕ := 2 ^ 64 - 1

/-- `Option` keys are ordered with `None` first. -/
def keyLe (a b : Option ℕ × ℕ) : Bool :=
  match a.1, b.1 with
  | none, none => a.2 ≤ b.2
  | none, some _ => true
  | some _, none => false
  | some x, some y => x < y || (x = y && a.2 ≤ b.2)

def everyPageAtL1 (pages : List PageCosts) (omittedFrom : ℕ) (tiers : List BriefTier) : Bool :=
  ((pages.take omittedFrom).zip tiers).all fun entry =>
    BriefTier.l1.depth ≤ entry.2.depth || !entry.1.l1Adds

def coveredPages (pages : List PageCosts) (omittedFrom : ℕ) (privileged : Bool) : List ℕ :=
  (List.range omittedFrom).filter fun idx => pages[idx]?.any fun page => page.privileged = privileged

def deepen (pages : List PageCosts) (omittedFrom : ℕ) (state : List BriefTier × ℕ) :
    List BriefTier × ℕ :=
  let privileged := coveredPages pages omittedFrom true
  let unprivileged := coveredPages pages omittedFrom false
  let state := promote pages .l1 usizeMax privileged state
  let state := promote pages .l2 usizeMax privileged state
  let state := promote pages .l1 usizeMax unprivileged state
  let state := promote pages .l2 shortBodySlack unprivileged state
  if everyPageAtL1 pages omittedFrom state.1 then
    let key := fun idx =>
      ((pages[idx]?.bind fun page => state.1[idx]?.bind fun tier => page.delta tier .l2), idx)
    promote pages .l2 usizeMax (unprivileged.mergeSort fun a b => keyLe (key a) (key b)) state
  else state

def assignTiers (pages : List PageCosts) (budget : BriefBudget) (omittedFull countOnly : ℕ → ℕ) :
    BriefPlan :=
  let covered := cover (coverageCeiling pages budget countOnly) budget.prefixLen pages
  let omittedFrom := covered.1.length
  let remaining := budget.contentCeiling - covered.2
  let omittedReserve :=
    if omittedFrom = pages.length then 0
    else min (max (min (omittedFull omittedFrom) (remaining / 4))
      (countOnly (pages.length - omittedFrom))) remaining
  let afterOmitted := remaining - omittedReserve
  let recentReserve := min (recentShare budget afterOmitted) afterOmitted
  let room := remaining - (omittedReserve + recentReserve)
  let tiers := covered.1 ++ List.replicate (pages.length - omittedFrom) .omitted
  ⟨(deepen pages omittedFrom (tiers, room)).1, omittedFrom, recentReserve⟩

def spentOn (pages : List PageCosts) (tiers : List BriefTier) : ℕ :=
  (List.zipWith PageCosts.cost pages tiers).sum

lemma cover_cons {ceiling spent : ℕ} {page : PageCosts} (rest : List PageCosts)
    (h : spent + page.cost page.coverTier < 2 ^ 64) :
    cover ceiling spent (page :: rest) =
      if ceiling < spent + page.cost page.coverTier then ([], spent)
      else (page.coverTier :: (cover ceiling (spent + page.cost page.coverTier) rest).1,
        (cover ceiling (spent + page.cost page.coverTier) rest).2) := by
  rw [cover, usizeAdd, Nat.mod_eq_of_lt h]

lemma cover_spec {ceiling limit spent : ℕ} {pages : List PageCosts} (hceiling : ceiling ≤ limit)
    (hspent : spent ≤ limit) (hfit : ∀ page ∈ pages, limit + page.cost page.coverTier < 2 ^ 64) :
    let covered := cover ceiling spent pages
    (∃ rest, covered.1 ++ rest = pages.map PageCosts.coverTier) ∧
      covered.2 = spent + spentOn pages covered.1 ∧ (covered.2 = spent ∨ covered.2 ≤ ceiling) := by
  induction pages generalizing spent with
  | nil => exact ⟨⟨[], rfl⟩, rfl, .inl rfl⟩
  | cons page rest ih =>
    have hcost := hfit page mem_cons_self
    rw [cover_cons rest (by omega)]
    by_cases hstop : ceiling < spent + page.cost page.coverTier
    · rw [if_pos hstop]
      exact ⟨⟨_, rfl⟩, rfl, .inl rfl⟩
    · rw [if_neg hstop]
      obtain ⟨⟨more, hmore⟩, htotal, hbound⟩ := @ih (spent + page.cost page.coverTier)
        (by omega) fun page hpage => hfit page (mem_cons_of_mem _ hpage)
      refine ⟨⟨more, by rw [cons_append, hmore]; rfl⟩, ?_, .inr ?_⟩
      · change _ = spent + spentOn (page :: rest) (page.coverTier :: _)
        rw [htotal, spentOn, spentOn, zipWith_cons_cons, sum_cons]
        omega
      · change (cover ceiling (spent + page.cost page.coverTier) rest).2 ≤ ceiling
        omega

lemma cover_mono {ceiling ceiling' limit spent : ℕ} (h : ceiling ≤ ceiling')
    (hceiling : ceiling' ≤ limit) (hspent : spent ≤ limit) {pages : List PageCosts}
    (hfit : ∀ page ∈ pages, limit + page.cost page.coverTier < 2 ^ 64) :
    (cover ceiling spent pages).1.length ≤ (cover ceiling' spent pages).1.length := by
  induction pages generalizing spent with
  | nil => exact Nat.le_refl _
  | cons page rest ih =>
    have hcost := hfit page mem_cons_self
    rw [cover_cons rest (by omega), cover_cons rest (by omega)]
    by_cases hstop : ceiling < spent + page.cost page.coverTier
    · rw [if_pos hstop]
      exact Nat.zero_le _
    · have hgo : ¬ceiling' < spent + page.cost page.coverTier := by omega
      rw [if_neg hstop, if_neg hgo, length_cons, length_cons]
      exact Nat.succ_le_succ (ih (by omega) fun page hpage => hfit page (mem_cons_of_mem _ hpage))

lemma coverageCeiling_mono {pages : List PageCosts} {countOnly : ℕ → ℕ}
    {budget wider : BriefBudget} ( hprefix : wider.prefixLen = budget.prefixLen)
    (hfull : wider.recentFull = budget.recentFull) (hfirst : wider.recentFirst = budget.recentFirst)
    (h : budget.contentCeiling ≤ wider.contentCeiling) (hwrap : NoWrap pages wider countOnly) :
    coverageCeiling pages budget countOnly ≤ coverageCeiling pages wider countOnly := by
  have hreserve := hwrap.reserve
  unfold coverageCeiling recentShare usizeAdd
  unfold recentShare at hreserve
  rw [ hprefix, hfull, hfirst] at hreserve ⊢
  -- a quarter of the difference at most goes to the recent titles
  generalize omittedFloor pages countOnly = count at hreserve ⊢
  rw [Nat.mod_eq_of_lt hreserve, Nat.mod_eq_of_lt (by omega)]
  omega

/-! ### One pass -/

section
variable {pages : List PageCosts} {target : BriefTier} {maxDelta : ℕ}

structure Deepens (page : PageCosts) (current target : BriefTier) (maxDelta : ℕ) : Prop where
  excerpt : page.tiers ≠ none
  shown : current ≠ .titleOnly
  depth : current.depth < target.depth
  cheap : target = .l2 ∧ page.cost target < page.cost current ∨
    page.cost target ≤ page.cost current + maxDelta

variable {current : BriefTier} {page : PageCosts}

lemma deepens_inv (h : page.deepens current target) :
    page.tiers ≠ none ∧ current ≠ .titleOnly ∧ current.depth < target.depth := by
  rw [PageCosts.deepens, Bool.and_eq_true, Bool.and_eq_true] at h
  obtain ⟨⟨hsome, hcurrent⟩, hdepth⟩ := h
  refine ⟨fun hnone => ?_, of_decide_eq_true hcurrent, of_decide_eq_true hdepth⟩
  rw [hnone] at hsome
  cases hsome

lemma saving_inv (maxDelta : ℕ) {s : ℕ} (h : page.saving current target = some s) :
    Deepens page current target maxDelta ∧ s + page.cost target = page.cost current := by
  unfold PageCosts.saving at h
  split at h
  · rename_i hcond
    rw [Bool.and_eq_true, Bool.and_eq_true] at hcond
    obtain ⟨⟨htarget, hdeepens⟩, hless⟩ := hcond
    have hless := of_decide_eq_true hless
    obtain ⟨hexcerpt, hcurrent, hdepth⟩ := deepens_inv hdeepens
    cases h
    exact ⟨⟨hexcerpt, hcurrent, hdepth, .inl ⟨of_decide_eq_true htarget, hless⟩⟩, by omega⟩
  · cases h

lemma delta_inv {d : ℕ} (h : page.delta current target = some d) (hd : d ≤ maxDelta) :
    Deepens page current target maxDelta ∧ page.cost target = page.cost current + d := by
  unfold PageCosts.delta at h
  split at h
  · rename_i hcond
    rw [Bool.and_eq_true] at hcond
    obtain ⟨hexcerpt, hcurrent, hdepth⟩ := deepens_inv hcond.1
    have hless := of_decide_eq_true hcond.2
    cases h
    exact ⟨⟨hexcerpt, hcurrent, hdepth, .inr (by omega)⟩, by omega⟩
  · cases h

variable (state : List BriefTier × ℕ)

lemma promoteOne_cases (idx : ℕ) :
    promoteOne pages target maxDelta state idx = state ∨
      ∃ page current room, pages[idx]? = some page ∧ state.1[idx]? = some current ∧
        Deepens page current target maxDelta ∧
        promoteOne pages target maxDelta state idx = (state.1.set idx target, room) ∧
        room + page.cost target = state.2 + page.cost current := by
  unfold promoteOne
  cases hpage : pages[idx]? with
  | none => exact .inl rfl
  | some page =>
    cases hcurrent : state.1[idx]? with
    | none => exact .inl rfl
    | some current =>
      cases hsaving : page.saving current target with
      | some s =>
        obtain ⟨hdeepens, hcost⟩ := saving_inv maxDelta hsaving
        exact .inr ⟨page, current, state.2 + s, rfl, rfl, hdeepens, by simp [hsaving], by omega⟩
      | none =>
        cases hdelta : page.delta current target with
        | none => exact .inl (by simp [hsaving, hdelta])
        | some d =>
          by_cases hroom : d ≤ min state.2 maxDelta
          · obtain ⟨hdeepens, hcost⟩ := delta_inv hdelta (hroom.trans (min_le_right ..))
            have hle : d ≤ state.2 := hroom.trans (min_le_left ..)
            refine .inr ⟨page, current, state.2 - d, rfl, rfl, hdeepens, ?_, by omega⟩
            simp only [hsaving, hdelta, if_pos hroom]
          · left
            simp only [hsaving, hdelta, if_neg hroom]

lemma spentOn_set (target : BriefTier) {tiers : List BriefTier} {idx : ℕ}
    (hpage : pages[idx]? = some page) (hcurrent : tiers[idx]? = some current) :
    spentOn pages (tiers.set idx target) + page.cost current =
      spentOn pages tiers + page.cost target := by
  induction pages generalizing tiers idx with
  | nil => cases hpage
  | cons first pages ih =>
    cases tiers with
    | nil => cases hcurrent
    | cons tier tiers =>
      cases idx with
      | zero =>
        cases hpage
        cases hcurrent
        simp only [spentOn, set_cons_zero, zipWith_cons_cons, sum_cons]
        omega
      | succ idx =>
        have hrest := ih hpage hcurrent
        simp only [spentOn, set_cons_succ, zipWith_cons_cons, sum_cons] at hrest ⊢
        omega

structure Pass (pages : List PageCosts) (target : BriefTier) (maxDelta : ℕ) (order : List ℕ)
    (before after : List BriefTier × ℕ) : Prop where
  length : after.1.length = before.1.length
  account : spentOn pages after.1 + after.2 = spentOn pages before.1 + before.2
  changes : ∀ i, after.1[i]? = before.1[i]? ∨ i ∈ order ∧ ∃ page current,
    pages[i]? = some page ∧ before.1[i]? = some current ∧ Deepens page current target maxDelta ∧
      after.1[i]? = some target
  saves : ∀ i ∈ order, ∀ page current s, pages[i]? = some page → before.1[i]? = some current →
    page.saving current target = some s → after.1[i]? = some target

lemma promoteOne_saving {state : List BriefTier × ℕ} {idx : ℕ}
    {s : ℕ} (hpage : pages[idx]? = some page)
    (hcurrent : state.1[idx]? = some current) (hsaving : page.saving current target = some s) :
    (promoteOne pages target maxDelta state idx).1[idx]? = some target := by
  have hlt : idx < state.1.length := (List.getElem?_eq_some_iff.mp hcurrent).1
  have hset : promoteOne pages target maxDelta state idx = (state.1.set idx target, state.2 + s) := by
    simp only [promoteOne, hpage, hcurrent, hsaving]
  rw [hset]
  exact getElem?_set_self hlt

lemma promoteOne_pass (idx : ℕ) :
    Pass pages target maxDelta [idx] state (promoteOne pages target maxDelta state idx) := by
  have hsaves : ∀ i ∈ [idx], ∀ page current s, pages[i]? = some page →
      state.1[i]? = some current → page.saving current target = some s →
        (promoteOne pages target maxDelta state idx).1[i]? = some target := by
    intro i hi page current s hpage hcurrent hsaving
    obtain rfl := mem_singleton.mp hi
    exact promoteOne_saving hpage hcurrent hsaving
  rcases promoteOne_cases state idx with hsame | ⟨page, current, room, hpage, hcurrent, hdeepens, hset, hroom⟩
  · refine ⟨by rw [hsame], by rw [hsame], fun i => .inl (by rw [hsame]), hsaves⟩
  · have hlt : idx < state.1.length := (List.getElem?_eq_some_iff.mp hcurrent).1
    refine ⟨by rw [hset, length_set], ?_, fun i => ?_, hsaves⟩
    · have hspent := spentOn_set target hpage hcurrent
      rw [hset]
      dsimp only
      omega
    · rw [hset]
      by_cases hi : idx = i
      · subst hi
        exact .inr ⟨mem_singleton.mpr rfl, page, current, hpage, hcurrent, hdeepens,
          getElem?_set_self hlt⟩
      · exact .inl (getElem?_set_ne hi)

lemma Pass.append {first second : List ℕ} {before mid after : List BriefTier × ℕ}
    (h : Pass pages target maxDelta first before mid)
    (h' : Pass pages target maxDelta second mid after) :
    Pass pages target maxDelta (first ++ second) before after := by
  have hkept : ∀ i : ℕ, mid.1[i]? = some target → after.1[i]? = some target := by
    intro i hmid
    rcases h'.changes i with hsame | ⟨-, -, -, -, -, -, hafter⟩
    · rwa [hsame]
    · exact hafter
  refine ⟨h'.length.trans h.length, h'.account.trans h.account, ?_, ?_⟩
  · intro i
    rcases h.changes i with hsame | ⟨hi, page, current, hpage, hcurrent, hdeepens, hmid⟩
    · rcases h'.changes i with hsame' | ⟨hi, page, current, hpage, hcurrent, hdeepens, hafter⟩
      · exact .inl (hsame'.trans hsame)
      · exact .inr ⟨mem_append_right _ hi, page, current, hpage, hsame.symm.trans hcurrent,
          hdeepens, hafter⟩
    · exact .inr ⟨mem_append_left _ hi, page, current, hpage, hcurrent, hdeepens, hkept i hmid⟩
  · intro i hi page current s hpage hcurrent hsaving
    rcases mem_append.mp hi with hi | hi
    · exact hkept i (h.saves i hi page current s hpage hcurrent hsaving)
    · rcases h.changes i with hsame | ⟨-, -, -, -, -, -, hmid⟩
      · exact h'.saves i hi page current s hpage (hsame.trans hcurrent) hsaving
      · exact hkept i hmid

lemma promote_spec (pages : List PageCosts) (target : BriefTier) (maxDelta : ℕ)
    (order : List ℕ) (state : List BriefTier × ℕ) :
    Pass pages target maxDelta order state (promote pages target maxDelta order state) := by
  induction order generalizing state with
  | nil => exact ⟨rfl, rfl, fun _ => .inl rfl, fun _ hmem => nomatch hmem⟩
  | cons idx order ih => exact (promoteOne_pass state idx).append (ih _)

lemma Pass.keeps {order : List ℕ} {before after : List BriefTier × ℕ}
    (h : Pass pages target maxDelta order before after) {P : ℕ → PageCosts → BriefTier → Prop}
    (hkeep : ∀ i ∈ order, ∀ page current, pages[i]? = some page →
      Deepens page current target maxDelta → P i page current → P i page target)
    (hbefore : ∀ (i : ℕ) page tier, pages[i]? = some page → before.1[i]? = some tier → P i page tier) :
    ∀ (i : ℕ) page tier, pages[i]? = some page → after.1[i]? = some tier → P i page tier := by
  intro i page tier hpage htier
  rcases h.changes i with hsame | ⟨hi, page', current, hpage', hcurrent, hdeepens, hafter⟩
  · exact hbefore i page tier hpage (hsame.symm.trans htier)
  · obtain rfl := Option.some.inj (hpage.symm.trans hpage')
    obtain rfl := Option.some.inj (htier.symm.trans hafter)
    exact hkeep i hi page current hpage hdeepens (hbefore i page current hpage hcurrent)

end

/-! ### All passes -/

/-- What a covered page shows: its path when it has no excerpt, else some of its text, and no
short excerpt that costs more than the body. -/
structure Covered (page : PageCosts) (tier : BriefTier) : Prop where
  plain : page.tiers = none → tier = .titleOnly
  excerpt : page.tiers ≠ none → tier = .l0 ∨ tier = .l1 ∨ tier = .l2
  short : tier = .l0 → page.cost .l0 ≤ page.cost .l2

lemma covered_coverTier (page : PageCosts) : Covered page page.coverTier := by
  obtain ⟨privileged, titleOnly, tiers⟩ := page
  cases tiers with
  | none => exact ⟨fun _ => rfl, fun h => absurd rfl h, fun h => (nomatch h)⟩
  | some costs =>
    obtain ⟨l0, l1, l2⟩ := costs
    by_cases hcheap : l2 < l0
    · have htier : PageCosts.coverTier ⟨privileged, titleOnly, some (l0, l1, l2)⟩ = .l2 :=
        if_pos hcheap
      rw [htier]
      exact ⟨fun h => (nomatch h), fun _ => .inr (.inr rfl), fun h => (nomatch h)⟩
    · have htier : PageCosts.coverTier ⟨privileged, titleOnly, some (l0, l1, l2)⟩ = .l0 :=
        if_neg hcheap
      rw [htier]
      exact ⟨fun h => (nomatch h), fun _ => .inl rfl, fun _ => Nat.le_of_not_lt hcheap⟩

lemma Covered.deepened {page : PageCosts} {current target : BriefTier} {maxDelta : ℕ}
    (h : Deepens page current target maxDelta) (htarget : target = .l1 ∨ target = .l2) :
    Covered page target := by
  refine ⟨fun hnone => absurd hnone h.excerpt, fun _ => .inr htarget, ?_⟩
  rintro rfl
  rcases htarget with heq | heq
  · cases heq
  · cases heq

def WithinSlack (page : PageCosts) (tier : BriefTier) : Prop :=
  page.privileged = false → tier = .l2 →
    page.cost .l2 ≤ max (page.cost .l0) (page.cost .l1) + shortBodySlack

def Bounded (page : PageCosts) (tier : BriefTier) : Prop :=
  tier = .l1 → page.cost .l1 ≤ page.cost .l2

lemma withinSlack_coverTier (page : PageCosts) : WithinSlack page page.coverTier := by
  obtain ⟨privileged, titleOnly, tiers⟩ := page
  intro _ htier
  cases tiers with
  | none => cases htier
  | some costs =>
    obtain ⟨l0, l1, l2⟩ := costs
    by_cases hcheap : l2 < l0
    · exact (Nat.le_of_lt hcheap).trans ((le_max_left ..).trans (Nat.le_add_right ..))
    · have hl0 : PageCosts.coverTier ⟨privileged, titleOnly, some (l0, l1, l2)⟩ = .l0 :=
        if_neg hcheap
      rw [hl0] at htier
      cases htier

lemma WithinSlack.deepened {page : PageCosts} {current : BriefTier}
    (h : Deepens page current .l2 shortBodySlack) (hcovered : Covered page current) :
    WithinSlack page .l2 := by
  intro _ _
  have hcost : page.cost current ≤ max (page.cost .l0) (page.cost .l1) := by
    rcases hcovered.excerpt h.excerpt with rfl | rfl | rfl
    · exact le_max_left ..
    · exact le_max_right ..
    · exact absurd h.depth (Nat.lt_irrefl _)
  rcases h.cheap with ⟨-, hless⟩ | hslack
  · omega
  · omega

lemma Pass.bounded {pages : List PageCosts} {maxDelta : ℕ} {order : List ℕ}
    {before after : List BriefTier × ℕ} (h : Pass pages .l2 maxDelta order before after) {i : ℕ}
    (hi : i ∈ order) {page : PageCosts} {tier : BriefTier} (hpage : pages[i]? = some page)
    (htier : after.1[i]? = some tier) (hexcerpt : page.tiers ≠ none) : Bounded page tier := by
  rintro rfl
  by_contra hmore
  rcases h.changes i with hsame | ⟨-, -, -, -, -, -, hafter⟩
  · have hsaving : page.saving .l1 .l2 = some (page.cost .l1 - page.cost .l2) := by
      have hsome : page.tiers.isSome := Option.isSome_iff_ne_none.mpr hexcerpt
      have hdeepens : page.deepens .l1 .l2 := by
        rw [PageCosts.deepens, hsome]
        rfl
      exact if_pos (by rw [hdeepens, decide_eq_true (Nat.lt_of_not_le hmore)]; rfl)
    have hl2 := h.saves i hi page .l1 _ hpage (hsame.symm.trans htier) hsaving
    cases htier.symm.trans hl2
  · cases htier.symm.trans hafter

/-- A page is still at L0 though its L1 would add to that. -/
def Waits (pages : List PageCosts) (tiers : List BriefTier) : Prop :=
  ∃ (i : ℕ) (page : PageCosts), pages[i]? = some page ∧ tiers[i]? = some .l0 ∧ page.l1Adds = true

structure Deepened (pages : List PageCosts) (omittedFrom : ℕ) (before after : List BriefTier × ℕ) :
    Prop where
  length : after.1.length = before.1.length
  account : spentOn pages after.1 + after.2 = spentOn pages before.1 + before.2
  rest : ∀ i, omittedFrom ≤ i → after.1[i]? = before.1[i]?
  shown : ∀ i page tier, i < omittedFrom → pages[i]? = some page → after.1[i]? = some tier →
    Covered page tier ∧ (page.tiers ≠ none → Bounded page tier)
  slack : Waits pages after.1 → ∀ i page tier, i < omittedFrom → pages[i]? = some page →
    after.1[i]? = some tier → WithinSlack page tier

lemma everyPageAtL1_inv {pages : List PageCosts} {omittedFrom : ℕ} {tiers : List BriefTier}
    (h : everyPageAtL1 pages omittedFrom tiers) {i : ℕ} {page : PageCosts} {tier : BriefTier}
    (hi : i < omittedFrom) (hpage : pages[i]? = some page) (htier : tiers[i]? = some tier) :
    BriefTier.l1.depth ≤ tier.depth ∨ page.l1Adds = false := by
  have htake : (pages.take omittedFrom)[i]? = some page := by
    rwa [getElem?_take_of_lt hi]
  have hmem : (page, tier) ∈ (pages.take omittedFrom).zip tiers := by
    refine mem_iff_getElem?.mpr ⟨i, ?_⟩
    rw [getElem?_zip_eq_some]
    exact ⟨htake, htier⟩
  have hentry := all_eq_true.mp h _ hmem
  rcases Bool.or_eq_true_iff.mp hentry with hdepth | hadds
  · exact .inl (of_decide_eq_true hdepth)
  · exact .inr ((Bool.not_eq_true' _).mp hadds)

lemma mem_coveredPages {pages : List PageCosts} {omittedFrom i : ℕ} {privileged : Bool}
    {page : PageCosts} (hpage : pages[i]? = some page) :
    i ∈ coveredPages pages omittedFrom privileged ↔
      i < omittedFrom ∧ page.privileged = privileged := by
  rw [coveredPages, mem_filter, mem_range, hpage]
  simp

lemma lt_of_mem_coveredPages {pages : List PageCosts} {omittedFrom i : ℕ} {privileged : Bool}
    (h : i ∈ coveredPages pages omittedFrom privileged) : i < omittedFrom :=
  mem_range.mp (mem_filter.mp h).1

lemma Pass.rest {pages : List PageCosts} {target : BriefTier} {maxDelta omittedFrom : ℕ}
    {order : List ℕ} {before after : List BriefTier × ℕ}
    (h : Pass pages target maxDelta order before after) (horder : ∀ i ∈ order, i < omittedFrom)
    {i : ℕ} (hi : omittedFrom ≤ i) : after.1[i]? = before.1[i]? := by
  rcases h.changes i with hsame | ⟨hmem, -⟩
  · exact hsame
  · exact absurd (horder i hmem) (Nat.not_lt.mpr hi)

section
variable {pages : List PageCosts} {omittedFrom : ℕ} {before after : List BriefTier × ℕ}

structure Summarised (pages : List PageCosts) (omittedFrom : ℕ) (before after : List BriefTier × ℕ) :
    Prop where
  length : after.1.length = before.1.length
  account : spentOn pages after.1 + after.2 = spentOn pages before.1 + before.2
  rest : ∀ i, omittedFrom ≤ i → after.1[i]? = before.1[i]?
  shown : ∀ (i : ℕ) page tier, pages[i]? = some page → after.1[i]? = some tier →
    i < omittedFrom → Covered page tier ∧ WithinSlack page tier
  bounded : ∀ (i : ℕ) page tier, pages[i]? = some page → after.1[i]? = some tier →
    i < omittedFrom → page.tiers ≠ none → Bounded page tier

lemma summarised (hbefore : ∀ (i : ℕ) page tier, pages[i]? = some page →
    before.1[i]? = some tier → i < omittedFrom → tier = page.coverTier) :
    let privileged := coveredPages pages omittedFrom true
    let unprivileged := coveredPages pages omittedFrom false
    let first := promote pages .l1 usizeMax privileged before
    let second := promote pages .l2 usizeMax privileged first
    let third := promote pages .l1 usizeMax unprivileged second
    Summarised pages omittedFrom before (promote pages .l2 shortBodySlack unprivileged third) := by
  intro privileged unprivileged first second third
  have h₁ : Pass pages .l1 usizeMax privileged before first := promote_spec ..
  have h₂ : Pass pages .l2 usizeMax privileged first second := promote_spec ..
  have h₃ : Pass pages .l1 usizeMax unprivileged second third := promote_spec ..
  have h₄ := promote_spec pages .l2 shortBodySlack unprivileged third
  generalize promote pages .l2 shortBodySlack unprivileged third = fourth at h₄
  have hlt : ∀ b, ∀ i ∈ coveredPages pages omittedFrom b, i < omittedFrom := fun _ _ =>
    lt_of_mem_coveredPages
  -- deepening a privileged page says nothing about unprivileged bodies
  have hprivileged : ∀ {target : BriefTier}, target = .l1 ∨ target = .l2 →
      ∀ i ∈ privileged, ∀ page current, pages[i]? = some page →
        Deepens page current target usizeMax →
          (i < omittedFrom → Covered page current ∧ WithinSlack page current) →
            i < omittedFrom → Covered page target ∧ WithinSlack page target := by
    intro target htarget i hi page current hpage hdeepens _ _
    refine ⟨.deepened hdeepens htarget, fun hno => ?_⟩
    rw [((mem_coveredPages hpage).mp hi).2] at hno
    cases hno
  have hstart : ∀ (i : ℕ) page tier, pages[i]? = some page → before.1[i]? = some tier →
      i < omittedFrom → Covered page tier ∧ WithinSlack page tier := by
    intro i page tier hpage htier hi
    rw [hbefore i page tier hpage htier hi]
    exact ⟨covered_coverTier page, withinSlack_coverTier page⟩
  have hsecond := h₂.keeps (hprivileged (.inr rfl)) (h₁.keeps (hprivileged (.inl rfl)) hstart)
  have hthird := h₃.keeps (fun i _ page current _ hdeepens _ _ =>
    ⟨.deepened hdeepens (.inl rfl), fun _ h => nomatch h⟩) hsecond
  have hfourth := h₄.keeps (fun i _ page current _ hdeepens hcurrent hi =>
    ⟨.deepened hdeepens (.inr rfl), .deepened hdeepens (hcurrent hi).1⟩) hthird
  have hprivilegedBounded : ∀ (i : ℕ) page tier, pages[i]? = some page → fourth.1[i]? = some tier →
      i < omittedFrom → page.privileged → page.tiers ≠ none → Bounded page tier := by
    have hunprivileged : ∀ {target : BriefTier} {maxDelta : ℕ}, ∀ i ∈ unprivileged,
        ∀ page current, pages[i]? = some page → Deepens page current target maxDelta →
          (i < omittedFrom → page.privileged → page.tiers ≠ none → Bounded page current) →
            i < omittedFrom → page.privileged → page.tiers ≠ none → Bounded page target := by
      intro target maxDelta i hi page current hpage _ _ _ hyes
      rw [((mem_coveredPages hpage).mp hi).2] at hyes
      cases hyes
    refine h₄.keeps hunprivileged (h₃.keeps hunprivileged ?_)
    intro i page tier hpage htier hi hyes hexcerpt
    exact h₂.bounded ((mem_coveredPages hpage).mpr ⟨hi, hyes⟩) hpage htier hexcerpt
  refine ⟨?_, ?_, fun i hi => ?_, hfourth, ?_⟩
  · rw [h₄.length, h₃.length, h₂.length, h₁.length]
  · rw [h₄.account, h₃.account, h₂.account, h₁.account]
  · rw [h₄.rest (hlt false) hi, h₃.rest (hlt false) hi, h₂.rest (hlt true) hi, h₁.rest (hlt true) hi]
  · intro i page tier hpage htier hi hexcerpt
    cases hprivileged : page.privileged with
    | true => exact hprivilegedBounded i page tier hpage htier hi hprivileged hexcerpt
    | false => exact h₄.bounded ((mem_coveredPages hpage).mpr ⟨hi, hprivileged⟩) hpage htier hexcerpt

lemma deepen_spec (hbefore : ∀ (i : ℕ) page tier, pages[i]? = some page →
      before.1[i]? = some tier → i < omittedFrom → tier = page.coverTier)
    (homitted : ∀ (i : ℕ) tier, omittedFrom ≤ i → before.1[i]? = some tier → tier = .omitted) :
    Deepened pages omittedFrom before (deepen pages omittedFrom before) := by
  have hfourth := summarised hbefore
  unfold deepen
  dsimp only at hfourth ⊢
  generalize promote pages .l2 shortBodySlack (coveredPages pages omittedFrom false) _ = fourth
    at hfourth ⊢
  split
  · rename_i hall
    generalize horder : (coveredPages pages omittedFrom false).mergeSort _ = order
    have hmem : ∀ i ∈ order, i < omittedFrom := by
      intro i hi
      rw [← horder, mem_mergeSort] at hi
      exact lt_of_mem_coveredPages hi
    have hlast := promote_spec pages .l2 usizeMax order fourth
    generalize promote pages .l2 usizeMax order fourth = after at hlast ⊢
    have hshown := hlast.keeps (P := fun i page tier => i < omittedFrom →
      Covered page tier ∧ (page.tiers ≠ none → Bounded page tier))
      (fun i _ page current _ hdeepens _ _ =>
        ⟨.deepened hdeepens (.inr rfl), fun _ h => nomatch h⟩)
      (fun i page tier hpage htier hi => ⟨(hfourth.shown i page tier hpage htier hi).1,
        hfourth.bounded i page tier hpage htier hi⟩)
    refine ⟨hlast.length.trans hfourth.length, hlast.account.trans hfourth.account,
      fun i hi => (hlast.rest hmem hi).trans (hfourth.rest i hi),
      fun i page tier hi hpage htier => hshown i page tier hpage htier hi, ?_⟩
    -- no page waits once the last pass has run
    rintro ⟨i, page, hpage, htier, hadds⟩
    exfalso
    rcases hlast.changes i with hsame | ⟨-, -, -, -, -, -, hafter⟩
    · have hi : i < omittedFrom := by
        by_contra hover
        have hrest := hfourth.rest i (Nat.le_of_not_lt hover)
        have hnone := homitted i .l0 (Nat.le_of_not_lt hover) (by rw [← hrest, ← hsame, htier])
        cases hnone
      rcases everyPageAtL1_inv hall hi hpage (hsame.symm.trans htier) with hdepth | hno
      · exact absurd hdepth (by decide)
      · rw [hadds] at hno
        cases hno
    · cases htier.symm.trans hafter
  · exact ⟨hfourth.length, hfourth.account, hfourth.rest,
      fun i page tier hi hpage htier => ⟨(hfourth.shown i page tier hpage htier hi).1,
        hfourth.bounded i page tier hpage htier hi⟩,
      fun _ i page tier hi hpage htier => (hfourth.shown i page tier hpage htier hi).2⟩

end

lemma covered_start {pages : List PageCosts} {covered rest : List BriefTier}
    (h : covered ++ rest = pages.map PageCosts.coverTier) :
    let tiers := covered ++ List.replicate (pages.length - covered.length) .omitted
    tiers.length = pages.length ∧ spentOn pages tiers = spentOn pages covered ∧
      (∀ (i : ℕ) page tier, pages[i]? = some page → tiers[i]? = some tier →
        i < covered.length → tier = page.coverTier) ∧
      ∀ (i : ℕ) tier, covered.length ≤ i → tiers[i]? = some tier → tier = .omitted := by
  intro tiers
  have hlength : covered.length ≤ pages.length := by
    have hsum := congrArg List.length h
    rw [length_append, length_map] at hsum
    omega
  refine ⟨?_, ?_, fun i page tier hpage htier hi => ?_, fun i tier hi htier => ?_⟩
  · rw [length_append, length_replicate]
    omega
  · have hnone : ∀ (pages : List PageCosts) n, spentOn pages (List.replicate n .omitted) = 0 := by
      intro pages
      induction pages with
      | nil => exact fun _ => rfl
      | cons page pages ih =>
        intro n
        cases n with
        | zero => rfl
        | succ n =>
          rw [replicate_succ, spentOn, zipWith_cons_cons, sum_cons]
          change page.cost .omitted + spentOn pages (List.replicate n .omitted) = 0
          rw [ih]
          rfl
    -- an omitted page costs nothing
    have happend : ∀ (pages : List PageCosts) (covered : List BriefTier) n,
        spentOn pages (covered ++ List.replicate n .omitted) = spentOn pages covered := by
      intro pages covered n
      induction covered generalizing pages with
      | nil =>
        rw [nil_append, hnone]
        cases pages <;> rfl
      | cons tier covered ih =>
        cases pages with
        | nil => rfl
        | cons page pages =>
          have hrest := ih pages
          simp only [spentOn, cons_append, zipWith_cons_cons, sum_cons] at hrest ⊢
          omega
    exact happend ..
  · have hcovered : covered[i]? = some tier := by
      rwa [getElem?_append_left hi] at htier
    have hmap : (covered ++ rest)[i]? = (pages.map PageCosts.coverTier)[i]? := by rw [h]
    rw [getElem?_append_left hi, getElem?_map, hpage, hcovered] at hmap
    exact Option.some.inj hmap
  · rw [getElem?_append_right hi] at htier
    exact eq_of_mem_replicate (mem_of_getElem? htier)

/-- What a plan owes to the pages and to the budget. -/
structure Lawful (pages : List PageCosts) (budget : BriefBudget) (countOnly : ℕ → ℕ)
    (plan : BriefPlan) : Prop where
  /-- nothing is overspent -/
  within : budget.prefixLen + spentOn pages plan.tiers + plan.recentReserve ≤
    max budget.contentCeiling budget.prefixLen
  length : plan.tiers.length = pages.length
  /-- the omitted pages are a suffix -/
  suffix : ∀ (i : ℕ) tier, plan.tiers[i]? = some tier → (tier = .omitted ↔ plan.omittedFrom ≤ i)
  /-- the count of omitted pages still fits where it could -/
  count : plan.omittedFrom < pages.length →
    budget.prefixLen + plan.recentReserve + countOnly pages.length ≤ budget.contentCeiling →
      budget.prefixLen + spentOn pages plan.tiers + plan.recentReserve +
        countOnly (pages.length - plan.omittedFrom) ≤ budget.contentCeiling
  /-- a page without excerpt is never deepened -/
  plain : ∀ (i : ℕ) page tier, pages[i]? = some page → plan.tiers[i]? = some tier →
    page.tiers = none → tier = .titleOnly ∨ tier = .omitted
  /-- no excerpt costs more than the whole body -/
  excerpt : ∀ (i : ℕ) page tier, pages[i]? = some page → plan.tiers[i]? = some tier →
    page.tiers ≠ none → tier = .l0 ∨ tier = .l1 → page.cost tier ≤ page.cost .l2
  /-- while a page waits, other bodies are whole only within the slack -/
  slack : Waits pages plan.tiers → ∀ (i : ℕ) page, pages[i]? = some page →
    plan.tiers[i]? = some .l2 → page.privileged = false →
      page.cost .l2 ≤ max (page.cost .l0) (page.cost .l1) + shortBodySlack

lemma room_spec {remaining omittedReserve share : ℕ} (h : omittedReserve ≤ remaining) :
    let recentReserve := min share (remaining - omittedReserve)
    omittedReserve + recentReserve + (remaining - (omittedReserve + recentReserve)) = remaining := by
  intro recentReserve
  have hle : recentReserve ≤ remaining - omittedReserve := min_le_right ..
  omega

structure Planned (pages : List PageCosts) (budget : BriefBudget) (countOnly : ℕ → ℕ)
    (plan : BriefPlan) (before after : List BriefTier × ℕ) (reserve : ℕ) : Prop where
  tiers : plan.tiers = after.1
  deepened : Deepened pages plan.omittedFrom before after
  length : before.1.length = pages.length
  start : ∀ (i : ℕ) page tier, pages[i]? = some page → before.1[i]? = some tier →
    i < plan.omittedFrom → tier = page.coverTier
  omitted : ∀ (i : ℕ) tier, plan.omittedFrom ≤ i → before.1[i]? = some tier → tier = .omitted
  covered : spentOn pages before.1 = 0 ∨
    budget.prefixLen + spentOn pages before.1 ≤ coverageCeiling pages budget countOnly
  room : reserve + plan.recentReserve + before.2 =
    budget.contentCeiling - (budget.prefixLen + spentOn pages before.1)
  reserved : plan.omittedFrom < pages.length →
    min (countOnly (pages.length - plan.omittedFrom))
      (budget.contentCeiling - (budget.prefixLen + spentOn pages before.1)) ≤ reserve

lemma assignTiers_planned {pages : List PageCosts} {budget : BriefBudget}
    (omittedFull : ℕ → ℕ) {countOnly : ℕ → ℕ} (hwrap : NoWrap pages budget countOnly) :
    ∃ before after reserve, Planned pages budget countOnly
      (assignTiers pages budget omittedFull countOnly) before after reserve := by
  have hceiling : coverageCeiling pages budget countOnly ≤ budget.contentCeiling := Nat.sub_le ..
  obtain ⟨⟨more, hmore⟩, htotal, hbound⟩ :=
    cover_spec (hceiling.trans (le_max_left ..)) (le_max_right ..) hwrap.page
  obtain ⟨hlength, hspent, hstart, homitted⟩ := covered_start hmore
  let covered := cover (coverageCeiling pages budget countOnly) budget.prefixLen pages
  let remaining := budget.contentCeiling - covered.2
  let reserve := if covered.1.length = pages.length then 0
    else min (max (min (omittedFull covered.1.length) (remaining / 4))
      (countOnly (pages.length - covered.1.length))) remaining
  have hreserve : reserve ≤ remaining := by
    change (if _ then _ else _) ≤ _
    split
    · exact Nat.zero_le _
    · exact min_le_right ..
  have htotal' : covered.2 = budget.prefixLen + spentOn pages (covered.1 ++
      List.replicate (pages.length - covered.1.length) .omitted) := htotal.trans (by rw [hspent])
  refine ⟨(_, _), _, reserve, rfl, deepen_spec hstart homitted, hlength, hstart, homitted, ?_, ?_, ?_⟩
  · rcases hbound with hnone | hle
    · exact .inl (Nat.add_eq_left.mp (htotal'.symm.trans hnone))
    · exact .inr (by rwa [← htotal'])
  · rw [← htotal']
    exact room_spec hreserve
  · intro hless
    rw [← htotal']
    change _ ≤ (if covered.1.length = pages.length then _ else _)
    have hne : ¬covered.1.length = pages.length := Nat.ne_of_lt hless
    rw [if_neg hne]
    exact le_min ((min_le_left ..).trans (le_max_right ..)) (min_le_right ..)

lemma Planned.account {pages : List PageCosts} {budget : BriefBudget} {countOnly : ℕ → ℕ}
    {plan : BriefPlan} {before after : List BriefTier × ℕ} {reserve : ℕ}
    (h : Planned pages budget countOnly plan before after reserve) :
    budget.prefixLen + spentOn pages plan.tiers + plan.recentReserve + reserve ≤
      max budget.contentCeiling budget.prefixLen := by
  have hceiling : coverageCeiling pages budget countOnly ≤ budget.contentCeiling := Nat.sub_le ..
  have hspent := h.deepened.account
  have hroom := h.room
  rw [h.tiers]
  rcases h.covered with hcovered | hcovered
  · omega
  · omega

/-- Where no sum wraps, the assignment is lawful, and a higher ceiling covers no fewer pages. -/
theorem assignTiers_laws (pages : List PageCosts) (budget : BriefBudget)
    (omittedFull countOnly : ℕ → ℕ) (hcount : Monotone countOnly)
    (hwrap : NoWrap pages budget countOnly) :
    Lawful pages budget countOnly (assignTiers pages budget omittedFull countOnly) ∧
      ∀ ceiling, budget.contentCeiling ≤ ceiling →
        NoWrap pages { budget with contentCeiling := ceiling } countOnly →
        (assignTiers pages budget omittedFull countOnly).omittedFrom ≤
          (assignTiers pages { budget with contentCeiling := ceiling } omittedFull
            countOnly).omittedFrom := by
  refine ⟨?_, fun ceiling hceiling hwider => ?_⟩
  · obtain ⟨before, after, reserve, h⟩ := assignTiers_planned omittedFull hwrap
    generalize assignTiers pages budget omittedFull countOnly = plan at h ⊢
    have haccount := h.account
    have hlookup : ∀ (i : ℕ) tier, plan.tiers[i]? = some tier →
        ∃ page, pages[i]? = some page := by
      intro i tier htier
      have hlt := (List.getElem?_eq_some_iff.mp htier).1
      rw [h.tiers, h.deepened.length, h.length] at hlt
      exact ⟨_, getElem?_eq_getElem hlt⟩
    have hrest : ∀ (i : ℕ) tier, plan.omittedFrom ≤ i → plan.tiers[i]? = some tier →
        tier = .omitted := by
      intro i tier hi htier
      rw [h.tiers, h.deepened.rest i hi] at htier
      exact h.omitted i tier hi htier
    have hshown : ∀ (i : ℕ) page tier, i < plan.omittedFrom → pages[i]? = some page →
        plan.tiers[i]? = some tier →
          Covered page tier ∧ (page.tiers ≠ none → Bounded page tier) := by
      rw [h.tiers]
      exact h.deepened.shown
    refine ⟨?_, ?_, fun i tier htier => ?_, fun hless hfits => ?_, ?_, ?_, ?_⟩
    · omega
    · rw [h.tiers, h.deepened.length, h.length]
    · obtain ⟨page, hpage⟩ := hlookup i tier htier
      constructor
      · rintro rfl
        by_contra hi
        have hcovered := (hshown i page .omitted (Nat.lt_of_not_le hi) hpage htier).1
        by_cases hexcerpt : page.tiers = none
        · cases hcovered.plain hexcerpt
        · rcases hcovered.excerpt hexcerpt with heq | heq | heq <;> cases heq
      · exact fun hi => hrest i tier hi htier
    · have hreserved := h.reserved hless
      have hmono : countOnly (pages.length - plan.omittedFrom) ≤ countOnly pages.length :=
        hcount (Nat.sub_le ..)
      -- the count was reserved before coverage started
      have hleft : countOnly (pages.length - plan.omittedFrom) ≤
          budget.contentCeiling - (budget.prefixLen + spentOn pages before.1) := by
        have hne : pages ≠ [] := by
          rintro rfl
          exact absurd hless (Nat.not_lt_zero _)
        rcases h.covered with hcovered | hcovered
        · omega
        · have hreserve := hwrap.reserve
          rw [coverageCeiling, usizeAdd, Nat.mod_eq_of_lt hreserve, omittedFloor, if_neg hne] at hcovered
          omega
      rw [min_eq_left hleft] at hreserved
      omega
    · intro i page tier hpage htier hplain
      by_cases hi : i < plan.omittedFrom
      · exact .inl ((hshown i page tier hi hpage htier).1.plain hplain)
      · exact .inr (hrest i tier (Nat.le_of_not_lt hi) htier)
    · intro i page tier hpage htier hexcerpt hshort
      by_cases hi : i < plan.omittedFrom
      · obtain ⟨hcovered, hbounded⟩ := hshown i page tier hi hpage htier
        rcases hshort with rfl | rfl
        · exact hcovered.short rfl
        · exact hbounded hexcerpt rfl
      · rw [hrest i tier (Nat.le_of_not_lt hi) htier] at hshort
        rcases hshort with heq | heq <;> cases heq
    · intro hwaits i page hpage htier hunprivileged
      by_cases hi : i < plan.omittedFrom
      · rw [h.tiers] at hwaits htier
        exact h.deepened.slack hwaits i page .l2 hi hpage htier hunprivileged rfl
      · cases hrest i .l2 (Nat.le_of_not_lt hi) htier
  · have hmono := @coverageCeiling_mono pages countOnly budget
      { budget with contentCeiling := ceiling } rfl rfl rfl hceiling hwider
    exact cover_mono hmono ((Nat.sub_le ..).trans (le_max_left ..)) (le_max_right ..) hwider.page

def samplePages : List PageCosts :=
  [⟨false, 10, some (30, 40, 900)⟩, ⟨true, 10, some (30, 30, 20)⟩, ⟨false, 10, none⟩]

theorem assignTiers_laws_sample :
    Lawful samplePages ⟨100, 300, 50, 20⟩ (fun _ => 60)
        (assignTiers samplePages ⟨100, 300, 50, 20⟩ (fun listed => 40 + 30 * (3 - listed))
          (fun _ => 60)) ∧
      (assignTiers samplePages ⟨100, 300, 50, 20⟩ (fun listed => 40 + 30 * (3 - listed))
          (fun _ => 60)).omittedFrom ≤
        (assignTiers samplePages ⟨100, 500, 50, 20⟩ (fun listed => 40 + 30 * (3 - listed))
          (fun _ => 60)).omittedFrom := by
  have hlaws := assignTiers_laws samplePages ⟨100, 300, 50, 20⟩ (fun listed => 40 + 30 * (3 - listed))
    (fun _ => 60) monotone_const ⟨by decide, by decide⟩
  exact ⟨hlaws.1, hlaws.2 500 (by decide) ⟨by decide, by decide⟩⟩

/-- A path line so long that the sum wraps is covered although it overspends. -/
theorem wrapped_sum_overspends : ¬ Lawful [⟨false, 2 ^ 64 - 1, none⟩] ⟨100, 1000, 0, 0⟩ (fun _ => 0)
    (assignTiers [⟨false, 2 ^ 64 - 1, none⟩] ⟨100, 1000, 0, 0⟩ (fun _ => 0) fun _ => 0) := by
  intro h
  exact absurd h.within (by decide +kernel)

end Brief
