/-
What `delink_wikilinks` does to the links of a body.

The function means to hit the links that the extraction finds.  It looks for them between
code spans, though, and what it leaves in their place is read again with what stands around.
-/
import AiMemory.Wiki.Labels

open Strings List

namespace Wiki

open Store

section

variable (U : CharTables) (page : PagePath)

def wikilinkKeys (body : Text) : List LinkKey :=
  (proseLines none (lines body)).flatMap (extractWikilinks U page)

def markdownLinkKeys (body : Text) : List LinkKey :=
  (proseLines none (lines body)).flatMap (extractMarkdownLinks page)

end

def Piece.codeText : Piece → Option Text
  | .text _ => none
  | .code chars => some chars

def codeText (body : Text) : List Text :=
  (classify none (lines body)).flatMap fun part =>
    if part.1 then [part.2] else (codePieces part.2).filterMap Piece.codeText

/-! ### The text of a link -/

variable {U : CharTables} {page : PagePath} {delink : Finset LinkKey} {raw line : Text}

lemma targetAndLabel_fst (raw : Text) :
    (targetAndLabel raw).1 = ((splitOnce ['|'] raw).map Prod.fst).getD raw := by
  rw [targetAndLabel]
  cases splitOnce ['|'] raw <;> rfl

lemma exists_trim (s : Text) : ∃ p q, s = p ++ trim s ++ q ∧
    (∀ c ∈ p, isWhitespace c = true) ∧ ∀ c ∈ q, isWhitespace c = true := by
  obtain ⟨q, hq, hall⟩ := trimEndBy_append isWhitespace (s.dropWhile isWhitespace)
  refine ⟨s.takeWhile isWhitespace, q, ?_, fun c hc => of_mem_takeWhile hc, hall⟩
  rw [append_assoc, show trim s ++ q = s.dropWhile isWhitespace from hq.symm,
    takeWhile_append_dropWhile]

lemma linkText_eq (raw : Text) : linkText raw =
    (((targetAndLabel raw).2.map trim).filter (· ≠ [])).getD (trim (targetAndLabel raw).1) := rfl

/-- The text of a link, between blanks and bars. -/
theorem exists_linkText (raw : Text) : ∃ s p q, linkText raw = trim s ∧
    raw = p ++ linkText raw ++ q ∧ p.getLast? ≠ some '\x60' ∧ q.head? ≠ some '\x60' := by
  -- the part of the link that holds the text
  obtain ⟨s, front, back, htext, hraw, hfront, hback⟩ : ∃ s front back : Text,
      linkText raw = trim s ∧ raw = front ++ s ++ back ∧ (∀ c ∈ front.getLast?, c = '|') ∧
      ∀ c ∈ back.head?, c = '|' := by
    rw [linkText_eq, targetAndLabel]
    cases hsplit : splitOnce ['|'] raw with
    | none => exact ⟨raw, [], [], rfl, by simp, by simp, by simp⟩
    | some parts =>
      obtain ⟨target, label⟩ := parts
      obtain ⟨rfl, -⟩ := splitOnce_singleton_eq_some.mp hsplit
      by_cases hlabel : trim label = []
      · exact ⟨target, [], '|' :: label, by simp [hlabel, Option.filter], by simp, by simp, by simp⟩
      · exact ⟨label, target ++ ['|'], [], by simp [hlabel, Option.filter], by simp, by simp, by simp⟩
  obtain ⟨p, q, hs, hp, hq⟩ := exists_trim s
  refine ⟨s, front ++ p, q ++ back, htext, ?_, fun hlast => ?_, fun hhead => ?_⟩
  · conv_lhs => rw [hraw, hs]
    rw [htext]
    simp only [append_assoc]
  · rw [getLast?_append] at hlast
    cases hcase : p.getLast? with
    | none =>
      rw [hcase, Option.none_or] at hlast
      exact absurd (hfront _ hlast) (by decide)
    | some c =>
      rw [hcase, Option.some_or] at hlast
      cases hlast
      exact absurd (hp _ (mem_of_getLast? hcase)) (by decide)
  · rw [head?_append] at hhead
    cases hcase : q.head? with
    | none =>
      rw [hcase, Option.none_or] at hhead
      exact absurd (hback _ hhead) (by decide)
    | some c =>
      rw [hcase, Option.some_or] at hhead
      cases hhead
      exact absurd (hq _ (mem_of_head? hcase)) (by decide)

lemma linkText_subset : ∀ c ∈ linkText raw, c ∈ raw := by
  obtain ⟨-, p, q, -, hraw, -, -⟩ := exists_linkText raw
  intro c hc
  rw [hraw]
  exact mem_append_left _ (mem_append_right _ hc)

lemma runs_linkText (raw : Text) :
    Spans.runs tick (linkText raw) <+ Spans.runs tick (bracketed raw) := by
  obtain ⟨-, p, q, -, hraw, hp, hq⟩ := exists_linkText raw
  have hword : bracketed raw = '[' :: '[' :: p ++ (linkText raw ++ (q ++ [']', ']'])) := by
    conv_lhs => rw [hraw]
    simp [bracketed]
  have hfront : ∀ t, Spans.Apart tick ('[' :: '[' :: p) t := by
    intro t a ha b _ htick
    obtain rfl := of_decide_eq_true htick
    rcases eq_nil_or_concat p with rfl | ⟨init, c, rfl⟩
    · cases ha
    · rw [concat_eq_append, ← cons_append, ← cons_append, getLast?_concat] at ha
      rw [concat_eq_append, getLast?_concat] at hp
      exact (hp ha).elim
  have hback : ∀ t, Spans.Apart tick t (q ++ [']', ']']) := by
    intro t _ _ b hb _ htick
    obtain rfl := of_decide_eq_true htick
    cases q with
    | nil => cases hb
    | cons c q => exact hq hb
  rw [hword, Spans.runs_append (hfront _), Spans.runs_append (hback _)]
  exact (sublist_append_left _ _).trans (sublist_append_right _ _)

lemma getLast?_linkText : (linkText raw).getLast? ≠ some '\r' := by
  obtain ⟨s, -, -, hs, -⟩ := exists_linkText raw
  rw [hs]
  intro hlast
  exact absurd (getLast?_trimBy '\r' hlast) (by decide)

lemma normalizeLinkTarget_nil :
    normalizeLinkTarget (splitScope U []).path page true = none := rfl

lemma linkText_ne_nil (h : delinked U page delink raw) : linkText raw ≠ [] := by
  rw [delinked, Option.any_eq_true_iff_get] at h
  obtain ⟨hsome, -⟩ := h
  rw [linkText_eq]
  cases hcase : ((targetAndLabel raw).2.map trim).filter (· ≠ []) with
  | some text =>
    obtain ⟨-, htext⟩ := Option.filter_eq_some_iff.mp hcase
    exact of_decide_eq_true htext
  | none =>
    intro htarget
    rw [Option.getD_none, targetAndLabel_fst] at htarget
    simp only [wikilinkKey, htarget, normalizeLinkTarget_nil] at hsome
    cases hsome

section

variable (U page delink)

def delinkCutting : Cutting (delinkedLink U page delink) where
  asked := delinked U page delink
  kept raw hasked := by rw [delinkedLink, hasked, if_neg Bool.false_ne_true]

/-- A line whose scan meets each link that is replaced, and in which the texts of these links
neither change the code, nor make or unmake another link. -/
structure Harmless (line : Text) : Prop where
  fence : (CodeFence.step none
    ((lineChunks (delinkCutting U page delink) line).flatMap Chunk.new)).2 = false
  apart : ∀ pre raw new post, lineChunks (delinkCutting U page delink) line =
      pre ++ .link raw new :: post →
    Spans.Apart tick (pre.flatMap Chunk.new) new ∧ Spans.Apart tick new (post.flatMap Chunk.new)
  meets : ∃ mets, Meets (blankedChunks (delinkCutting U page delink) line) mets
  inStep : InStep page ([], false) ([], false) (blankedChunks (delinkCutting U page delink) line)

end

lemma asked_delinkCutting : (delinkCutting U page delink).asked = delinked U page delink := by
  rw [delinkCutting]

lemma link_delinked {new : Text}
    (h : .link raw new ∈ lineChunks (delinkCutting U page delink) line) :
    delinked U page delink raw ∧ new = linkText raw ∧ NoDouble ']' raw ∧
      ∀ c ∈ raw, c ∈ line := by
  obtain ⟨hasked, hnew, hno, hsub⟩ := link_lineChunks h
  rw [asked_delinkCutting] at hasked
  exact ⟨hasked, by rw [hnew, delinkedLink, if_pos hasked], (noDouble_append.mp hno).1, hsub⟩

lemma Harmless.quiet (h : Harmless U page delink line) (hline : '\n' ∉ line) :
    Quiet (delinkCutting U page delink) line where
  ne_nil raw new hlink := by
    obtain ⟨hdelinked, rfl, -, -⟩ := link_delinked hlink
    exact linkText_ne_nil hdelinked
  runs raw new hlink := by
    obtain ⟨-, rfl, -, -⟩ := link_delinked hlink
    exact runs_linkText raw
  apart := h.apart
  newline raw new hlink := by
    obtain ⟨-, rfl, -, hsub⟩ := link_delinked hlink
    exact fun hmem => hline (hsub _ (linkText_subset _ hmem))
  last raw new hlink := by
    obtain ⟨-, rfl, -, -⟩ := link_delinked hlink
    exact getLast?_linkText
  fence := h.fence

/-! ### One line -/

theorem met_delinked {mets : List Met}
    (hmeets : Meets (blankedChunks (delinkCutting U page delink) line) mets) {new : Option Text}
    (hmem : .replaced raw new ∈ mets) : delinked U page delink raw ∧ new = none := by
  obtain ⟨text, hlink, hnew⟩ := hmeets.replaced_mem hmem
  obtain ⟨hdelinked, rfl, hno, -⟩ := link_delinked (link_blankedChunks hlink)
  refine ⟨hdelinked, Option.eq_none_iff_forall_ne_some.mpr fun raw' hraw' => ?_⟩
  -- the text of a link does not hold its end
  have htext := (hnew raw').mpr hraw'
  obtain ⟨-, p, q, -, hraw, -, -⟩ := exists_linkText raw
  rw [hraw, htext] at hno
  exact (not_noDouble_bracketed raw').2
    (noDouble_append.mp (noDouble_append.mp hno).1).2.1

lemma keys_filterMap {mets : List Met}
    (hkept : ∀ raw, .kept raw ∈ mets → delinked U page delink raw = false)
    (hreplaced : ∀ raw new, .replaced raw new ∈ mets →
      delinked U page delink raw ∧ new = none) :
    (mets.filterMap Met.new).flatMap (fun raw => (wikilinkKey U page raw).toList) =
      ((mets.map Met.old).flatMap fun raw => (wikilinkKey U page raw).toList).filter
        (· ∉ delink) := by
  induction mets with
  | nil => rfl
  | cons met mets ih =>
    have hrest := ih (fun raw hmem => hkept raw (mem_cons_of_mem _ hmem))
      fun raw new hmem => hreplaced raw new (mem_cons_of_mem _ hmem)
    rw [map_cons, flatMap_cons, filter_append, ← hrest]
    cases met with
    | kept raw =>
      have hraw := hkept raw mem_cons_self
      rw [delinked] at hraw
      have hnew : Met.new (.kept raw) = some raw := rfl
      rw [filterMap_cons_some hnew, flatMap_cons, Met.old]
      generalize wikilinkKey U page raw = key at hraw ⊢
      cases key with
      | none => rfl
      | some key =>
        have hkey : key ∉ delink := by simpa using hraw
        rw [Option.toList_some, filter_cons_of_pos (by simpa using hkey), filter_nil]
    | replaced raw new =>
      obtain ⟨hraw, rfl⟩ := hreplaced raw new mem_cons_self
      rw [delinked] at hraw
      have hnew : Met.new (.replaced raw none) = none := rfl
      rw [filterMap_cons_none hnew, Met.old]
      generalize wikilinkKey U page raw = key at hraw ⊢
      cases key with
      | none => cases hraw
      | some key => simpa using hraw

lemma seen_delinked {mets : List Met}
    (hmeets : Meets (blankedChunks (delinkCutting U page delink) line) mets) :
    Seen (delinked U page delink) line ↔
      ∀ raw, .kept raw ∈ mets → delinked U page delink raw = false := by
  have hseen := seen_iff hmeets
  rwa [asked_delinkCutting] at hseen

lemma Harmless.wikilinks (h : Harmless U page delink line)
    (hseen : Seen (delinked U page delink) line) (hline : '\n' ∉ line) :
    extractWikilinks U page (blankInlineCode (rewriteLine (delinkedLink U page delink) line)) =
      (extractWikilinks U page (blankInlineCode line)).filter (· ∉ delink) := by
  obtain ⟨mets, hmeets⟩ := h.meets
  rw [← new_blankedChunks (h.quiet hline).toUnticked, extractWikilinks_eq,
    rawLinks_scan hmeets.scan_new, extractWikilinks_eq, hmeets.rawLinks]
  exact keys_filterMap ((seen_delinked hmeets).mp hseen) fun raw new => met_delinked hmeets

lemma Harmless.kept_mem (h : Harmless U page delink line) (hline : '\n' ∉ line)
    {mets : List Met} (hmeets : Meets (blankedChunks (delinkCutting U page delink) line) mets)
    (hmem : .kept raw ∈ mets) {key : LinkKey} (hkey : wikilinkKey U page raw = some key) :
    key ∈ extractWikilinks U page
      (blankInlineCode (rewriteLine (delinkedLink U page delink) line)) := by
  rw [← new_blankedChunks (h.quiet hline).toUnticked, extractWikilinks_eq,
    rawLinks_scan hmeets.scan_new]
  refine mem_flatMap.mpr ⟨raw, ?_, Option.mem_toList.mpr hkey⟩
  exact mem_filterMap.mpr ⟨_, hmem, rfl⟩

lemma Harmless.markdownLinks (h : Harmless U page delink line) (hline : '\n' ∉ line) :
    extractMarkdownLinks page (blankInlineCode (rewriteLine (delinkedLink U page delink) line)) =
      extractMarkdownLinks page (blankInlineCode line) := by
  rw [← new_blankedChunks (h.quiet hline).toUnticked,
    ← old_blankedChunks (K := delinkCutting U page delink)]
  exact h.inStep.labelLinks_eq

lemma Harmless.codeText (h : Harmless U page delink line) (hline : '\n' ∉ line) :
    (codePieces (rewriteLine (delinkedLink U page delink) line)).filterMap Piece.codeText =
      (codePieces line).filterMap Piece.codeText := by
  rw [codePieces_rewriteLine (h.quiet hline).toUnticked, filterMap_map]
  refine filterMap_congr fun piece _ => ?_
  cases piece <;> rfl

lemma Harmless.unchanged (h : Harmless U page delink line)
    (hkeys : ∀ key ∈ extractWikilinks U page (blankInlineCode line), key ∉ delink) :
    rewriteLine (delinkedLink U page delink) line = line := by
  obtain ⟨mets, hmeets⟩ := h.meets
  refine rewriteLine_eq_self (K := delinkCutting U page delink) fun raw new hlink => ?_
  have hraw : raw ∈ mets.filterMap Met.raw := by
    rw [← hmeets.replaced, raws_blankedChunks]
    exact mem_raws.mpr ⟨new, hlink⟩
  obtain ⟨met, hmet, hmetRaw⟩ := mem_filterMap.mp hraw
  cases met with
  | kept raw' => cases hmetRaw
  | replaced raw' new' =>
    cases hmetRaw
    obtain ⟨hdelinked, -⟩ := met_delinked hmeets hmet
    rw [delinked, Option.any_eq_true] at hdelinked
    obtain ⟨key, hkey, hmem⟩ := hdelinked
    refine hkeys key ?_ (of_decide_eq_true hmem)
    rw [extractWikilinks_eq, hmeets.rawLinks]
    exact mem_flatMap.mpr ⟨raw, mem_map.mpr ⟨_, hmet, rfl⟩, Option.mem_toList.mpr hkey⟩

section

variable (U page delink)

/-- The links to the pages of `delink` are gone; the other links and all code are as they were. -/
structure DelinksExactly (body : Text) : Prop where
  wikilinks : wikilinkKeys U page (delinkWikilinks U page body delink) =
    (wikilinkKeys U page body).filter (· ∉ delink)
  others : markdownLinkKeys page (delinkWikilinks U page body delink) = markdownLinkKeys page body
  code : codeText (delinkWikilinks U page body delink) = codeText body
  unchanged : (∀ key ∈ wikilinkKeys U page body, key ∉ delink) →
    delinkWikilinks U page body delink = body

end

lemma flatMap_proseLines {α : Type} (f : Text → List α) (body : Text) :
    (proseLines none (lines body)).flatMap f =
      (proseOf (classify none (lines body))).flatMap fun line => f (blankInlineCode line) := by
  rw [proseLines_eq, flatMap_map]

def linkedPage : PagePath := ⟨"notes/x.md".toList, by decide, by decide⟩

def askedKey : LinkKey := ⟨none, none, "b.md".toList⟩

def plainLine : Text := "See [[a]] and [[b|the text]].".toList

lemma harmless_plainLine : Harmless asciiTables linkedPage {askedKey} plainLine := by
  have hline : lineChunks (delinkCutting asciiTables linkedPage {askedKey}) plainLine =
      "See [[a]] and ".toList.map .char ++
        .link "b|the text".toList "the text".toList :: ".".toList.map .char := by
    decide +kernel
  have hblanked : blankedChunks (delinkCutting asciiTables linkedPage {askedKey}) plainLine =
      lineChunks (delinkCutting asciiTables linkedPage {askedKey}) plainLine := by
    decide +kernel
  constructor
  · rw [hline]
    decide
  · intro pre raw new post hsplit
    rw [hline] at hsplit
    obtain ⟨rfl, -, rfl, rfl⟩ := one_link hsplit
    exact ⟨fun a ha b hb _ => by cases hb; decide, fun a ha b hb _ => by cases hb; decide⟩
  · rw [hblanked, hline]
    have hdot : Meets (".".toList.map .char) [] := .clear (by decide)
    have hasked : Meets (" and ".toList.map .char ++
        .link "b|the text".toList "the text".toList :: ".".toList.map .char)
        [.replaced "b|the text".toList none] :=
      .removed (by decide) (by decide) (by decide) (fun hjoin => absurd hjoin (by decide)) hdot
    have hmeets : Meets (("See ".toList ++ bracketed "a".toList).map .char ++
        (" and ".toList.map .char ++
          .link "b|the text".toList "the text".toList :: ".".toList.map .char))
        [.kept "a".toList, .replaced "b|the text".toList none] :=
      .kept (by decide) (by decide) hasked
    exact ⟨_, hmeets⟩
  · rw [hblanked, hline]
    exact .clear (by decide) (by decide)

end Wiki
