/-
What `rewrite_wikilink_targets` does to the links of a body.

A link of the same project whose path is redirected gets the new path for its target; its
label stays.  The anchor goes with the old target, and a link with code in it is not seen.
-/
import AiMemory.Wiki.Delinked

open Strings List

namespace Wiki

open Store

/-! ### Parts of a link -/

def anchorOf (raw : Text) : Text :=
  (trim (targetAndLabel raw).1).dropWhile fun c => c ≠ '#' && c ≠ '?'

/-- The label of a link, with the `|` before it. -/
def labelPart (raw : Text) : Text := (targetAndLabel raw).2.elim [] ('|' :: ·)

variable (body : Text)

def linksOf : List Text :=
  (proseLines none (lines body)).flatMap rawLinks

variable {U : CharTables} {page : PagePath} {redirects : List (Text × Text)} {raw line : Text}

lemma targetAndLabel_append (raw : Text) : (targetAndLabel raw).1 ++ labelPart raw = raw := by
  rw [labelPart, targetAndLabel]
  cases hsplit : splitOnce ['|'] raw with
  | none => exact append_nil raw
  | some parts =>
    obtain ⟨target, label⟩ := parts
    exact (splitOnce_singleton_eq_some.mp hsplit).1.symm

lemma targetAndLabel_of {target label : Text} (ht : '|' ∉ target)
    (hl : ∀ c ∈ label.head?, c = '|') :
    (targetAndLabel (target ++ label)).1 = target ∧ labelPart (target ++ label) = label := by
  have hfst : (targetAndLabel (target ++ label)).1 = target := by
    rw [targetAndLabel]
    cases label with
    | nil => rw [append_nil, splitOnce_eq_none.mpr ht]
    | cons c label =>
      obtain rfl := hl c rfl
      rw [splitOnce_singleton_eq_some.mpr ⟨rfl, ht⟩]
  refine ⟨hfst, ?_⟩
  have happend := targetAndLabel_append (target ++ label)
  rw [hfst] at happend
  exact append_cancel_left happend

lemma labelPart_head (raw : Text) : ∀ c ∈ (labelPart raw).head?, c = '|' := by
  rw [labelPart]
  cases (targetAndLabel raw).2 with
  | none => exact fun c hc => by cases hc
  | some label => exact fun c hc => (Option.some.inj hc).symm

lemma wikilinkKey_congr {raw raw' : Text} (h : (targetAndLabel raw).1 = (targetAndLabel raw').1) :
    wikilinkKey U page raw = wikilinkKey U page raw' := by
  rw [wikilinkKey, wikilinkKey, ← targetAndLabel_fst, ← targetAndLabel_fst, h]

lemma redirected_of_key {key : LinkKey} (hkey : wikilinkKey U page raw = some key) :
    redirected U page redirects raw =
      if key.workspace = none ∧ key.project = none then List.lookup key.path redirects else none := by
  rw [wikilinkKey, ← targetAndLabel_fst, Option.map_eq_some_iff] at hkey
  obtain ⟨path, hpath, rfl⟩ := hkey
  simp only [redirected, hpath, Option.bind_some]

lemma key_of_redirected {target : Text} (h : redirected U page redirects raw = some target) :
    ∃ path, wikilinkKey U page raw = some ⟨none, none, path⟩ ∧
      List.lookup path redirects = some target := by
  simp only [redirected] at h
  split at h
  · rename_i hscope
    obtain ⟨path, hpath, hlookup⟩ := Option.bind_eq_some_iff.mp h
    refine ⟨path, ?_, hlookup⟩
    rw [wikilinkKey, ← targetAndLabel_fst]
    simp only [hpath, Option.map_some, hscope.1, hscope.2]
  · cases h

lemma mem_of_lookup {path target : Text}
    (h : List.lookup path redirects = some target) : (path, target) ∈ redirects := by
  induction redirects with
  | nil => cases h
  | cons entry redirects ih =>
    obtain ⟨source, goal⟩ := entry
    rw [lookup_cons] at h
    split at h
    · rename_i heq
      cases h
      rw [beq_iff_eq] at heq
      rw [heq]
      exact mem_cons_self
    · exact mem_cons_of_mem _ (ih h)

lemma retarget_eq (target raw : Text) : retarget target raw = bracketed (target ++ labelPart raw) := by
  rw [retarget, bracketed, labelPart]

section

variable (U page redirects)

def isRedirected (raw : Text) : Bool := (redirected U page redirects raw).isSome

def redirectCutting : Cutting (redirectedLink U page redirects) where
  asked := isRedirected U page redirects
  kept raw hasked := by
    rw [redirectedLink]
    cases hredirected : redirected U page redirects raw with
    | none => rfl
    | some target => rw [isRedirected, hredirected] at hasked; cases hasked

/-- A path that a link can name: it is its own key, and neither ends the link nor makes code. -/
structure Nameable (target : Text) : Prop where
  key : wikilinkKey U page target = some ⟨none, none, target⟩
  plain : ∀ c ∈ target, c ∉ ['|', '\x60', '\n', '#', '?']
  closed : NoDouble ']' (target ++ [']'])

/-- A line whose scan meets each link that is replaced, and whose links can name their new
targets; the line does not open a fence with them. -/
structure Clean (line : Text) : Prop where
  names : ∀ raw ∈ rawLinks (blankInlineCode line), ∀ target,
    redirected U page redirects raw = some target → Nameable U page target
  fence : (CodeFence.step none
    ((lineChunks (redirectCutting U page redirects) line).flatMap Chunk.new)).2 = false
  meets : ∃ mets, Meets (blankedChunks (redirectCutting U page redirects) line) mets

/-- No redirected link of a line has an anchor or a query. -/
def Unanchored (line : Text) : Prop :=
  ∀ raw ∈ rawLinks (blankInlineCode line),
    isRedirected U page redirects raw = true → anchorOf raw = []

/-- A link that is not redirected stays; a redirected one has the target, with its own label
and anchor. -/
def Followed (raw raw' : Text) : Prop :=
  match redirected U page redirects raw with
  | none => raw' = raw
  | some target => wikilinkKey U page raw' = some ⟨none, none, target⟩ ∧
      (targetAndLabel raw').2 = (targetAndLabel raw).2 ∧ anchorOf raw' = anchorOf raw

/-- Code, fences and line ends stay; in the text between them, only links are replaced, and
each of these by a link to the new target with the same label. -/
def Retargeted (segment : Bool × Text) (text : Text) : Prop :=
  if segment.1 then text = segment.2
  else ∃ chunks : List Chunk, chunks.flatMap Chunk.old = segment.2 ∧
    chunks.flatMap Chunk.new = text ∧ ∀ raw new, .link raw new ∈ chunks →
      ∃ target, redirected U page redirects raw = some target ∧ new = retarget target raw

/-- The redirects are followed: no link names a source any more, save one that is a target
too; each redirected link leads to its new target; and the other bytes stay. -/
structure RedirectsFollowed (body : Text) : Prop where
  sources : ∀ key ∈ wikilinkKeys U page (rewriteWikilinkTargets U page body redirects),
    key.workspace = none → key.project = none → (List.lookup key.path redirects).isSome = true →
      key.path ∈ redirects.map Prod.snd
  links : List.Forall₂ (Followed U page redirects) (linksOf body)
    (linksOf (rewriteWikilinkTargets U page body redirects))
  bytes : (segments none (splitInclusive body)).flatMap Prod.snd = body ∧
    ∃ texts, texts.flatten = rewriteWikilinkTargets U page body redirects ∧
      List.Forall₂ (Retargeted U page redirects) (segments none (splitInclusive body)) texts

end

lemma flatten_segments :
    (segments none (splitInclusive body)).flatMap Prod.snd = body := by
  conv_rhs => rw [← flatten_splitInclusive body]
  generalize (none : Option CodeFence) = fence
  induction splitInclusive body generalizing fence with
  | nil => rfl
  | cons raw raws ih =>
    have hline : (splitLineTerminator raw).1 = ((codePieces (splitLineTerminator raw).1).map
        Piece.segment).flatMap Prod.snd := by
      conv_lhs => rw [← flatten_codePieces (splitLineTerminator raw).1]
      rw [flatMap_map]
      refine flatMap_congr fun piece _ => ?_
      cases piece <;> rfl
    rw [flatten_cons, segments]
    dsimp only
    rw [flatMap_append, flatMap_cons, ih]
    conv_rhs => rw [← splitLineTerminator_append raw]
    rw [append_assoc]
    refine congrArg (· ++ _) ?_
    split
    · exact append_nil _
    · exact hline.symm

/-! ### One line -/

theorem asked_redirectCutting :
    (redirectCutting U page redirects).asked = isRedirected U page redirects := by
  rw [redirectCutting]

lemma redirectedLink_eq (h : isRedirected U page redirects raw) : ∃ target,
    redirected U page redirects raw = some target ∧
      redirectedLink U page redirects raw = retarget target raw := by
  obtain ⟨target, htarget⟩ := Option.isSome_iff_exists.mp h
  exact ⟨target, htarget, by rw [redirectedLink, htarget]⟩

lemma link_redirected {new : Text}
    (h : .link raw new ∈ lineChunks (redirectCutting U page redirects) line) :
    ∃ target, redirected U page redirects raw = some target ∧
      new = bracketed (target ++ labelPart raw) ∧ NoDouble ']' (raw ++ [']']) ∧
      ∀ c ∈ raw, c ∈ line := by
  obtain ⟨hasked, hnew, hno, hsub⟩ := link_lineChunks h
  rw [asked_redirectCutting] at hasked
  obtain ⟨target, hredirected, hlink⟩ := redirectedLink_eq hasked
  exact ⟨target, hredirected, by rw [hnew, hlink, retarget_eq], hno, hsub⟩

lemma met_redirected {mets : List Met}
    (hmeets : Meets (blankedChunks (redirectCutting U page redirects) line) mets)
    {new : Option Text} (hmem : .replaced raw new ∈ mets) :
    ∃ target, redirected U page redirects raw = some target ∧
      new = some (target ++ labelPart raw) := by
  obtain ⟨text, hlink, hnew⟩ := hmeets.replaced_mem hmem
  obtain ⟨target, hredirected, htext, -, -⟩ := link_redirected (link_blankedChunks hlink)
  exact ⟨target, hredirected, (hnew _).mp htext⟩

lemma Clean.nameable (h : Clean U page redirects line) {new : Text}
    (hlink : .link raw new ∈ lineChunks (redirectCutting U page redirects) line) {target : Text}
    (hredirected : redirected U page redirects raw = some target) : Nameable U page target := by
  obtain ⟨mets, hmeets⟩ := h.meets
  refine h.names raw ?_ target hredirected
  have hraw : raw ∈ mets.filterMap Met.raw := by
    rw [← hmeets.replaced, raws_blankedChunks]
    exact mem_raws.mpr ⟨new, hlink⟩
  obtain ⟨met, hmet, hmetRaw⟩ := mem_filterMap.mp hraw
  rw [hmeets.rawLinks]
  cases met with
  | kept raw' => cases hmetRaw
  | replaced raw' new' =>
    cases hmetRaw
    exact mem_map.mpr ⟨_, hmet, rfl⟩

lemma runs_bracketed (target : Text) {label : Text} (hl : ∀ c ∈ label.head?, c = '|') :
    Spans.runs tick (bracketed (target ++ label)) =
      Spans.runs tick ('[' :: '[' :: target) ++ Spans.runs tick (label ++ [']', ']']) := by
  have hword : bracketed (target ++ label) = '[' :: '[' :: target ++ (label ++ [']', ']']) := by
    simp [bracketed]
  rw [hword, Spans.runs_append]
  intro _ _ b hb _ htick
  obtain rfl := of_decide_eq_true htick
  cases label with
  | nil => cases hb
  | cons c label => cases hl _ hb

lemma Clean.quiet (h : Clean U page redirects line) (hline : '\n' ∉ line) :
    Quiet (redirectCutting U page redirects) line where
  ne_nil raw new hlink := by
    obtain ⟨target, -, rfl, -, -⟩ := link_redirected hlink
    exact cons_ne_nil _ _
  runs raw new hlink := by
    obtain ⟨target, hredirected, rfl, -, -⟩ := link_redirected hlink
    have hname := h.nameable hlink hredirected
    have hnil : Spans.runs tick ('[' :: '[' :: target) = [] := by
      refine Spans.runs_eq_nil fun c hc htick => ?_
      obtain rfl := of_decide_eq_true htick
      exact hname.plain '\x60' (by simpa using hc) (by simp)
    rw [runs_bracketed target (labelPart_head raw), hnil, nil_append]
    conv_rhs => rw [← targetAndLabel_append raw, runs_bracketed _ (labelPart_head raw)]
    exact sublist_append_right _ _
  apart pre raw new post hsplit := by
    obtain ⟨target, -, rfl, -, -⟩ := link_redirected
      (show .link raw new ∈ lineChunks (redirectCutting U page redirects) line by
        rw [hsplit]; simp)
    exact ⟨(apart_bracketed _ _ []).1, (apart_bracketed [] _ _).2⟩
  newline raw new hlink := by
    obtain ⟨target, hredirected, rfl, -, hsub⟩ := link_redirected hlink
    have hname := h.nameable hlink hredirected
    have htarget : '\n' ∉ target := fun hmem => hname.plain '\n' hmem (by simp)
    have hlabel : '\n' ∉ labelPart raw := fun hmem => hline (hsub _ (by
      rw [← targetAndLabel_append raw]
      exact mem_append_right _ hmem))
    simp [bracketed, htarget, hlabel]
  last raw new hlink := by
    obtain ⟨target, -, rfl, -, -⟩ := link_redirected hlink
    rw [bracketed, ← cons_append, ← cons_append, getLast?_append_of_ne_nil _ (cons_ne_nil _ _)]
    decide
  fence := h.fence

def Met.after (met : Met) : Text := met.new.getD met.old

lemma Clean.rawLinks (h : Clean U page redirects line) (hline : '\n' ∉ line) {mets : List Met}
    (hmeets : Meets (blankedChunks (redirectCutting U page redirects) line) mets) :
    Wiki.rawLinks (blankInlineCode (rewriteLine (redirectedLink U page redirects) line)) =
      mets.map Met.after := by
  rw [← new_blankedChunks (h.quiet hline).toUnticked, rawLinks_scan hmeets.scan_new]
  have hall := fun raw new (hmem : Met.replaced raw new ∈ mets) => met_redirected hmeets hmem
  clear hmeets
  induction mets with
  | nil => rfl
  | cons met mets ih =>
    have hrest := ih fun raw new hmem => hall raw new (mem_cons_of_mem _ hmem)
    cases met with
    | kept raw => exact congrArg (raw :: ·) hrest
    | replaced raw new =>
      obtain ⟨target, -, rfl⟩ := hall raw new mem_cons_self
      exact congrArg ((target ++ labelPart raw) :: ·) hrest

lemma seen_redirected {mets : List Met}
    (hmeets : Meets (blankedChunks (redirectCutting U page redirects) line) mets) :
    Seen (isRedirected U page redirects) line ↔
      ∀ raw, .kept raw ∈ mets → redirected U page redirects raw = none := by
  have hseen := seen_iff hmeets
  rw [asked_redirectCutting] at hseen
  rw [hseen]
  exact forall₂_congr fun raw _ => Option.isSome_eq_false_iff.trans Option.isNone_iff_eq_none

/-! ### The body -/

theorem exists_mets {prose : List Text}
    (h : ∀ line ∈ prose, Clean U page redirects line ∧ '\n' ∉ line) : ∃ mets : List Met,
      prose.flatMap (fun line => rawLinks (blankInlineCode line)) = mets.map Met.old ∧
      prose.flatMap (fun line => rawLinks
        (blankInlineCode (rewriteLine (redirectedLink U page redirects) line))) =
          mets.map Met.after ∧
      (∀ met ∈ mets, (∃ raw, met = .kept raw) ∨ ∃ raw target,
        redirected U page redirects raw = some target ∧ Nameable U page target ∧
          met = .replaced raw (some (target ++ labelPart raw))) ∧
      ((∀ line ∈ prose, Seen (isRedirected U page redirects) line) ↔
        ∀ raw, .kept raw ∈ mets → redirected U page redirects raw = none) := by
  induction prose with
  | nil => exact ⟨[], rfl, rfl, by simp, by simp⟩
  | cons line prose ih =>
    obtain ⟨⟨hclean, hline⟩, hprose⟩ := forall_mem_cons.mp h
    obtain ⟨mets, hold, hafter, hmets, hseen⟩ := ih hprose
    obtain ⟨first, hmeets⟩ := hclean.meets
    refine ⟨first ++ mets, ?_, ?_, ?_, ?_⟩
    · rw [flatMap_cons, hold, hmeets.rawLinks, map_append]
    · rw [flatMap_cons, hafter, hclean.rawLinks hline hmeets, map_append]
    · refine forall_mem_append.mpr ⟨fun met hmet => ?_, hmets⟩
      cases met with
      | kept raw => exact .inl ⟨raw, rfl⟩
      | replaced raw new =>
        obtain ⟨target, hredirected, rfl⟩ := met_redirected hmeets hmet
        refine .inr ⟨raw, target, hredirected, hclean.names raw ?_ target hredirected, rfl⟩
        rw [hmeets.rawLinks]
        exact mem_map.mpr ⟨_, hmet, rfl⟩
    · rw [forall_mem_cons, hseen, seen_redirected hmeets]
      constructor
      · rintro ⟨hfirst, hrest⟩ raw hraw
        exact (mem_append.mp hraw).elim (hfirst raw) (hrest raw)
      · exact fun hall => ⟨fun raw hraw => hall raw (mem_append_left _ hraw),
          fun raw hraw => hall raw (mem_append_right _ hraw)⟩

lemma anchorOf_nameable {target label : Text} (h : Nameable U page target)
    (hl : ∀ c ∈ label.head?, c = '|') : anchorOf (target ++ label) = [] := by
  have hbar : '|' ∉ target := fun hmem => h.plain '|' hmem (by simp)
  rw [anchorOf, (targetAndLabel_of hbar hl).1, ← append_nil (trim target),
    dropWhile_append_of_pos, dropWhile_nil]
  intro c hc
  have hmem := h.plain c (mem_of_mem_trimBy hc)
  have hmem₁ : c ≠ '#' := by rintro rfl; exact hmem (by simp)
  have hmem₂ : c ≠ '?' := by rintro rfl; exact hmem (by simp)
  simp [hmem₁, hmem₂]

lemma key_moved {target : Text} (h : Nameable U page target) (raw : Text) :
    wikilinkKey U page (target ++ labelPart raw) = some ⟨none, none, target⟩ ∧
      (targetAndLabel (target ++ labelPart raw)).2 = (targetAndLabel raw).2 := by
  have hbar : '|' ∉ target := fun hmem => h.plain '|' hmem (by simp)
  obtain ⟨hfst, hrest⟩ := targetAndLabel_of hbar (labelPart_head raw)
  constructor
  · rw [← h.key]
    refine wikilinkKey_congr (hfst.trans ?_)
    have hself : (targetAndLabel (target ++ [])).1 = target :=
      (targetAndLabel_of hbar fun c hc => by cases hc).1
    rwa [append_nil, eq_comm] at hself
  · revert hrest
    rw [labelPart, labelPart]
    cases (targetAndLabel (target ++ (targetAndLabel raw).2.elim [] ('|' :: ·))).2 <;>
      cases (targetAndLabel raw).2 <;> simp

lemma wikilinkKeys_eq : wikilinkKeys U page body =
    (linksOf body).flatMap fun raw => (wikilinkKey U page raw).toList := by
  rw [wikilinkKeys, linksOf, flatMap_assoc]
  exact flatMap_congr fun line _ => extractWikilinks_eq U page line

lemma rewriteWikilinkTargets_eq :
    rewriteWikilinkTargets U page body redirects =
      rewriteBody (redirectedLink U page redirects) body := by
  rw [rewriteWikilinkTargets]
  split
  · rename_i hnil
    subst hnil
    refine (rewriteBody_eq_self fun line _ => ?_).symm
    refine rewriteLine_eq_self (K := redirectCutting U page []) fun raw new hlink => ?_
    obtain ⟨target, hredirected, -⟩ := link_redirected hlink
    obtain ⟨path, -, hlookup⟩ := key_of_redirected hredirected
    cases hlookup
  · rfl

lemma exists_retargeted : ∃ texts,
    texts.flatten = rewriteWikilinkTargets U page body redirects ∧
      List.Forall₂ (Retargeted U page redirects) (segments none (splitInclusive body)) texts := by
  let out := redirectedLink U page redirects
  refine ⟨(segments none (splitInclusive body)).map fun segment =>
    if segment.1 then segment.2 else rewriteSegment out segment.2, ?_, ?_⟩
  · rw [rewriteWikilinkTargets_eq, rewriteBody, rewriteLines_eq]
    rfl
  · rw [forall₂_map_right_iff, forall₂_same]
    intro segment _
    rw [Retargeted]
    split
    · rfl
    · refine ⟨segmentChunks (redirectCutting U page redirects) segment.2, old_segmentChunks _,
        new_segmentChunks _, fun raw new hlink => ?_⟩
      obtain ⟨hasked, hnew, -, -⟩ := link_segmentChunksFor hlink
      rw [asked_redirectCutting] at hasked
      obtain ⟨target, hredirected, hretarget⟩ := redirectedLink_eq hasked
      exact ⟨target, hredirected, hnew.trans hretarget⟩

lemma followed_kept (raw : Text) : Followed U page redirects raw raw ↔
    ∀ target, redirected U page redirects raw = some target →
      wikilinkKey U page raw = some ⟨none, none, target⟩ := by
  rw [Followed]
  cases redirected U page redirects raw with
  | none => exact iff_of_true rfl fun target htarget => by cases htarget
  | some target =>
    constructor
    · rintro ⟨hkey, -⟩ goal hgoal
      cases hgoal
      exact hkey
    · exact fun h => ⟨h target rfl, rfl, rfl⟩

lemma followed_moved {target : Text} (hname : Nameable U page target)
    (hredirected : redirected U page redirects raw = some target) :
    Followed U page redirects raw (target ++ labelPart raw) ↔ anchorOf raw = [] := by
  obtain ⟨hkey, hlabel⟩ := key_moved hname raw
  simp only [Followed, hredirected, anchorOf_nameable hname (labelPart_head raw)]
  exact ⟨fun h => h.2.2.symm, fun h => ⟨hkey, hlabel, h.symm⟩⟩

/-- On clean lines the redirects are followed when no redirected link has code inside, or an
anchor; and only then, as long as no path is redirected to itself. -/
theorem redirects_followed (U : CharTables) (page : PagePath)
    (redirects : List (Text × Text)) (body : Text)
    (h : ∀ line, (false, line) ∈ classify none (lines body) → Clean U page redirects line) :
    ((∀ line, (false, line) ∈ classify none (lines body) →
        Seen (isRedirected U page redirects) line ∧ Unanchored U page redirects line) →
      RedirectsFollowed U page redirects body) ∧
    ((∀ path, List.lookup path redirects ≠ some path) → RedirectsFollowed U page redirects body →
      ∀ line, (false, line) ∈ classify none (lines body) →
        Seen (isRedirected U page redirects) line ∧ Unanchored U page redirects line) := by
  have hclean : ∀ line ∈ proseOf (classify none (lines body)),
      Clean U page redirects line ∧ '\n' ∉ line :=
    fun line hline => ⟨h line (mem_proseOf.mp hline), newline_lines (mem_proseOf.mp hline)⟩
  obtain ⟨mets, hold, hafter, hmets, hseen⟩ := exists_mets hclean
  have hclass := classify_rewriteBody fun line hline => (h line hline).quiet (newline_lines hline)
  have hbefore : linksOf body = mets.map Met.old := by
    rw [linksOf, flatMap_proseLines, hold]
  have hresult : linksOf (rewriteWikilinkTargets U page body redirects) = mets.map Met.after := by
    rw [rewriteWikilinkTargets_eq, linksOf, flatMap_proseLines, hclass, proseOf_map,
      flatMap_map, hafter]
  have hforall : List.Forall₂ (Followed U page redirects) (linksOf body)
      (linksOf (rewriteWikilinkTargets U page body redirects)) ↔
        ∀ met ∈ mets, Followed U page redirects met.old met.after := by
    rw [hbefore, hresult, forall₂_map_left_iff, forall₂_map_right_iff, forall₂_same]
  have hanchor : (∀ line, (false, line) ∈ classify none (lines body) →
      Unanchored U page redirects line) ↔ ∀ met ∈ mets,
        isRedirected U page redirects met.old = true → anchorOf met.old = [] := by
    rw [← forall_mem_map (f := Met.old) (P := fun raw =>
      isRedirected U page redirects raw = true → anchorOf raw = []), ← hold]
    constructor
    · intro hall raw hraw
      obtain ⟨line, hline, hmem⟩ := mem_flatMap.mp hraw
      exact hall line (mem_proseOf.mp hline) raw hmem
    · exact fun hall line hline raw hmem =>
        hall raw (mem_flatMap.mpr ⟨line, mem_proseOf.mpr hline, hmem⟩)
  constructor
  · intro hall
    have hkept := hseen.mp fun line hline => (hall line (mem_proseOf.mp hline)).1
    have hnone := hanchor.mp fun line hline => (hall line hline).2
    refine ⟨?_, hforall.mpr ?_, flatten_segments body, exists_retargeted body⟩
    · intro key hkey hworkspace hproject hsource
      rw [wikilinkKeys_eq, hresult] at hkey
      obtain ⟨after, hafter, hkey⟩ := mem_flatMap.mp hkey
      obtain ⟨met, hmet, rfl⟩ := mem_map.mp hafter
      rw [Option.mem_toList] at hkey
      rcases hmets met hmet with ⟨raw, rfl⟩ | ⟨raw, target, hredirected, hname, rfl⟩
      · have hlookup : redirected U page redirects raw =
            if key.workspace = none ∧ key.project = none then List.lookup key.path redirects
              else none := redirected_of_key hkey
        rw [hkept raw hmet, if_pos ⟨hworkspace, hproject⟩] at hlookup
        rw [← hlookup] at hsource
        cases hsource
      · obtain ⟨hmoved, -⟩ := key_moved hname raw
        obtain rfl := Option.some.inj (hmoved.symm.trans hkey)
        obtain ⟨path, -, hlookup⟩ := key_of_redirected hredirected
        exact mem_map.mpr ⟨_, mem_of_lookup hlookup, rfl⟩
    · intro met hmet
      rcases hmets met hmet with ⟨raw, rfl⟩ | ⟨raw, target, hredirected, hname, rfl⟩
      · refine (followed_kept raw).mpr fun target htarget => ?_
        rw [hkept raw hmet] at htarget
        cases htarget
      · refine (followed_moved hname hredirected).mpr (hnone _ hmet ?_)
        rw [Met.old, isRedirected, hredirected]
        rfl
  · intro hself hfollowed
    have hall := hforall.mp hfollowed.links
    have hkept : ∀ raw, .kept raw ∈ mets → redirected U page redirects raw = none := by
      intro raw hmet
      cases hredirected : redirected U page redirects raw with
      | none => rfl
      | some target =>
        -- a link that stays has its redirect for its key: a path redirected to itself
        have hstays : Followed U page redirects raw raw := hall (.kept raw) hmet
        have hkey := (followed_kept raw).mp hstays target hredirected
        obtain ⟨path, hpath, hlookup⟩ := key_of_redirected hredirected
        have hsame : target = path := by simpa using hkey.symm.trans hpath
        rw [← hsame] at hlookup
        exact absurd hlookup (hself target)
    have hnone := hanchor.mpr fun met hmet hsome => by
      rcases hmets met hmet with ⟨raw, rfl⟩ | ⟨raw, target, hredirected, hname, rfl⟩
      · rw [Met.old, isRedirected, hkept raw hmet] at hsome
        cases hsome
      · have hmoves : Followed U page redirects raw (target ++ labelPart raw) :=
          hall (.replaced raw (some (target ++ labelPart raw))) hmet
        exact (followed_moved hname hredirected).mp hmoves
    exact fun line hline => ⟨hseen.mpr hkept line (mem_proseOf.mpr hline), hnone line hline⟩

/-- The page `b.md` has moved to `c.md`. -/
def movedPage : List (Text × Text) := [("b.md".toList, "c.md".toList)]

lemma nameable_movedPage : Nameable asciiTables linkedPage "c.md".toList := by
  have hplain : "c.md".toList.all fun c => c ∉ ['|', '\x60', '\n', '#', '?'] := by decide +kernel
  exact ⟨by decide +kernel, fun c hc => of_decide_eq_true (all_eq_true.mp hplain c hc),
    by decide +kernel⟩

lemma clean_plainLine : Clean asciiTables linkedPage movedPage plainLine := by
  have hline : lineChunks (redirectCutting asciiTables linkedPage movedPage) plainLine =
      "See [[a]] and ".toList.map .char ++
        .link "b|the text".toList (bracketed "c.md|the text".toList) :: ".".toList.map .char := by
    decide +kernel
  have hblanked : blankedChunks (redirectCutting asciiTables linkedPage movedPage) plainLine =
      lineChunks (redirectCutting asciiTables linkedPage movedPage) plainLine := by
    decide +kernel
  constructor
  · intro raw _ target hredirected
    obtain ⟨path, -, hlookup⟩ := key_of_redirected hredirected
    have hmem := mem_of_lookup hlookup
    obtain ⟨-, rfl⟩ := Prod.mk.inj (mem_singleton.mp hmem)
    exact nameable_movedPage
  · rw [hline]
    decide
  · rw [hblanked, hline]
    have hdot : Meets (".".toList.map .char) [] := .clear (by decide)
    have hmoved : Meets (" and ".toList.map .char ++
        .link "b|the text".toList (bracketed "c.md|the text".toList) :: ".".toList.map .char)
        [.replaced "b|the text".toList (some "c.md|the text".toList)] :=
      .moved (by decide) (by decide) (by decide) hdot
    have hmeets : Meets (("See ".toList ++ bracketed "a".toList).map .char ++
        (" and ".toList.map .char ++
          .link "b|the text".toList (bracketed "c.md|the text".toList) :: ".".toList.map .char))
        [.kept "a".toList, .replaced "b|the text".toList (some "c.md|the text".toList)] :=
      .kept (by decide) (by decide) hmoved
    exact ⟨_, hmeets⟩

/-- The link to the moved page is redirected with its label, the other link stays. -/
theorem redirects_followed_plain :
    RedirectsFollowed asciiTables linkedPage movedPage plainLine := by
  have honly : ∀ line, (false, line) ∈ classify none (lines plainLine) → line = plainLine := by
    intro line hline
    have hlines : classify none (lines plainLine) = [(false, plainLine)] := by decide +kernel
    rw [hlines] at hline
    exact (Prod.mk.inj (mem_singleton.mp hline)).2
  refine (redirects_followed asciiTables linkedPage movedPage plainLine
    fun line hline => ?_).1 fun line hline => ?_
  · rw [honly line hline]
    exact clean_plainLine
  · rw [honly line hline]
    constructor
    · decide +kernel
    · intro raw hraw hsome
      have hlinks : rawLinks (blankInlineCode plainLine) = ["a".toList, "b|the text".toList] := by
        decide +kernel
      rw [hlinks] at hraw
      rcases mem_pair.mp hraw with rfl | rfl <;> decide +kernel

/-- The anchor of a redirected link is lost. -/
theorem redirect_drops_anchor :
    ¬ RedirectsFollowed asciiTables linkedPage movedPage "[[b#usage]]".toList := by
  intro h
  have hbefore : linksOf "[[b#usage]]".toList = ["b#usage".toList] := by decide +kernel
  have hresult : linksOf (rewriteWikilinkTargets asciiTables linkedPage "[[b#usage]]".toList
      movedPage) = ["c.md".toList] := by decide +kernel
  have hlinks := h.links
  rw [hbefore, hresult] at hlinks
  obtain ⟨hfollowed, -⟩ := forall₂_cons.mp hlinks
  have hredirected : redirected asciiTables linkedPage movedPage "b#usage".toList =
      some "c.md".toList := by decide +kernel
  simp only [Followed, hredirected] at hfollowed
  exact absurd hfollowed.2.2 (by decide +kernel)

end Wiki
