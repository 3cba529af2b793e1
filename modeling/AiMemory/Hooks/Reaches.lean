/-
Globs that reach what a pattern declares.

A candidate with globs is compared with the pattern's literal prefix only, segment by segment up
to its first `**`.  Segments of one path that the candidate and the prefix both begin are the
same in number and in which are empty, so the comparison finds them.
-/
import AiMemory.Hooks.Exact

open Strings Globs List

namespace Capture

section
variable {insensitive : Bool}

/-! ### Segments of a glob -/

def NoPair (glob : Text) : Prop := ¬['*', '*'] <:+: glob

lemma NoPair.of_infix {a b : Text} (h : NoPair b) (hpiece : a <:+: b) : NoPair a :=
  fun hpair => h (hpair.trans hpiece)

lemma NoPair.noTriple {glob : Text} (h : NoPair glob) : NoTriple glob := by
  rintro ⟨front, back, heq⟩
  exact h ⟨front, '*' :: back, by simpa using heq⟩

lemma noPair_of_splitOnce {glob : Text} (h : splitOnce ['*', '*'] glob = none) :
    NoPair glob := by
  rintro ⟨front, back, heq⟩
  obtain ⟨before, after, hsplit, -⟩ := splitOnce_first ['*', '*'] front back
  rw [← append_assoc, heq, h] at hsplit
  cases hsplit

variable {before after segment path : Text} {parts texts first : List Text}

lemma noPair_before {glob : Text} (h : splitOnce ['*', '*'] glob = some (before, after)) :
    NoPair before ∧ before.getLast? ≠ some '*' := by
  have hfirst : ∀ front back, glob = front ++ (['*', '*'] ++ back) → before <+: front := by
    rintro front back rfl
    obtain ⟨found, after', hsplit, hbegin⟩ := splitOnce_first ['*', '*'] front back
    rw [h] at hsplit
    cases hsplit
    exact hbegin
  have hglob := splitOnce_some h
  constructor
  · rintro ⟨front, back, rfl⟩
    have hshort := (hfirst front (back ++ ['*', '*'] ++ after) (by rw [hglob]; simp)).length_le
    simp only [length_append, length_cons, length_nil] at hshort
    omega
  · intro hlast
    obtain ⟨front, rfl⟩ := getLast?_eq_some_iff.mp hlast
    have hshort := (hfirst front ('*' :: after) (by rw [hglob]; simp)).length_le
    simp only [length_append, length_cons, length_nil] at hshort
    omega

lemma mem_tokens {glob : Text} {t : Token Char} (h : t ∈ tokens glob) :
    (t = .deep ∧ ['*', '*'] <:+: glob) ∨ ∃ c ∈ glob, t = token c := by
  fun_induction tokens glob with
  | case1 => cases h
  | case2 rest ih =>
    rcases mem_cons.mp h with rfl | h
    · exact .inl ⟨rfl, ⟨[], rest, rfl⟩⟩
    · have htail : rest <:+: '*' :: '*' :: rest := ⟨['*', '*'], [], by simp⟩
      rcases ih h with ⟨hdeep, hpair⟩ | ⟨c, hc, htoken⟩
      · exact .inl ⟨hdeep, hpair.trans htail⟩
      · exact .inr ⟨c, htail.subset hc, htoken⟩
  | case3 c rest _ ih =>
    rcases mem_cons.mp h with rfl | h
    · exact .inr ⟨c, mem_cons_self, rfl⟩
    · rcases ih h with ⟨hdeep, hpair⟩ | ⟨d, hd, htoken⟩
      · exact .inl ⟨hdeep, hpair.trans (suffix_cons c rest).isInfix⟩
      · exact .inr ⟨d, mem_cons_of_mem _ hd, htoken⟩

lemma inSegment_tokens (hslash : '/' ∉ segment) (hpair : NoPair segment) :
    InSegment '/' (fun expected c => charEqual expected c insensitive = true) (tokens segment) := by
  have htoken : ∀ c, token c ≠ .deep ∧ ∀ a, token c = .lit a → a = c := by
    intro c
    rw [token]
    split
    · simp
    · split
      · simp
      · simp
  constructor
  · intro hdeep
    rcases mem_tokens hdeep with ⟨-, hin⟩ | ⟨c, -, heq⟩
    · exact hpair hin
    · exact (htoken c).1 heq.symm
  · intro a ha b hab hb
    rcases mem_tokens ha with ⟨heq, -⟩ | ⟨c, hc, heq⟩
    · cases heq
    · obtain rfl := (htoken c).2 a heq.symm
      rw [hb] at hab
      exact hslash (eq_of_charEqual hab rfl ▸ hc)

lemma tokens_intercalate :
    tokens (['/'].intercalate parts) = [.lit '/'].intercalate (parts.map tokens) := by
  induction parts with
  | nil => rfl
  | cons part parts ih =>
    cases parts with
    | nil => simp
    | cons second parts =>
      have hslash : (['/'] ++ ['/'].intercalate (second :: parts)).head? ≠ some '*' := by simp
      rw [map_cons, map_cons, intercalate_cons_cons, intercalate_cons_cons,
        append_assoc, tokens_append (.inr hslash), singleton_append,
        tokens_cons (.inl (by decide)), ih]
      simp [token]

lemma slash_of_charEqual (b : Char) (h : charEqual '/' b insensitive) : b = '/' :=
  eq_of_charEqual ((charEqual_comm ..).trans h) rfl

lemma matches_segments {glob : Text} (hpair : NoPair glob) (h : MatchesText insensitive glob path) :
    List.Forall₂ (MatchesText insensitive) (glob.splitOn '/') (path.splitOn '/') := by
  have hglob : ['/'].intercalate (glob.splitOn '/') = glob := intercalate_splitOn '/'
  rw [MatchesText, ← hglob, tokens_intercalate] at h
  have hne : (glob.splitOn '/').map tokens ≠ [] := by
    rw [Ne, map_eq_nil_iff]
    exact splitOnP_ne_nil _ _
  have hall := h.segments slash_of_charEqual hne fun part hpart => by
    obtain ⟨segment, hsegment, rfl⟩ := mem_map.mp hpart
    exact inSegment_tokens (notMem_segment hsegment) (hpair.of_infix (infix_of_mem_splitOnP hsegment))
  rw [forall₂_map_left_iff] at hall
  exact hall

lemma matches_head {head behind : Text} (hpair : NoPair head)
    (h : MatchesText insensitive (head ++ '/' :: behind) path) :
    ∃ first rest, path.splitOn '/' = first ++ rest ∧
      List.Forall₂ (MatchesText insensitive) (head.splitOn '/') first := by
  have hslash : ('/' :: behind).head? ≠ some '*' := by simp
  rw [MatchesText, tokens_append (.inr hslash), tokens_cons (.inl (by decide))] at h
  obtain ⟨x, more, rfl, hx, hmore⟩ := h.append_inv
  have htoken : token '/' = .lit '/' := rfl
  rw [htoken] at hmore
  cases hmore with
  | @lit _ b _ y hb hy =>
    obtain rfl := slash_of_charEqual b hb
    exact ⟨x.splitOn '/', y.splitOn '/', splitOn_append_cons_self .., matches_segments hpair hx⟩

/-! ### Segments of one path -/

theorem charEqual_trans {a b c : Char} (hab : charEqual a b insensitive)
    (hcb : charEqual c b insensitive) : charEqual a c insensitive := by
  unfold charEqual at *
  cases insensitive with
  | false =>
    simp only [Bool.false_and, Bool.false_eq_true, if_false, decide_eq_true_eq] at *
    rw [hab, hcb]
  | true =>
    simp only [Bool.true_and, Bool.and_eq_true, decide_eq_true_eq] at *
    by_cases hb : b.toNat < 128
    · by_cases ha : a.toNat < 128
      · rw [if_pos ⟨ha, hb⟩, decide_eq_true_eq] at hab
        by_cases hc : c.toNat < 128
        · rw [if_pos ⟨hc, hb⟩, decide_eq_true_eq] at hcb
          rw [if_pos ⟨ha, hc⟩, hab, hcb]
          exact decide_eq_true rfl
        · rw [if_neg fun h => hc h.1, decide_eq_true_eq] at hcb
          exact absurd (hcb ▸ hb) hc
      · rw [if_neg fun h => ha h.1, decide_eq_true_eq] at hab
        exact absurd (hab ▸ hb) ha
    · rw [if_neg fun h => hb h.2, decide_eq_true_eq] at hab hcb
      subst hab hcb
      rw [if_neg fun h => hb h.1]
      exact decide_eq_true rfl

lemma MatchesText.same {glob text : Text} (h : MatchesText insensitive glob path)
    (hsame : SameText insensitive text path) : MatchesText insensitive glob text := by
  have hglob : Matches '/' (fun expected c => charEqual expected c insensitive = true)
    (tokens glob) path := h
  have htrans : ∀ a b c, charEqual a b insensitive = true → charEqual c b insensitive →
      charEqual a c insensitive := fun a b c => charEqual_trans
  have hslash : ∀ b c, charEqual c b insensitive = true → c = '/' → b = '/' := by
    rintro b c hcb rfl
    exact slash_of_charEqual b hcb
  exact Matches.trans htrans hslash hglob hsame

lemma forall₂_of_path {globs path : List Text} {firsts : List Text}
    (hglobs : List.Forall₂ (MatchesText insensitive) globs path)
    (htexts : List.Forall₂ (SameText insensitive) texts firsts)
    (hpath : path <+: firsts ∨ firsts <+: path) :
    List.Forall₂ (MatchesText insensitive) (globs.take texts.length) (texts.take globs.length) := by
  induction hglobs generalizing texts firsts with
  | nil => simp
  | @cons glob segment globs path hglob _ ih =>
    cases htexts with
    | nil => simp
    | @cons text first texts firsts htext htexts =>
      have hboth : segment = first ∧ (path <+: firsts ∨ firsts <+: path) := by
        rcases hpath with hpath | hpath
        · obtain ⟨heq, hrest⟩ := cons_prefix_cons.mp hpath
          exact ⟨heq, .inl hrest⟩
        · obtain ⟨heq, hrest⟩ := cons_prefix_cons.mp hpath
          exact ⟨heq.symm, .inr hrest⟩
      obtain ⟨rfl, hrest⟩ := hboth
      exact .cons (hglob.same htext) (ih htexts hrest)

lemma Rooted.begin (h : Rooted parts) (hfirst : first <+: parts) : first = [] ∨ Rooted first := by
  have hall : ∀ {rest more : List Text}, rest <+: more → (∀ part ∈ more, part ≠ []) →
      ∀ part ∈ rest, part ≠ [] := fun hrest hmore part hpart => hmore part (hrest.subset hpart)
  cases first with
  | nil => exact .inl rfl
  | cons lead rest =>
    right
    cases h with
    | posix hnames =>
      obtain ⟨rfl, hrest⟩ := cons_prefix_cons.mp hfirst
      exact .posix (hall hrest hnames)
    | share hnames =>
      obtain ⟨rfl, hrest⟩ := cons_prefix_cons.mp hfirst
      cases rest with
      | nil => exact .posix fun _ hmem => nomatch hmem
      | cons second rest =>
        obtain ⟨rfl, hmore⟩ := cons_prefix_cons.mp hrest
        exact .share (hall hmore hnames)
    | drive hne hfree hnames =>
      obtain ⟨rfl, hrest⟩ := cons_prefix_cons.mp hfirst
      exact .drive hne hfree (hall hrest hnames)

lemma eq_star_of_matches_nil (hne : segment ≠ []) (hpair : NoPair segment)
    (h : MatchesText insensitive segment []) : segment = ['*'] := by
  by_cases hhead : segment.head? = some '*'
  · obtain ⟨rest, rfl⟩ := head?_eq_some_iff.mp hhead
    have hrest : rest.head? ≠ some '*' := by
      intro hsecond
      obtain ⟨tail, rfl⟩ := head?_eq_some_iff.mp hsecond
      exact hpair ⟨[], tail, rfl⟩
    rw [MatchesText, tokens_cons (.inr hrest)] at h
    have htoken : token '*' :: tokens rest = [.run] ++ tokens rest := rfl
    rw [htoken] at h
    obtain ⟨first, second, heq, -, hsecond⟩ := h.append_inv
    obtain ⟨rfl, rfl⟩ := append_eq_nil_iff.mp heq.symm
    rw [matches_nil hrest hsecond]
  · exact absurd (matches_nil hhead h) hne

lemma not_matches_nil_of_globFree (hne : segment ≠ []) (hfree : GlobFree segment) :
    ¬MatchesText insensitive segment [] := by
  intro h
  have hhead : segment.head? ≠ some '*' := fun hhead =>
    absurd (hfree '*' (mem_of_mem_head? hhead)) (by decide)
  exact hne (matches_nil hhead h)

lemma eq_nil_of_matches {text : Text} (h : MatchesText insensitive [] text) : text = [] :=
  matches_nil_iff.mp h

def StarForSeparator (globs texts : List Text) : Prop :=
  [[], ['*']] <+: globs ∧ [[], []] <+: texts

lemma aligned {globs : List Text} (hglobs : globs = [] ∨ Rooted globs)
    (htexts : texts = [] ∨ Rooted texts) (hpair : ∀ segment ∈ globs, NoPair segment)
    (hstar : ¬StarForSeparator globs texts)
    (h : List.Forall₂ (MatchesText insensitive) globs texts) :
    List.Forall₂ (fun glob text => MatchesText insensitive glob text ∧ (glob = [] ↔ text = []))
      globs texts := by
  have hnames : ∀ {names others : List Text}, (∀ part ∈ names, part ≠ []) →
      (∀ part ∈ others, part ≠ []) → List.Forall₂ (MatchesText insensitive) names others →
        List.Forall₂ (fun glob text => MatchesText insensitive glob text ∧ (glob = [] ↔ text = []))
          names others := by
    intro names others hnames hothers hall
    induction hall with
    | nil => exact .nil
    | cons hfirst _ ih =>
      obtain ⟨hname, hnames⟩ := forall_mem_cons.mp hnames
      obtain ⟨hother, hothers⟩ := forall_mem_cons.mp hothers
      exact .cons ⟨hfirst, iff_of_false hname hother⟩ (ih hnames hothers)
  rcases hglobs with rfl | hglobs
  · cases h
    exact .nil
  rcases htexts with rfl | htexts
  · cases h
    exact .nil
  cases hglobs with
  | posix hparts =>
    cases htexts with
    | posix hothers =>
      cases h with
      | cons hfirst hrest => exact .cons ⟨hfirst, iff_of_true rfl rfl⟩ (hnames hparts hothers hrest)
    | share hothers =>
      -- a segment in the place of the second separator is a star
      cases h with
      | cons _ hrest =>
        cases hrest with
        | cons hsecond _ =>
          obtain rfl := eq_star_of_matches_nil (hparts _ mem_cons_self)
            (hpair _ (by simp)) hsecond
          exact absurd ⟨⟨_, rfl⟩, ⟨_, rfl⟩⟩ hstar
    | drive hne _ _ =>
      cases h with
      | cons hfirst _ => exact absurd (eq_nil_of_matches hfirst) hne
  | share hparts =>
    cases htexts with
    | posix hothers =>
      cases h with
      | cons _ hrest =>
        cases hrest with
        | cons hsecond _ =>
          exact absurd (eq_nil_of_matches hsecond) (hothers _ mem_cons_self)
    | share hothers =>
      cases h with
      | cons hfirst hrest =>
        cases hrest with
        | cons hsecond hrest =>
          exact .cons ⟨hfirst, iff_of_true rfl rfl⟩
            (.cons ⟨hsecond, iff_of_true rfl rfl⟩ (hnames hparts hothers hrest))
    | drive hne _ _ =>
      cases h with
      | cons hfirst _ => exact absurd (eq_nil_of_matches hfirst) hne
  | drive hne hfree hparts =>
    cases htexts with
    | posix _ | share _ =>
      cases h with
      | cons hfirst _ => exact absurd hfirst (not_matches_nil_of_globFree hne hfree)
    | drive hne' _ hothers =>
      cases h with
      | cons hfirst hrest =>
        exact .cons ⟨hfirst, iff_of_false hne hne'⟩ (hnames hparts hothers hrest)

/-! ### Comparing as many segments -/

theorem filter_length_eq {globs : List Text}
    (h : List.Forall₂ (fun glob text => MatchesText insensitive glob text ∧ (glob = [] ↔ text = []))
      globs texts) : (globs.filter (· ≠ [])).length = (texts.filter (· ≠ [])).length := by
  induction h with
  | nil => rfl
  | @cons glob text _ _ hfirst _ ih =>
    by_cases hglob : glob = []
    · have htext := hfirst.2.mp hglob
      rw [filter_cons_of_neg (by simp [hglob]), filter_cons_of_neg (by simp [htext])]
      exact ih
    · have htext : text ≠ [] := fun htext => hglob (hfirst.2.mpr htext)
      rw [filter_cons_of_pos (by simp [hglob]), filter_cons_of_pos (by simp [htext])]
      exact congrArg (· + 1) ih

lemma getLast?_eq_nil_iff {globs : List Text}
    (h : List.Forall₂ (fun glob text => MatchesText insensitive glob text ∧ (glob = [] ↔ text = []))
      globs texts) : globs.getLast? = some [] ↔ texts.getLast? = some [] := by
  induction h with
  | nil => exact Iff.rfl
  | cons hfirst hrest ih =>
    cases hrest with
    | nil => simpa using hfirst.2
    | cons _ _ => rwa [getLast?_cons_cons, getLast?_cons_cons]

lemma pathHead_take (hne : first.getLast? ≠ some []) (hfirst : first <+: path.splitOn '/') :
    pathHead (first.filter (· ≠ [])).length path = some (['/'].intercalate first) := by
  obtain ⟨rest, hrest⟩ := hfirst
  rw [pathHead, ← hrest, firstParts_mono (firstParts_self hne)]
  rfl

lemma globMatch_segments {globs : List Text} (hpair : NoPair (['/'].intercalate globs))
    (hhead : (['/'].intercalate globs).head? ≠ some '*')
    (h : List.Forall₂ (MatchesText insensitive) globs texts) :
    globMatch (['/'].intercalate globs) (['/'].intercalate texts) none insensitive := by
  have hmatch : MatchesText insensitive (['/'].intercalate globs) (['/'].intercalate texts) := by
    rw [MatchesText, tokens_intercalate]
    refine Matches.intercalate (charEqual_refl ..) ?_
    rw [forall₂_map_left_iff]
    exact h
  rw [globMatch, (globStatesMatch_iff hpair.noTriple hhead).mpr hmatch, Bool.or_true]

lemma intercalate_begin (h : first <+: parts) :
    ['/'].intercalate first <+: ['/'].intercalate parts := by
  obtain ⟨rest, rfl⟩ := h
  induction first with
  | nil => exact nil_prefix
  | cons part first ih =>
    cases first with
    | nil =>
      rw [intercalate_singleton]
      cases rest with
      | nil => simp
      | cons second rest =>
        rw [singleton_append, intercalate_cons_cons, append_assoc]
        exact prefix_append ..
    | cons second first =>
      rw [cons_append, cons_append, intercalate_cons_cons, intercalate_cons_cons]
      rw [cons_append] at ih
      exact (prefix_append_right_inj _).mpr ih

variable {glob text : Text} {globs : List Text}

def Aligned (insensitive : Bool) (globs texts : List Text) : Prop :=
  List.Forall₂ (fun glob text => MatchesText insensitive glob text ∧ (glob = [] ↔ text = []))
    (globs.take texts.length) (texts.take globs.length)

lemma head?_segments (hhead : glob.head? ≠ some '*') (hglobs : globs <+: glob.splitOn '/') :
    (['/'].intercalate globs).head? ≠ some '*' := by
  intro hstar
  have hbegin := intercalate_begin hglobs
  have hglob : ['/'].intercalate (glob.splitOn '/') = glob := intercalate_splitOn '/'
  rw [hglob] at hbegin
  obtain ⟨rest, rfl⟩ := hbegin
  obtain ⟨tail, htail⟩ := head?_eq_some_iff.mp hstar
  rw [htail] at hhead
  exact hhead rfl

lemma globReaches_of_aligned (hhead : glob.head? ≠ some '*') (hglobs : globs <+: glob.splitOn '/')
    (hpair : NoPair (['/'].intercalate globs)) (hlast : text.getLast? ≠ some '/')
    (hlength : (text.splitOn '/').length ≤ globs.length)
    (h : Aligned insensitive globs (text.splitOn '/')) : globReaches glob text insensitive := by
  have htrim : trimEndBy (· = '/') text = text :=
    trimEndBy_eq_self fun c hc => decide_eq_false fun heq => hlast (heq ▸ hc)
  rw [globReaches, htrim]
  by_cases hdepth : depthOf text = 0
  · exact if_pos hdepth
  rw [if_neg hdepth]
  rw [Aligned, take_of_length_le hlength] at h
  generalize hfirst : globs.take (text.splitOn '/').length = first at h
  have hbegin : first <+: globs := hfirst ▸ take_prefix ..
  have hempty : first.getLast? ≠ some [] := by
    intro hempty
    rcases getLast?_splitOn ((getLast?_eq_nil_iff h).mp hempty) with rfl | hslash
    · exact hdepth rfl
    · exact hlast hslash
  have hcount : (first.filter (· ≠ [])).length = depthOf text := filter_length_eq h
  rw [← hcount, pathHead_take hempty (hbegin.trans hglobs), Option.any_some]
  have htext : ['/'].intercalate (text.splitOn '/') = text := intercalate_splitOn '/'
  have hmatch := globMatch_segments (hpair.of_infix (intercalate_begin hbegin).isInfix)
    (head?_segments hhead (hbegin.trans hglobs)) (h.imp fun _ _ hboth => hboth.1)
  rwa [htext] at hmatch

lemma globstarReaches_of_aligned {head : Text}
    (hsplit : splitOnce ['*', '*'] glob = some (before, after))
    (hbefore : beforeLast '/' before = head) (hhead : glob.head? ≠ some '*')
    (hglobs : head.splitOn '/' <+: glob.splitOn '/') (hpair : NoPair head)
    (hlast : head.getLast? ≠ some '/') (htext : text.getLast? ≠ some '/')
    (h : Aligned insensitive (head.splitOn '/') (text.splitOn '/')) :
    globstarReaches glob text insensitive := by
  have hwhole : ['/'].intercalate (head.splitOn '/') = head := intercalate_splitOn '/'
  have hdepth : head ≠ [] → (head.splitOn '/').getLast? ≠ some [] := by
    intro hne hempty
    exact (getLast?_splitOn hempty).elim hne hlast
  rw [globstarReaches, hsplit]
  dsimp only
  rw [hbefore]
  by_cases hnil : head = []
  · subst hnil
    have hroot : depthOf [] = 0 := rfl
    have hfound : pathHead 0 text = some [] := by
      rw [pathHead, firstParts]
      rfl
    rw [hroot, hfound]
    rfl
  rcases Nat.lt_or_ge (text.splitOn '/').length (head.splitOn '/').length with hless | hle
  · -- the text is shallower
    have hnone : pathHead (depthOf head) text = none := by
      rw [← Option.not_isSome_iff_eq_none, pathHead_isSome, Nat.not_le]
      rw [Aligned, take_of_length_le hless.le] at h
      have hcount : (((head.splitOn '/').take (text.splitOn '/').length).filter (· ≠ [])).length =
          depthOf text := filter_length_eq h
      rw [← hcount, depthOf]
      have hcut := take_append_drop (text.splitOn '/').length (head.splitOn '/')
      have hdrop : (head.splitOn '/').drop (text.splitOn '/').length ≠ [] := by
        rw [Ne, drop_eq_nil_iff]
        omega
      generalize (head.splitOn '/').take (text.splitOn '/').length = first at hcut ⊢
      generalize (head.splitOn '/').drop (text.splitOn '/').length = rest at hcut hdrop
      obtain ⟨front, last, rfl⟩ := eq_nil_or_concat' rest |>.resolve_left hdrop
      have hname : last ≠ [] := by
        rintro rfl
        refine hdepth hnil ?_
        rw [← hcut, ← append_assoc, getLast?_concat]
      rw [← hcut, filter_append, filter_append, filter_cons_of_pos (by simp [hname]),
        length_append, length_append, length_cons]
      omega
    rw [hnone]
    exact globReaches_of_aligned hhead hglobs (by rwa [hwhole]) htext hless.le h
  · -- the text goes on behind the segments
    rw [Aligned, take_of_length_le hle] at h
    generalize hfirst : (text.splitOn '/').take (head.splitOn '/').length = first at h
    have hbegin : first <+: text.splitOn '/' := hfirst ▸ take_prefix ..
    have hempty : first.getLast? ≠ some [] := fun hempty =>
      hdepth hnil ((getLast?_eq_nil_iff h).mpr hempty)
    have hcount : depthOf head = (first.filter (· ≠ [])).length := filter_length_eq h
    rw [hcount, pathHead_take hempty hbegin]
    have hmatch : globMatch (['/'].intercalate (head.splitOn '/')) (['/'].intercalate first) none
        insensitive :=
      globMatch_segments (by rwa [hwhole]) (head?_segments hhead hglobs)
        (h.imp fun _ _ hboth => hboth.1)
    rwa [hwhole] at hmatch

/-- A `**` in the server of a share. -/
def StarsInServer (glob : Text) : Prop :=
  ∃ before behind, '/' ∉ before ∧ glob = '/' :: '/' :: (before ++ '*' :: '*' :: behind)

lemma Anchors.segments (h : Anchors insensitive text path) (hlast : text.getLast? ≠ some '/') :
    ∃ firsts, firsts <+: path.splitOn '/' ∧
      List.Forall₂ (SameText insensitive) (text.splitOn '/') firsts := by
  obtain ⟨begun, more, rfl, hsame, hbound⟩ := h
  refine ⟨begun.splitOn '/', ?_, splitOn_same hsame⟩
  rcases hbound with rfl | hmore | hslash
  · rw [append_nil]
  · obtain ⟨tail, rfl⟩ := head?_eq_some_iff.mp hmore
    rw [splitOn_append_cons_self]
    exact prefix_append ..
  · exact absurd hslash hlast

lemma aligned_of_path (hrooted : Rooted (glob.splitOn '/')) (htext : Rooted (text.splitOn '/'))
    (hglobs : globs <+: glob.splitOn '/') (hpair : ∀ segment ∈ globs, NoPair segment)
    (hstar : ¬StarForSeparator (glob.splitOn '/') (text.splitOn '/'))
    (hfirst : first <+: path.splitOn '/')
    (hmatch : List.Forall₂ (MatchesText insensitive) globs first)
    (hanchor : Anchors insensitive text path) (hlast : text.getLast? ≠ some '/') :
    Aligned insensitive globs (text.splitOn '/') := by
  obtain ⟨firsts, hfirsts, hsame⟩ := hanchor.segments hlast
  have hall := forall₂_of_path hmatch hsame (List.prefix_or_prefix_of_prefix hfirst hfirsts)
  have htake : globs.take (text.splitOn '/').length <+: globs := take_prefix ..
  have htake' : (text.splitOn '/').take globs.length <+: text.splitOn '/' := take_prefix ..
  refine aligned (hrooted.begin (htake.trans hglobs)) (htext.begin htake') ?_ ?_ hall
  · exact fun segment hsegment => hpair segment (htake.subset hsegment)
  · exact fun h => hstar ⟨(h.1.trans htake).trans hglobs, h.2.trans htake'⟩

lemma exists_head (hglob : RootedPath glob) (hserver : ¬StarsInServer glob)
    (hsplit : splitOnce ['*', '*'] glob = some (before, after)) :
    ∃ head tail, beforeLast '/' before = head ∧ before = head ++ '/' :: tail ∧
      head.getLast? ≠ some '/' := by
  have hwhole := splitOnce_some hsplit
  rw [append_assoc] at hwhole
  have hstar : '*' ∈ glob := by
    rw [hwhole]
    simp
  have hslash : '/' ∈ before := by
    rcases hglob.lead with hfree | ⟨lead, rest, hfree, hlead⟩
    · exact absurd (hfree _ hstar) (by decide)
    · rcases append_eq_append_iff.mp (hwhole.symm.trans hlead) with ⟨cut, hcut, hrest⟩ | ⟨cut, hcut, hrest⟩
      · cases cut with
        | nil => cases hrest
        | cons c cut =>
          obtain ⟨rfl, -⟩ := List.cons.inj hrest
          exact absurd (hfree '*' (hcut ▸ by simp)) (by decide)
      · cases cut with
        | nil => cases hrest
        | cons c cut =>
          cases hrest
          rw [hcut]
          simp
  have hcut := beforeLast_append hslash
  have htail := notMem_afterLast '/' before
  generalize beforeLast '/' before = head at hcut
  generalize afterLast '/' before = tail at hcut htail
  refine ⟨head, tail, rfl, hcut, fun hlast => ?_⟩
  obtain ⟨front, rfl⟩ := getLast?_eq_some_iff.mp hlast
  have hpath : glob = front ++ '/' :: ([] ++ '/' :: (tail ++ (['*', '*'] ++ after))) := by
    rw [hwhole, hcut]
    simp
  have hsegments : glob.splitOn '/' =
      front.splitOn '/' ++ [] :: (tail ++ (['*', '*'] ++ after)).splitOn '/' := by
    rw [hpath, splitOn_append_cons_self, splitOn_append_cons_self]
    rfl
  -- only a share has an empty segment behind the first one
  have hfront : front = [] := by
    obtain ⟨lead, names, hlead⟩ := exists_splitOn '/' front
    have hroot : Rooted (front.splitOn '/' ++ [] :: (tail ++ (['*', '*'] ++ after)).splitOn '/') := by
      rcases hglob with hglob | ⟨lead', hfree, hbare⟩
      · rwa [hsegments] at hglob
      · have hglob' : ['/'].intercalate (glob.splitOn '/') = glob := intercalate_splitOn '/'
        rw [hbare, intercalate_cons_cons, intercalate_singleton, append_nil] at hglob'
        rw [← hglob', mem_append, mem_singleton] at hstar
        rcases hstar with hstar | hstar
        · exact absurd (hfree _ hstar) (by decide)
        · cases hstar
    have hpath' : ['/'].intercalate (front.splitOn '/') = front := intercalate_splitOn '/'
    rw [hlead] at hroot hpath'
    generalize hmore : [] :: (tail ++ (['*', '*'] ++ after)).splitOn '/' = more at hroot
    have hnil : [] ∈ more := hmore ▸ mem_cons_self
    cases names with
    | nil =>
      cases hroot with
      | posix hnames | drive _ _ hnames => exact absurd rfl (hnames [] hnil)
      | share _ => exact hpath'.symm
    | cons second names =>
      have hmem : [] ∈ names ++ more := mem_append_right _ hnil
      cases hroot with
      | posix hnames | drive _ _ hnames => exact absurd rfl (hnames [] (mem_cons_of_mem _ hmem))
      | share hnames => exact absurd rfl (hnames [] hmem)
  subst hfront
  exact hserver ⟨tail, after, htail, by rw [hpath]; rfl⟩

/-- The paths a glob stands for: a segment `**` spans any number of segments, none among them. -/
def StandsFor (insensitive : Bool) (glob path : Text) : Prop :=
  ∃ parts, parts <+ glob.splitOn '/' ∧
    parts.filter (· ≠ globstar) = (glob.splitOn '/').filter (· ≠ globstar) ∧
    MatchesText insensitive (['/'].intercalate parts) path

lemma filter_globstar {head : Text} (hpair : NoPair head) :
    (head.splitOn '/').filter (· ≠ globstar) = head.splitOn '/' := by
  refine filter_eq_self.mpr fun segment hsegment => decide_eq_true fun heq => hpair ?_
  exact (heq ▸ infix_of_mem_splitOnP hsegment : globstar <:+: head)

lemma intercalate_append {a b : List Text} (ha : a ≠ []) (hb : b ≠ []) :
    ['/'].intercalate (a ++ b) = ['/'].intercalate a ++ '/' :: ['/'].intercalate b := by
  induction a with
  | nil => exact absurd rfl ha
  | cons part a ih =>
    by_cases hne : a = []
    · subst hne
      rw [singleton_append, intercalate_cons_of_ne_nil hb, intercalate_singleton, append_assoc]
      rfl
    · rw [cons_append, intercalate_cons_of_ne_nil (append_ne_nil_of_left_ne_nil hne b),
        intercalate_cons_of_ne_nil hne, ih hne, append_assoc, append_assoc, append_assoc]

/-- Up to the first `**` nothing is left out. -/
theorem StandsFor.head {head : Text} {behind : List Text} (hpair : NoPair head)
    (hsegments : glob.splitOn '/' = head.splitOn '/' ++ behind)
    (h : StandsFor insensitive glob path) : ∃ first rest, path.splitOn '/' = first ++ rest ∧
      List.Forall₂ (MatchesText insensitive) (head.splitOn '/') first := by
  obtain ⟨parts, hsub, hfilter, hmatch⟩ := h
  rw [hsegments] at hsub hfilter
  obtain ⟨lead, more, rfl, hlead, hmore⟩ := sublist_append_iff.mp hsub
  have hkept := filter_globstar hpair
  have hall : head.splitOn '/' = lead := by
    rw [filter_append, filter_append, hkept] at hfilter
    have hlength := congrArg length hfilter
    rw [length_append, length_append] at hlength
    have hshort := (hmore.filter (· ≠ globstar)).length_le
    have hfew := (filter_sublist : lead.filter (· ≠ globstar) <+ lead).length_le
    exact (hlead.eq_of_length_le (by omega)).symm
  subst hall
  have hhead : ['/'].intercalate (head.splitOn '/') = head := intercalate_splitOn '/'
  by_cases hmore : more = []
  · rw [hmore, append_nil, hhead] at hmatch
    exact ⟨_, [], (append_nil _).symm, matches_segments hpair hmatch⟩
  · have hjoin : ['/'].intercalate (head.splitOn '/' ++ more) =
        head ++ '/' :: ['/'].intercalate more := by
      have hsome : head.splitOn '/' ≠ [] := splitOnP_ne_nil _ _
      rw [intercalate_append hsome hmore, hhead]
    rw [hjoin] at hmatch
    exact matches_head hpair hmatch

lemma StandsFor.matches (hpair : NoPair glob) (h : StandsFor insensitive glob path) :
    MatchesText insensitive glob path := by
  obtain ⟨parts, hsub, hfilter, hmatch⟩ := h
  have hglob : ['/'].intercalate (glob.splitOn '/') = glob := intercalate_splitOn '/'
  rw [filter_globstar hpair] at hfilter
  have hfew := (filter_sublist : parts.filter (· ≠ globstar) <+ parts).length_le
  rw [hfilter] at hfew
  rwa [hsub.eq_of_length_le hfew, hglob] at hmatch

/-- A glob and a prefix of a path that it matches reach each other. -/
theorem globstarReaches_of_matches (hglob : RootedPath glob) (hserver : ¬StarsInServer glob)
    (hrooted : Rooted (glob.splitOn '/')) (htext : Rooted (text.splitOn '/'))
    (hlast : text.getLast? ≠ some '/')
    (hstar : ¬StarForSeparator (glob.splitOn '/') (text.splitOn '/'))
    (hmatch : StandsFor insensitive glob path) (hanchor : Anchors insensitive text path) :
    globstarReaches glob text insensitive := by
  have hhead := hglob.head
  cases hsplit : splitOnce ['*', '*'] glob with
  | none =>
    have hpair := noPair_of_splitOnce hsplit
    have hall := matches_segments hpair (hmatch.matches hpair)
    have hwhole : ['/'].intercalate (glob.splitOn '/') = glob := intercalate_splitOn '/'
    have haligned := aligned_of_path hrooted htext prefix_rfl
      (fun segment hsegment => hpair.of_infix (infix_of_mem_splitOnP hsegment)) hstar prefix_rfl
      hall hanchor hlast
    rw [globstarReaches, hsplit]
    obtain ⟨firsts, hfirsts, hsame⟩ := hanchor.segments hlast
    have hlength : (text.splitOn '/').length ≤ (glob.splitOn '/').length := by
      rw [hsame.length_eq, hall.length_eq]
      exact hfirsts.length_le
    exact globReaches_of_aligned hhead prefix_rfl (by rwa [hwhole]) hlast hlength haligned
  | some parts =>
    obtain ⟨before, after⟩ := parts
    obtain ⟨hpair, -⟩ := noPair_before hsplit
    obtain ⟨head, tail, hbefore, rfl, hend⟩ := exists_head hglob hserver hsplit
    have hwhole := splitOnce_some hsplit
    rw [append_assoc, append_assoc, cons_append] at hwhole
    have hpair' : NoPair head := hpair.of_infix (prefix_append ..).isInfix
    have hsegments : glob.splitOn '/' = head.splitOn '/' ++ (tail ++ (['*', '*'] ++ after)).splitOn '/' := by
      rw [hwhole, splitOn_append_cons_self]
    have hbegin : head.splitOn '/' <+: glob.splitOn '/' := hsegments ▸ prefix_append ..
    obtain ⟨first, rest, hpath, hall⟩ := hmatch.head hpair' hsegments
    have haligned := aligned_of_path hrooted htext hbegin
      (fun segment hsegment => hpair'.of_infix (infix_of_mem_splitOnP hsegment)) hstar
      ⟨rest, hpath.symm⟩ hall hanchor hlast
    exact globstarReaches_of_aligned hsplit hbefore hhead hbegin hpair' hend hlast haligned

lemma depthOf_append (a b : Text) : depthOf (a ++ '/' :: b) = depthOf a + depthOf b := by
  rw [depthOf, splitOn_append_cons_self, filter_append, length_append]
  rfl

lemma globstarReaches_trimEnd (glob text : Text) (insensitive : Bool) :
    globstarReaches glob (trimEndBy (· = '/') text) insensitive =
      globstarReaches glob text insensitive := by
  obtain ⟨slashes, htext, hslashes⟩ := trimEndBy_append (· = '/') text
  have hbound : slashes = [] ∨ slashes.head? = some '/' := by
    cases slashes with
    | nil => exact .inl rfl
    | cons c slashes =>
      exact .inr (congrArg some (of_decide_eq_true (hslashes c mem_cons_self)))
  have hnone : ∀ more : Text, (∀ c ∈ more, decide (c = '/') = true) → depthOf more = 0 := by
    intro more hmore
    induction more with
    | nil => rfl
    | cons c more ih =>
      obtain ⟨hc, hrest⟩ := forall_mem_cons.mp hmore
      have hnone := ih hrest
      obtain rfl := of_decide_eq_true hc
      have hsum := depthOf_append [] more
      rw [nil_append, hnone] at hsum
      exact hsum
  have hdepth : depthOf text = depthOf (trimEndBy (· = '/') text) := by
    rcases hbound with rfl | hslash
    · rw [append_nil] at htext
      rw [← htext]
    · obtain ⟨tail, rfl⟩ := head?_eq_some_iff.mp hslash
      have hsum := depthOf_append (trimEndBy (· = '/') text) tail
      rw [← htext, hnone tail fun c hc => hslashes c (mem_cons_of_mem _ hc)] at hsum
      exact hsum
  have hhead : ∀ depth, pathHead depth (trimEndBy (· = '/') text) = pathHead depth text := by
    intro depth
    cases hfound : pathHead depth (trimEndBy (· = '/') text) with
    | some head =>
      have hlonger := pathHead_boundary hbound hfound
      rw [← htext] at hlonger
      exact hlonger.symm
    | none =>
      rw [eq_comm, ← Option.not_isSome_iff_eq_none, pathHead_isSome, hdepth, ← pathHead_isSome, hfound]
      exact Bool.false_ne_true
  have hreach : globReaches glob (trimEndBy (· = '/') text) insensitive =
      globReaches glob text insensitive := by
    have htwice := trimEndBy_eq_self (p := (· = '/')) (s := trimEndBy (· = '/') text)
      getLast?_trimEndBy
    rw [globReaches, globReaches, htwice]
  unfold globstarReaches
  rw [hreach]
  split
  · rfl
  · dsimp only
    rw [hhead]

lemma rooted_trimmed {pattern : Text} (h : RootedPath pattern) {first more : Text}
    (hpattern : pattern = first ++ more) (hbound : more = [] ∨ more.head? = some '/')
    (hlast : first.getLast? ≠ some '/') :
    Rooted (first.splitOn '/') ∧ ([[], []] <+: first.splitOn '/' → ['/', '/'] <+: pattern) := by
  have hbegin : first.splitOn '/' <+: pattern.splitOn '/' := by
    rcases hbound with rfl | hmore
    · rw [hpattern, append_nil]
    · obtain ⟨tail, rfl⟩ := head?_eq_some_iff.mp hmore
      rw [hpattern, splitOn_append_cons_self]
      exact prefix_append ..
  have hend : (first.splitOn '/').getLast? = some [] → first = [] := fun hempty =>
    (getLast?_splitOn hempty).resolve_right hlast
  have hwhole : ['/'].intercalate (pattern.splitOn '/') = pattern := intercalate_splitOn '/'
  constructor
  · rcases h with h | ⟨lead, hlead, hbare⟩
    · exact (h.begin hbegin).resolve_left (splitOnP_ne_nil _ _)
    · rw [hbare] at hbegin
      obtain ⟨begun, rest, hsplit⟩ := exists_splitOn '/' first
      rw [hsplit] at hbegin hend ⊢
      obtain ⟨rfl, hrest⟩ := cons_prefix_cons.mp hbegin
      have hnone : rest = [] := by
        cases rest with
        | nil => rfl
        | cons second rest =>
          obtain ⟨rfl, hnil⟩ := cons_prefix_cons.mp hrest
          obtain rfl := prefix_nil.mp hnil
          rw [hend rfl] at hsplit
          cases hsplit
      subst hnone
      by_cases hne : begun = []
      · rw [hne]
        exact .posix fun _ hmem => nomatch hmem
      · exact .drive hne hlead fun _ hmem => nomatch hmem
  · rintro ⟨rest, hrest⟩
    cases rest with
    | nil =>
      have hnil := hend (by rw [← hrest]; rfl)
      rw [hnil] at hrest
      cases hrest
    | cons third rest =>
      have htext := intercalate_begin hbegin
      rw [← hrest, hwhole] at htext
      refine List.IsPrefix.trans ⟨['/'].intercalate (third :: rest), ?_⟩ htext
      simp [intercalate_cons_cons]

end

end Capture
