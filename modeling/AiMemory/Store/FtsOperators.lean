/-
Operators in both streams of a search (`ai-memory-store`, `fts_query.rs`).

The stream of ideographs declines a query that has `AND`, `NOT` or `NEAR` as a word.  The main
query keeps an operator in two more places: between the strings of a word that starts and ends with
a quote, and in a word that ends in `NEAR` before a group.
-/
import AiMemory.Store.CjkQuery
import AiMemory.Store.FtsReading

open List
open Wiki (CharTables)
open Capture (isAsciiPunctuation)
open Fts5 (Token readPart readParts inside lex restricts wellformed isFullText)

namespace Store

variable {U : CharTables} {word part : Text} {ts : List Token}

/-- `NEAR` with parentheses before it, or with a column. -/
def endsInNear (word : Text) : Bool :=
  let inner := word.dropWhile (· = '(')
  inner = "NEAR".toList || inner = "title:NEAR".toList || inner = "body:NEAR".toList

def opensGroup (U : CharTables) (words : List Text) : Bool :=
  (words.flatMap (prepareFts5Token U)).head?.bind List.head? = some '('

def nearGroup (U : CharTables) : Bool → List Text → Bool
  | _, [] => false
  | opened, word :: words => !opened && endsInNear word && opensGroup U words ||
      nearGroup U (opened ^^ leavesOpen word) words

lemma restricts_eq_false (hAnd : Token.word "AND".toList ∉ ts) (hNot : Token.word "NOT".toList ∉ ts)
    (hNear : Token.word "NEAR".toList ∉ ts) : restricts ts = false := by
  have hadjacent : Fts5.adjacent (.word "NEAR".toList) (.symbol '(') ts = false := by
    rw [Bool.eq_false_iff, ne_eq, Fts5.adjacent_eq_true]
    exact fun h => hNear (h.subset mem_cons_self)
  rw [restricts, hadjacent, Bool.or_false, Bool.or_eq_false_iff]
  exact ⟨by simpa using hAnd, by simpa using hNot⟩

def IsHarmless (t : Token) : Prop :=
  IsQuotedToken t ∨ t = .word "title".toList ∨ t = .word "body".toList ∨ t = .symbol ':'

lemma IsHarmless.ne {t : Token} (h : IsHarmless t) :
    t ≠ .word "AND".toList ∧ t ≠ .word "NOT".toList ∧ t ≠ .word "NEAR".toList := by
  rcases h with (rfl | rfl | rfl | rfl | rfl) | rfl | rfl | rfl <;> decide

lemma restricts_harmless (h : ∀ t ∈ ts, IsHarmless t) : restricts ts = false :=
  restricts_eq_false (fun hmem => (h _ hmem).ne.1 rfl) (fun hmem => (h _ hmem).ne.2.1 rfl)
    fun hmem => (h _ hmem).ne.2.2 rfl

/-! ### A bare word -/

theorem BareWord.split (h : BareWord word) {before after : List Token} {text : Text}
    (heq : readPart false word = before ++ .word text :: after) :
    word = before.flatMap Token.spell ++ (text ++ after.flatMap Token.spell) := by
  rw [← h.spelled.spell, heq, flatMap_append, flatMap_cons]
  rfl

lemma BareWord.operator (h : BareWord word) {op : Text} (hop : op = "AND".toList ∨ op = "NOT".toList)
    (hwf : wellformed ts) (hwithin : readPart false word <:+: ts)
    (hmem : Token.word op ∈ readPart false word) : word = op := by
  have hoperator : Fts5.isOperator (.word op) := by rcases hop with rfl | rfl <;> rfl
  have hletters : ∀ c ∈ op, c ≠ '(' ∧ c ≠ ')' := by
    rcases hop with rfl | rfl <;> exact all_iff_forall_prop.mp (by decide)
  have hne : op ≠ [] := by rcases hop with rfl | rfl <;> decide
  obtain ⟨before, after, heq⟩ := append_of_mem hmem
  have hword := h.split heq
  have horder := h.pairwise
  rw [hword] at horder
  have hbefore : before = [] := by
    rcases eq_nil_or_concat' before with hnil | ⟨front, t, rfl⟩
    · exact hnil
    have hpair : [t, .word op] <:+: readPart false word := ⟨front, after, by rw [heq]; simp⟩
    obtain ⟨c, rfl⟩ := h.spelled.before hpair
    have hends := Fts5.endsOperand_of_wellformed hwf (hpair.trans hwithin) hoperator
    simp only [Fts5.endsOperand, Bool.or_eq_true, decide_eq_true_eq] at hends
    obtain ⟨d, rest, rfl⟩ := exists_cons_of_ne_nil hne
    have hd := ((pairwise_append.mp horder).2.2 c (by simp [Token.spell]) d (by simp)).1 hends
    exact absurd hd (hletters d mem_cons_self).2
  have hafter : after = [] := by
    rcases after with _ | ⟨t, back⟩
    · rfl
    have hpair : [.word op, t] <:+: readPart false word := ⟨before, back, by rw [heq]; simp⟩
    obtain ⟨c, rfl⟩ := h.spelled.after hpair
    have hstarts := Fts5.startsOperand_of_wellformed hwf (hpair.trans hwithin) hoperator
    simp only [Fts5.startsOperand, Bool.or_eq_true, decide_eq_true_eq] at hstarts
    have hc : c ∈ word := by
      rw [hword]
      simp [Token.spell]
    obtain ⟨d, rest, rfl⟩ := exists_cons_of_ne_nil hne
    have hd := (pairwise_append.mp (pairwise_append.mp horder).2.1).2.2 d
      mem_cons_self c (by simp [Token.spell])
    rcases hstarts with ((rfl | rfl) | rfl) | rfl
    · exact absurd (hd.2 rfl) (hletters d mem_cons_self).1
    all_goals exact absurd (h.punctuation hc rfl) (by decide)
  rw [hword, hbefore, hafter]
  exact append_nil op

lemma restricts_bare (h : BareWord word) (hwf : wellformed ts)
    (hwithin : readPart false word <:+: ts) (hAnd : word ≠ "AND".toList) (hNot : word ≠ "NOT".toList) :
    restricts (readPart false word) = false := by
  have hnear : Fts5.adjacent (.word "NEAR".toList) (.symbol '(') (readPart false word) = false := by
    rw [Bool.eq_false_iff, ne_eq, Fts5.adjacent_eq_true]
    rintro ⟨before, after, heq⟩
    have hsplit : readPart false word =
        before ++ .word "NEAR".toList :: (.symbol '(' :: after) := by rw [← heq]; simp
    have hword := h.split hsplit
    have horder := h.pairwise
    rw [hword] at horder
    have hr := (pairwise_append.mp (pairwise_append.mp horder).2.1).2.2 'R' (by decide) '('
      (by simp [Token.spell])
    exact absurd (hr.2 rfl) (by decide)
  rw [restricts, hnear, Bool.or_false, Bool.or_eq_false_iff]
  constructor
  · rw [Bool.eq_false_iff, ne_eq, contains_iff_mem]
    exact fun hmem => hAnd (h.operator (.inl rfl) hwf hwithin hmem)
  · rw [Bool.eq_false_iff, ne_eq, contains_iff_mem]
    exact fun hmem => hNot (h.operator (.inr rfl) hwf hwithin hmem)

lemma dropWhile_opens {opens s : Text} (hopens : ∀ c ∈ opens, c = '(')
    (hs : s.head? ≠ some '(') : (opens ++ s).dropWhile (· = '(') = s := by
  induction opens with
  | nil =>
    refine Strings.dropWhile_eq_self fun c hc => ?_
    rw [decide_eq_false_iff_not]
    rintro rfl
    exact hs hc
  | cons c opens ih =>
    obtain ⟨rfl, htail⟩ := forall_mem_cons.mp hopens
    exact ih htail

lemma endsInNear_iff : endsInNear word ↔ word.dropWhile (· = '(') = "NEAR".toList ∨
    word.dropWhile (· = '(') = "title:NEAR".toList ∨
      word.dropWhile (· = '(') = "body:NEAR".toList := by
  simp only [endsInNear, Bool.or_eq_true, decide_eq_true_eq, or_assoc]

lemma endsInNear_kept (h : endsInNear word) :
    prepareFts5Token U word = [word] ∧ isQuotedVerbatim (peelParens word) = false ∧
      (readPart false word).getLast? = some (.word "NEAR".toList) := by
  obtain ⟨inner, hinner, hknown⟩ : ∃ inner, word.dropWhile (· = '(') = inner ∧
      (inner = "NEAR".toList ∨ inner = "title:NEAR".toList ∨ inner = "body:NEAR".toList) := by
    exact ⟨_, rfl, endsInNear_iff.mp h⟩
  have hword : word = word.takeWhile (· = '(') ++ inner := by
    rw [← hinner, takeWhile_append_dropWhile]
  have hopens : ∀ c ∈ word.takeWhile (· = '('), c = '(' := by
    intro c hc
    simpa using Strings.of_mem_takeWhile hc
  have hpeel : peelParens word = inner := by
    rw [peelParens, innerText, hinner]
    rcases hknown with rfl | rfl | rfl <;> rfl
  refine ⟨prepareFts5Token_kept ?_, ?_, ?_⟩
  · rw [hpeel]
    rcases hknown with rfl | rfl | rfl <;> rfl
  · rw [hpeel]
    rcases hknown with rfl | rfl | rfl <;> rfl
  · rw [hword, readPart_opens hopens]
    rcases hknown with rfl | rfl | rfl
    all_goals exact getLast?_append_of_ne_nil _ (by decide)

lemma append_cons_right_inj {c : Char} {a b a' b' : Text} (h : a ++ c :: b = a' ++ c :: b')
    (hb : c ∉ b) (hb' : c ∉ b') : b = b' := by
  rcases append_eq_append_iff.mp h with ⟨s, -, hs⟩ | ⟨s, -, hs⟩
  · cases s with
    | nil => exact (List.cons.inj hs).2
    | cons d s => exact absurd ((List.cons.inj hs).2 ▸ by simp) hb
  · cases s with
    | nil => exact (List.cons.inj hs).2.symm
    | cons d s => exact absurd ((List.cons.inj hs).2 ▸ by simp) hb'

lemma BareWord.column_near (h : BareWord word) {front : Text}
    (hword : word = front ++ [':'] ++ "NEAR".toList) :
    word.dropWhile (· = '(') = "title:NEAR".toList ∨
      word.dropWhile (· = '(') = "body:NEAR".toList := by
  have hclose : closeParens word = [] := by
    rcases eq_nil_or_concat' (closeParens word) with hnil | ⟨closes, c, heq⟩
    · exact hnil
    have hc : c = ')' := closeParens_paren c (by rw [heq]; simp)
    have hlast : word.getLast? = some c := by
      rw [← peelParens_append word, heq, ← append_assoc, getLast?_concat]
    rw [hword, getLast?_append_of_ne_nil _ (by decide), hc] at hlast
    cases hlast
  have hpeel : word = openParens word ++ peelParens word := by
    have happend := peelParens_append word
    rw [hclose, append_nil] at happend
    exact happend.symm
  have hcolon : ':' ∈ peelParens word := by
    have hmem : ':' ∈ word := by
      rw [hword]
      simp
    rw [hpeel] at hmem
    refine (mem_append.mp hmem).resolve_left fun hopen => ?_
    exact absurd (openParens_paren _ hopen) (by decide)
  obtain ⟨column, term, heq, hknown, hterm⟩ := h.bare.column hcolon
  have hsame : term = "NEAR".toList := by
    have happend : (openParens word ++ column) ++ ':' :: term = front ++ ':' :: "NEAR".toList := by
      rw [append_assoc, ← heq, ← hpeel, hword, append_assoc]
      rfl
    exact append_cons_right_inj happend hterm (by decide)
  have hdrop : word.dropWhile (· = '(') = column ++ ':' :: "NEAR".toList := by
    rw [hpeel, heq, hsame]
    refine dropWhile_opens openParens_paren ?_
    rcases hknown with rfl | rfl <;> decide
  rw [hdrop]
  rcases hknown with rfl | rfl
  · exact .inl rfl
  · exact .inr rfl

lemma BareWord.near (h : BareWord word) (hlegal : ∀ t ∈ readPart false word, Fts5.isLegal t = true)
    (hlast : (readPart false word).getLast? = some (.word "NEAR".toList)) : endsInNear word := by
  obtain ⟨before, heq⟩ := getLast?_eq_some_iff.mp hlast
  have hword := h.split heq
  rw [flatMap_nil, append_nil] at hword
  have horder := h.pairwise
  rw [hword] at horder
  rw [endsInNear_iff]
  rcases eq_nil_or_concat' before with rfl | ⟨front, t, rfl⟩
  · left
    rw [hword]
    rfl
  have hpair : [t, .word "NEAR".toList] <:+: readPart false word :=
    ⟨front, [], by rw [heq]; simp⟩
  obtain ⟨c, rfl⟩ := h.spelled.before hpair
  have hc : c ∈ word := by
    rw [hword]
    simp [Token.spell]
  have hspell : (front ++ [Token.symbol c]).flatMap Token.spell = front.flatMap Token.spell ++ [c] := by
    rw [flatMap_append]
    rfl
  rw [hspell] at hword horder
  have hn := (pairwise_append.mp horder).2.2 c (by simp) 'N' (by decide)
  have hsyntax := hlegal (.symbol c) (by rw [heq]; simp)
  have hpunct : isAsciiPunctuation c := by
    have hsymbols : ∀ c ∈ "(){}:,+*-^".toList, isAsciiPunctuation c = true :=
      all_iff_forall_prop.mp (by decide)
    exact hsymbols c (contains_iff_mem.mp hsyntax)
  rcases h.punctuation hc hpunct with rfl | rfl | rfl | rfl
  · left
    have hfront : ∀ d ∈ front.flatMap Token.spell ++ ['('], d = '(' := by
      intro d hd
      rcases mem_append.mp hd with hd | hd
      · exact ((pairwise_append.mp (pairwise_append.mp horder).1).2.2 d hd '(' mem_cons_self).2 rfl
      · exact mem_singleton.mp hd
    rw [hword]
    exact dropWhile_opens hfront (by decide)
  · exact absurd (hn.1 (.inl rfl)) (by decide)
  · exact absurd (hn.1 (.inr rfl)) (by decide)
  · right
    exact h.column_near hword

lemma readParts_even (hsolid : Solid word)
    (hverbatim : isQuotedVerbatim (peelParens word) = false) :
    (BareWord word ∧ prepareFts5Token U word = [word]) ∨
      ∀ part ∈ prepareFts5Token U word, ∀ t ∈ readPart false part, IsHarmless t := by
  rcases prepareFts5Core_cases U (peelParens word) with ⟨htrue, -⟩ | ⟨-, hquoted | hcolumn | hbare⟩
  · rw [hverbatim] at htrue
    cases htrue
  · right
    intro part hpart t ht
    obtain ⟨core, hcore, hwrapped⟩ := mem_prepareFts5Token hpart
    obtain ⟨token, rfl⟩ := hquoted core hcore
    exact .inl (readPart_quoted hwrapped t ht)
  · right
    intro part hpart t ht
    obtain ⟨core, hcore, hwrapped⟩ := mem_prepareFts5Token hpart
    obtain ⟨column, term, -, -, hknown, heq⟩ := hcolumn
    rw [heq] at hcore
    rw [mem_singleton.mp hcore] at hwrapped
    rcases readPart_column hknown hwrapped t ht with ht | rfl | rfl
    · exact .inl ht
    · rcases hknown with rfl | rfl
      · exact .inr (.inl rfl)
      · exact .inr (.inr (.inl rfl))
    · exact .inr (.inr (.inr rfl))
  · exact .inl ⟨⟨hbare.1, hsolid⟩, prepareFts5Token_kept hbare.2⟩

lemma restricts_readParts_opened {parts : List Text}
    (hinside : ∀ part ∈ parts, inside true part = true) :
    restricts (readParts true parts) = parts.any fun part => restricts (readPart true part) := by
  induction parts with
  | nil => rfl
  | cons part parts ih =>
    obtain ⟨hpart, hparts⟩ := forall_mem_cons.mp hinside
    have hboundary : (readParts true parts).head? ≠ some (.symbol '(') := by
      intro hhead
      have hmem : Token.symbol '(' ∈ (readParts true parts ++
          Fts5.tail (parts.foldl inside true)).head? := by
        rw [head?_append, hhead]
        rfl
      exact (Fts5.head?_readParts_opened parts _ hmem).elim nofun nofun
    rw [readParts, hpart, Fts5.restricts_append, ih hparts, any_cons,
      decide_eq_false hboundary, Bool.and_false, Bool.or_false]

lemma restricts_word (opened : Bool) (hsolid : Solid word) (hwf : wellformed ts)
    (hwithin : readParts opened (prepareFts5Token U word) <:+: ts)
    (hAnd : word ≠ "AND".toList) (hNot : word ≠ "NOT".toList) :
    restricts (readParts opened (prepareFts5Token U word)) = conceals U restricts opened word := by
  cases hverbatim : isQuotedVerbatim (peelParens word) with
  | true =>
    rw [conceals, hverbatim, prepareFts5Token_verbatim hverbatim, readParts_singleton]
    simp
  | false =>
    cases opened with
    | true =>
      rw [conceals, Bool.true_or, Bool.true_and]
      exact restricts_readParts_opened fun part hpart => inside_prepareFts5Token true hpart hverbatim
    | false =>
      rw [conceals, hverbatim, Bool.or_false, Bool.false_and]
      rcases readParts_even hsolid hverbatim with ⟨hbare, heq⟩ | hharmless
      · rw [heq, readParts_singleton] at hwithin ⊢
        exact restricts_bare hbare hwf hwithin hAnd hNot
      · refine restricts_harmless fun t ht => ?_
        obtain ⟨part, hpart, ht⟩ :=
          mem_readParts (fun part hpart => inside_prepareFts5Token false hpart hverbatim) ht
        exact hharmless part hpart t ht

lemma getLast?_verbatim {opened : Bool} (hverbatim : isQuotedVerbatim (peelParens word))
    (hclosed : inside opened word = false) :
    (readPart opened word).getLast? ≠ some (.word "NEAR".toList) := by
  simp only [isQuotedVerbatim, Bool.and_eq_true, decide_eq_true_eq] at hverbatim
  obtain ⟨core, hcore⟩ := getLast?_eq_some_iff.mp hverbatim.2
  have hquote : '"' ∉ closeParens word := fun hc => absurd (closeParens_paren _ hc) (by decide)
  have hword : word = (openParens word ++ core) ++ '"' :: closeParens word := by
    have happend := peelParens_append word
    rw [hcore] at happend
    simpa using happend.symm
  have hinner : inside opened ((openParens word ++ core) ++ ['"']) = false := by
    rw [hword, append_cons, Fts5.inside_append, Fts5.inside_of_notMem _ hquote] at hclosed
    exact hclosed
  have hhead : (closeParens word).head? ≠ some '"' :=
    fun hc => hquote (mem_of_mem_head? hc)
  rw [hword, Fts5.readPart_closed hinner hhead]
  intro hlast
  have hparens : ∀ t ∈ readPart false (closeParens word), IsQuotedToken t := by
    have hcloses : ∀ c ∈ closeParens word, c = ')' := closeParens_paren
    have hnil := ReadsQuoted.nil.parens (.inr rfl) hcloses
    rw [append_nil] at hnil
    exact hnil.readPart
  have hmem : Token.word "NEAR".toList ∈ Token.phrase :: readPart false (closeParens word) := by
    rw [getLast?_append_of_ne_nil _ (cons_ne_nil _ _)] at hlast
    exact mem_of_mem_getLast? hlast
  rcases mem_cons.mp hmem with heq | hmem
  · cases heq
  · exact (IsHarmless.ne (.inl (hparens _ hmem))).2.2 rfl

lemma getLast?_word {opened : Bool} (hsolid : Solid word) (hwf : wellformed ts)
    (hwithin : readParts opened (prepareFts5Token U word) <:+: ts)
    (hclosed : (opened ^^ leavesOpen word) = false) :
    (readParts opened (prepareFts5Token U word)).getLast? = some (.word "NEAR".toList) ↔
      opened = false ∧ endsInNear word := by
  cases hverbatim : isQuotedVerbatim (peelParens word) with
  | true =>
    rw [prepareFts5Token_verbatim hverbatim, readParts_singleton]
    have hinside : inside opened word = false := by
      rw [leavesOpen, hverbatim, Bool.true_and] at hclosed
      rw [Fts5.inside_xor, hclosed]
    refine iff_of_false (getLast?_verbatim hverbatim hinside) fun hnear => ?_
    rw [(endsInNear_kept (U := U) hnear.2).2.1] at hverbatim
    cases hverbatim
  | false =>
    have hopened : opened = false := by
      rwa [leavesOpen, hverbatim, Bool.false_and, Bool.xor_false] at hclosed
    subst hopened
    rw [and_iff_right rfl]
    constructor
    · intro hlast
      rcases readParts_even hsolid hverbatim with ⟨hbare, heq⟩ | hharmless
      · rw [heq, readParts_singleton] at hwithin hlast
        exact hbare.near (fun t ht => Fts5.legal_of_wellformed hwf t (hwithin.subset ht)) hlast
      · obtain ⟨part, hpart, ht⟩ := mem_readParts
          (fun part hpart => inside_prepareFts5Token false hpart hverbatim)
          (mem_of_mem_getLast? hlast)
        exact absurd rfl (hharmless part hpart _ ht).ne.2.2
    · intro hnear
      obtain ⟨heq, -, hlast⟩ := endsInNear_kept (U := U) hnear
      rw [heq, readParts_singleton, hlast]

lemma cons_of_mem_prepareFts5Token (hsolid : Solid word) (h : part ∈ prepareFts5Token U word) :
    ∃ c s, part = c :: s ∧ Fts5.isSpace c = false := by
  obtain ⟨core, hcore, opens, closes, rfl, hopens, -⟩ := mem_prepareFts5Token h
  rcases opens with _ | ⟨c, opens⟩
  swap
  · refine ⟨c, _, rfl, ?_⟩
    rw [hopens c mem_cons_self]
    rfl
  have hkept : ∀ core, core = peelParens word → ∃ c s, core = c :: s ∧ Fts5.isSpace c = false := by
    rintro core rfl
    obtain ⟨c, s, hpeel⟩ := exists_cons_of_ne_nil (peelParens_ne_nil hsolid.1)
    refine ⟨c, s, hpeel, ?_⟩
    rw [Bool.eq_false_iff]
    intro hspace
    have hblank := hsolid.2 c (mem_of_mem_peelParens (by rw [hpeel]; exact mem_cons_self))
    rw [isWhitespace_of_isSpace hspace] at hblank
    cases hblank
  obtain ⟨c, s, rfl, hc⟩ : ∃ c s, core = c :: s ∧ Fts5.isSpace c = false := by
    rcases prepareFts5Core_cases U (peelParens word) with ⟨-, heq⟩ | ⟨-, hquoted | hcolumn | hbare⟩
    · rw [heq] at hcore
      exact hkept core (mem_singleton.mp hcore)
    · obtain ⟨token, rfl⟩ := hquoted core hcore
      by_cases hquote : '"' ∈ token
      · rw [quoteFts5Token, if_pos (by simpa using hquote)]
        exact ⟨_, _, rfl, rfl⟩
      · rcases quoteFts5Token_cases (U := U) hquote with heq | heq
        · exact ⟨_, _, heq, rfl⟩
        · exact ⟨_, _, heq, rfl⟩
    · obtain ⟨column, term, -, -, hknown, heq⟩ := hcolumn
      rw [heq] at hcore
      rw [mem_singleton.mp hcore]
      rcases hknown with rfl | rfl
      · exact ⟨_, _, rfl, rfl⟩
      · exact ⟨_, _, rfl, rfl⟩
    · rw [hbare.2] at hcore
      exact hkept core (mem_singleton.mp hcore)
  exact ⟨c, s ++ closes, rfl, hc⟩

variable {words : List Text}

lemma head?_words (hsolid : ∀ word ∈ words, Solid word) :
    (readParts false (words.flatMap (prepareFts5Token U)) ++
      Fts5.tail ((words.flatMap (prepareFts5Token U)).foldl inside false)).head? =
        some (.symbol '(') ↔ opensGroup U words := by
  rw [opensGroup]
  have hcons : ∀ part ∈ words.flatMap (prepareFts5Token U),
      ∃ c s, part = c :: s ∧ Fts5.isSpace c = false := by
    intro part hpart
    obtain ⟨word, hword, hpart⟩ := mem_flatMap.mp hpart
    exact cons_of_mem_prepareFts5Token (hsolid word hword) hpart
  generalize words.flatMap (prepareFts5Token U) = parts at hcons
  cases parts with
  | nil => exact iff_of_false nofun (by decide)
  | cons part parts =>
    obtain ⟨c, s, rfl, hc⟩ := hcons part mem_cons_self
    rw [Fts5.head?_readParts_paren hc]
    simp

lemma restricts_words (opened : Bool) (hsolid : ∀ word ∈ words, Solid word)
    (hplain : ∀ word ∈ words, word ≠ "AND".toList ∧ word ≠ "NOT".toList) (hwf : wellformed ts)
    (hwithin : readParts opened (words.flatMap (prepareFts5Token U)) ++
      Fts5.tail ((words.flatMap (prepareFts5Token U)).foldl inside opened) <:+: ts) :
    restricts (readParts opened (words.flatMap (prepareFts5Token U)) ++
        Fts5.tail ((words.flatMap (prepareFts5Token U)).foldl inside opened)) =
      (concealed U restricts opened words || nearGroup U opened words) := by
  induction words generalizing opened with
  | nil => cases opened <;> rfl
  | cons word words ih =>
    obtain ⟨hword, hsolid⟩ := forall_mem_cons.mp hsolid
    obtain ⟨⟨hAnd, hNot⟩, hplain⟩ := forall_mem_cons.mp hplain
    rw [flatMap_cons, Fts5.readParts_append, foldl_append, append_assoc,
      foldl_inside_prepareFts5Token] at hwithin ⊢
    have hfirst := (prefix_append _ _).isInfix.trans hwithin
    have hrest := (suffix_append _ _).isInfix.trans hwithin
    have hboundary : (decide ((readParts opened (prepareFts5Token U word)).getLast? =
          some (.word "NEAR".toList)) &&
        decide ((readParts (opened ^^ leavesOpen word) (words.flatMap (prepareFts5Token U)) ++
          Fts5.tail ((words.flatMap (prepareFts5Token U)).foldl inside
            (opened ^^ leavesOpen word))).head? = some (.symbol '('))) =
        (!opened && endsInNear word && opensGroup U words) := by
      rw [Bool.eq_iff_iff]
      simp only [Bool.and_eq_true, decide_eq_true_eq, Bool.not_eq_true']
      cases hclosed : opened ^^ leavesOpen word with
      | true =>
        refine iff_of_false (fun h => ?_) fun h => ?_
        · exact (Fts5.head?_readParts_opened _ _ h.2).elim nofun nofun
        · rw [h.1.1, leavesOpen, (endsInNear_kept (U := U) h.1.2).2.1] at hclosed
          cases hclosed
      | false =>
        rw [getLast?_word hword hwf hfirst hclosed, head?_words hsolid]
    rw [Fts5.restricts_append, hboundary, restricts_word opened hword hwf hfirst hAnd hNot,
      ih _ hsolid hplain hrest, concealed, nearGroup]
    simp only [Bool.or_assoc, Bool.or_comm]

lemma restricts_orSeparator {parts : List Text}
    (hinside : ∀ part ∈ parts, inside false part = false)
    (h : ∀ part ∈ parts, restricts (readPart false part) = false) :
    restricts (lex (orSeparator.intercalate parts)) = false := by
  rw [intercalate_orSeparator, Fts5.lex_intercalate, foldl_inside (inside_intersperse hinside)]
  show restricts (_ ++ []) = false
  rw [append_nil]
  induction parts with
  | nil => rfl
  | cons part parts ih =>
    obtain ⟨hpart, hparts⟩ := forall_mem_cons.mp hinside
    obtain ⟨hfirst, hrest⟩ := forall_mem_cons.mp h
    cases parts with
    | nil =>
      rw [intersperse_singleton, readParts_singleton]
      exact hfirst
    | cons other parts =>
      have hor : readParts false ((part :: other :: parts).intersperse ['O', 'R']) =
          readPart false part ++ ([.word ['O', 'R']] ++
            readParts false ((other :: parts).intersperse ['O', 'R'])) := by
        rw [intersperse_cons_cons, readParts, hpart]
        rfl
      rw [hor, Fts5.restricts_append, Fts5.restricts_append, hfirst, ih hparts hrest]
      simp [restricts, Fts5.adjacent]

/-! ### Characters of the prepared query -/

/-- The characters that the preparation adds. -/
def added : Text := " :\"*()OR".toList

lemma quoteFts5Token_subset (U : CharTables) (token : Text) :
    quoteFts5Token U token ⊆ token ++ added := by
  have hadd : ∀ {s : Text}, s ⊆ added → s ⊆ token ++ added := fun h =>
    Subset.trans h (subset_append_right token added)
  have hone : ∀ {c : Char}, c ∈ added → c ∈ token ++ added := fun h => mem_append_right token h
  by_cases hquote : '"' ∈ token
  · have hdouble : Fts5.double token ⊆ token ++ added := by
      intro c hc
      obtain ⟨d, hd, hc⟩ := mem_flatMap.mp hc
      split at hc
      · exact hadd (by decide : ['"', '"'] ⊆ added) hc
      · exact mem_append_left added (mem_singleton.mp hc ▸ hd)
    rw [quoteFts5Token, if_pos (by simpa using hquote)]
    exact cons_subset.mpr ⟨hone (by decide), append_subset.mpr ⟨hdouble, hadd (by decide)⟩⟩
  · obtain ⟨happend, hstar⟩ := prefixStar_append U token
    have hfirst : (prefixStar U token).1 ⊆ token ++ added := fun c hc =>
      mem_append_left added (happend ▸ mem_append_left _ hc)
    have hstar : '"' :: (prefixStar U token).2 ⊆ token ++ added := by
      rcases hstar with heq | heq <;> rw [heq] <;> exact hadd (by decide)
    have hsplit : splitPunctuation (prefixStar U token).1 ⊆ token ++ added := fun c hc =>
      (mem_splitPunctuation hc).elim (fun h => hone (h ▸ by decide)) fun h => hfirst h
    have hphrase : ∀ s, s ⊆ token ++ added → '"' :: (s ++ '"' :: (prefixStar U token).2) ⊆
        token ++ added := fun s hs =>
      cons_subset.mpr ⟨hone (by decide), append_subset.mpr ⟨hs, hstar⟩⟩
    rcases quoteFts5Token_cases hquote with heq | heq
    · rw [heq]
      exact hphrase _ hfirst
    · rw [heq]
      refine cons_subset.mpr ⟨hone (by decide), append_subset.mpr ⟨append_subset.mpr ⟨append_subset.mpr
        ⟨hphrase _ hfirst, ?_⟩, hphrase _ hsplit⟩, hadd (by decide)⟩⟩
      exact hadd (by decide)

lemma prepareFts5Core_subset {core : Text} (h : part ∈ prepareFts5Core U core) :
    part ⊆ core ++ added := by
  have hquoted : ∀ token : Text, token ⊆ core ++ added → quoteFts5Token U token ⊆ core ++ added :=
    fun token htoken => Subset.trans (quoteFts5Token_subset U token)
      (append_subset.mpr ⟨htoken, subset_append_right core added⟩)
  rw [prepareFts5Core] at h
  split at h
  · obtain ⟨token, htoken, rfl⟩ := mem_map.mp h
    refine hquoted token fun c hc => ?_
    obtain ⟨d, hd, rfl⟩ := mem_map.mp ((mem_splitWhitespace htoken).2 c hc)
    split
    · exact mem_append_right core (by decide)
    · exact mem_append_left added hd
  · split at h
    · rename_i column term hcolumn
      obtain ⟨hcore, -, -⟩ := quotedColumn_some hcolumn
      have hcolumn : column ⊆ core ++ added := fun c hc =>
        mem_append_left added (hcore ▸ mem_append_left _ hc)
      have hterm : term ⊆ core ++ added := fun c hc =>
        mem_append_left added (hcore ▸ mem_append_right column (mem_cons_of_mem _ hc))
      rw [mem_singleton.mp h]
      exact append_subset.mpr ⟨hcolumn, cons_subset.mpr ⟨mem_append_right core (by decide),
        hquoted term hterm⟩⟩
    · split at h
      · rw [mem_singleton.mp h]
        exact hquoted core (subset_append_left core added)
      · rw [mem_singleton.mp h]
        exact subset_append_left core added

lemma prepareFts5Token_subset (h : part ∈ prepareFts5Token U word) : part ⊆ word ++ added := by
  obtain ⟨core, hcore, opens, closes, rfl, hopens, hcloses⟩ := mem_prepareFts5Token h
  have hpeel : peelParens word ⊆ word := by
    rw [peelParens]
    split
    · exact Subset.refl _
    · exact fun c hc => (dropWhile_sublist _).subset (Strings.mem_of_mem_trimEndBy hc)
  have hcore := Subset.trans (prepareFts5Core_subset hcore) (append_subset.mpr
    ⟨Subset.trans hpeel (subset_append_left word added), subset_append_right word added⟩)
  refine append_subset.mpr ⟨fun c hc => ?_, append_subset.mpr ⟨hcore, fun c hc => ?_⟩⟩
  · rw [hopens c hc]
    exact mem_append_right word (by decide)
  · rw [hcloses c hc]
    exact mem_append_right word (by decide)

variable {stopwords : FtsStopwords} {parses : Text → Bool} {raw : Text}

/-- A bounded query has no NUL, and its preparation adds none. -/
theorem nul_notMem_ftsCandidate (U : CharTables) (stopwords : FtsStopwords) (raw : Text) :
    '\x00' ∉ ftsCandidate U stopwords (boundedQueryText raw) := by
  have hbounded : '\x00' ∉ boundedQueryText raw := by
    intro hmem
    obtain ⟨c, -, hc⟩ := mem_map.mp hmem
    split at hc
    · cases hc
    · contradiction
  have hparts : ∀ part ∈ ftsTokens U stopwords (boundedQueryText raw), '\x00' ∉ part := by
    intro part hpart hmem
    obtain ⟨word, hword, hpart⟩ := mem_ftsTokens hpart
    rcases mem_append.mp (prepareFts5Token_subset hpart hmem) with hin | hin
    · exact hbounded ((mem_splitWhitespace hword).2 _ hin)
    · exact absurd hin (by decide)
  intro hmem
  rw [ftsCandidate] at hmem
  split at hmem
  · rcases mem_intercalate hmem with heq | ⟨part, hpart, hin⟩
    · cases heq
    · exact hparts part hpart hin
  · rw [intercalate_orSeparator] at hmem
    rcases mem_intercalate hmem with heq | ⟨part, hpart, hin⟩
    · cases heq
    · rcases mem_intersperse hpart with rfl | hpart
      · exact absurd hin (by decide)
      · exact hparts part hpart hin

lemma restricts_wordBag : restricts (lex (wordBag U stopwords raw)) = false := by
  obtain ⟨kept, heq, -, -⟩ := wordBag_eq U stopwords raw
  rw [heq]
  refine restricts_orSeparator (forall_mem_map.mpr fun word _ => ?_)
    (forall_mem_map.mpr fun word _ => ?_)
  · exact inside_quoteFts5Token false word
  · exact restricts_harmless fun t ht => .inl (readPart_quoted (.self _) t ht)

lemma restricts_ftsCandidate (hwf : wellformed (lex (ftsCandidate U stopwords raw)))
    (hdeclined : (splitWhitespace raw).any isExcludingOperator = false) :
    restricts (lex (ftsCandidate U stopwords raw)) =
      (concealed U restricts false (splitWhitespace raw) ||
        explicitSyntax raw && nearGroup U false (splitWhitespace raw)) := by
  have hsolid : ∀ word ∈ splitWhitespace raw, Solid word :=
    fun word hword => (mem_splitWhitespace hword).1
  rw [ftsCandidate] at hwf ⊢
  cases hexplicit : explicitSyntax raw with
  | true =>
    have hplain : ∀ word ∈ splitWhitespace raw, word ≠ "AND".toList ∧ word ≠ "NOT".toList := by
      intro word hword
      have hno := any_eq_false.mp hdeclined word hword
      simp only [isExcludingOperator, Bool.or_eq_true, decide_eq_true_eq, not_or] at hno
      exact ⟨hno.1.1, hno.1.2⟩
    rw [hexplicit, if_pos rfl, ftsTokens_explicit hexplicit, Fts5.lex_intercalate] at hwf
    rw [if_pos rfl, ftsTokens_explicit hexplicit, Fts5.lex_intercalate, Bool.true_and]
    exact restricts_words false hsolid hplain hwf infix_rfl
  | false =>
    have hbare := plain_of_bare hexplicit
    rw [concealed_eq_false fun word hword => (hbare word hword).1]
    rw [hexplicit, if_neg Bool.false_ne_true] at hwf
    rw [if_neg Bool.false_ne_true]
    have hinside : ∀ part ∈ ftsTokens U stopwords raw, inside false part = false := by
      intro part hpart
      obtain ⟨word, hword, hpart⟩ := mem_ftsTokens hpart
      exact inside_prepareFts5Token false hpart (hbare word hword).1
    refine restricts_orSeparator hinside fun part hpart => ?_
    have hwithin : readPart false part <:+: lex (orSeparator.intercalate (ftsTokens U stopwords raw)) := by
      rw [intercalate_orSeparator, Fts5.lex_intercalate]
      exact (readPart_infix_intersperse hinside hpart).trans (prefix_append _ _).isInfix
    obtain ⟨word, hword, hmem⟩ := mem_ftsTokens hpart
    obtain ⟨hverbatim, hAnd, hNot⟩ := hbare word hword
    rcases readParts_even (U := U) (hsolid word hword) hverbatim with ⟨hbareWord, heq⟩ | hharmless
    · rw [heq] at hmem
      rw [mem_singleton.mp hmem] at hwithin ⊢
      exact restricts_bare hbareWord hwf hwithin hAnd hNot
    · exact restricts_harmless (hharmless part hmem)

/-- The stream of ideographs declines what the main query restricts exactly when the query has an
operator as a word or no ideograph, when FTS5 does not take it as it is, or when no word conceals an
operator. -/
theorem cjk_declines_iff (stopwords : FtsStopwords)
    (hgrammar : ∀ query, '\x00' ∉ query → parses query = true → isFullText query = true →
      wellformed (lex query) = true) (raw : Text) :
    (isFullText (prepareFts5Query U stopwords parses raw) = true →
      restricts (lex (prepareFts5Query U stopwords parses raw)) = true →
        prepareCjkFts5Query U raw = none) ↔
    (splitWhitespace (boundedQueryText raw)).any isExcludingOperator = true ∨
      (∀ c ∈ boundedQueryText raw, isCjk U c = false) ∨
      parses (ftsCandidate U stopwords (boundedQueryText raw)) = false ∨
      isFullText (ftsCandidate U stopwords (boundedQueryText raw)) = false ∨
      (concealed U restricts false (splitWhitespace (boundedQueryText raw)) = false ∧
        (explicitSyntax (boundedQueryText raw) = true →
          nearGroup U false (splitWhitespace (boundedQueryText raw)) = false)) := by
  rw [prepareCjkFts5Query_eq_none]
  by_cases hdeclined : (splitWhitespace (boundedQueryText raw)).any isExcludingOperator = true
  · exact iff_of_true (fun _ _ => .inl hdeclined) (.inl hdeclined)
  by_cases hcjk : ∀ c ∈ boundedQueryText raw, isCjk U c = false
  · exact iff_of_true (fun _ _ => .inr hcjk) (.inr (.inl hcjk))
  rw [or_iff_right hdeclined, or_iff_right hdeclined, or_iff_right hcjk]
  have hdeclined : (splitWhitespace (boundedQueryText raw)).any isExcludingOperator = false := by
    simpa using hdeclined
  have hoperators : wellformed (lex (ftsCandidate U stopwords (boundedQueryText raw))) = true →
      (restricts (lex (ftsCandidate U stopwords (boundedQueryText raw))) = false ↔
        concealed U restricts false (splitWhitespace (boundedQueryText raw)) = false ∧
          (explicitSyntax (boundedQueryText raw) = true →
            nearGroup U false (splitWhitespace (boundedQueryText raw)) = false)) := by
    intro hwf
    rw [restricts_ftsCandidate hwf hdeclined, Bool.or_eq_false_iff]
    cases explicitSyntax (boundedQueryText raw) <;> simp
  rw [prepareFts5Query]
  split
  · -- nothing to ask for
    rename_i hnil
    have hcandidate : ftsCandidate U stopwords (boundedQueryText raw) = [] := by
      rw [ftsCandidate, hnil]
      rfl
    refine iff_of_true (fun _ h => by cases h) (.inr (.inr ?_))
    rw [← hoperators (by rw [hcandidate]; rfl), hcandidate]
    rfl
  split
  · rename_i hparses
    cases hfull : isFullText (ftsCandidate U stopwords (boundedQueryText raw)) with
    | false => exact iff_of_true (fun h => by cases h) (.inr (.inl rfl))
    | true =>
      rw [hparses, ← hoperators (hgrammar _ (nul_notMem_ftsCandidate U stopwords raw) hparses hfull)]
      simp [hcjk]
  · rename_i hparses
    refine iff_of_true (fun _ h => ?_) (.inl (by simpa using hparses))
    rw [restricts_wordBag] at h
    cases h

def cityTables : CharTables := tablesWith "東京大阪"

def acceptsOperators (query : Text) : Bool := wellformed (lex query)

def attachedNot : Text := "\"東京\"NOT\"大阪\"".toList

theorem cjk_declines_attachedNot :
    (isFullText (prepareFts5Query cityTables .none acceptsOperators attachedNot) = true →
      restricts (lex (prepareFts5Query cityTables .none acceptsOperators attachedNot)) = true →
        prepareCjkFts5Query cityTables attachedNot = none) ↔
    (splitWhitespace (boundedQueryText attachedNot)).any isExcludingOperator = true ∨
      (∀ c ∈ boundedQueryText attachedNot, isCjk cityTables c = false) ∨
      acceptsOperators (ftsCandidate cityTables .none (boundedQueryText attachedNot)) = false ∨
      isFullText (ftsCandidate cityTables .none (boundedQueryText attachedNot)) = false ∨
      (concealed cityTables restricts false (splitWhitespace (boundedQueryText attachedNot)) = false ∧
        (explicitSyntax (boundedQueryText attachedNot) = true →
          nearGroup cityTables false (splitWhitespace (boundedQueryText attachedNot)) = false)) :=
  cjk_declines_iff .none (fun _ _ h _ => h) attachedNot

/-- The main query leaves Osaka out, and the stream of ideographs brings it back. -/
theorem attachedNot_not_declined :
    ¬ (isFullText (prepareFts5Query cityTables .none acceptsOperators attachedNot) = true →
      restricts (lex (prepareFts5Query cityTables .none acceptsOperators attachedNot)) = true →
        prepareCjkFts5Query cityTables attachedNot = none) := by
  decide +kernel

end Store
