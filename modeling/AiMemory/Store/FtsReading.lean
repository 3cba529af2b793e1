/-
What FTS5 reads of a prepared word (`ai-memory-store`, `fts_query.rs`).

A word that is quoted brings phrases only.  A word that starts and ends with a quote is kept as it
is, and so is a word without punctuation.
-/
import AiMemory.Store.FtsQuery

open List
open Strings (isWhitespace)
open Wiki (CharTables)
open Capture (isAsciiPunctuation)
open Fts5 (Token read readPart readParts inside lex)

namespace Store

variable {U : CharTables} {word core part : Text}

/-! ### Parentheses -/

theorem peelParens_append (word : Text) :
    openParens word ++ peelParens word ++ closeParens word = word := by
  rw [openParens, peelParens, closeParens]
  split
  · rw [nil_append, append_nil]
  · obtain ⟨cut, hcut, -⟩ := Strings.trimEndBy_append (· = ')') (word.dropWhile (· = '('))
    have hback : innerText word ++ (word.dropWhile (· = '(')).drop (innerText word).length =
        word.dropWhile (· = '(') := by
      have hcut : word.dropWhile (· = '(') = innerText word ++ cut := hcut
      rw [hcut, drop_left]
    rw [append_assoc, hback, takeWhile_append_dropWhile]

lemma openParens_paren : ∀ c ∈ openParens word, c = '(' := by
  intro c hc
  rw [openParens] at hc
  split at hc
  · cases hc
  · simpa using Strings.of_mem_takeWhile hc

lemma closeParens_paren : ∀ c ∈ closeParens word, c = ')' := by
  intro c hc
  rw [closeParens] at hc
  split at hc
  · cases hc
  · obtain ⟨cut, hcut, hall⟩ := Strings.trimEndBy_append (· = ')') (word.dropWhile (· = '('))
    have hcut : word.dropWhile (· = '(') = innerText word ++ cut := hcut
    rw [hcut, drop_left] at hc
    simpa using hall c hc

lemma peelParens_ne_nil (hne : word ≠ []) : peelParens word ≠ [] := by
  rw [peelParens]
  split
  · exact hne
  · assumption

variable {c : Char} {parts : List Text} {opened : Bool}

lemma mem_of_mem_peelParens (h : c ∈ peelParens word) : c ∈ word := by
  rw [← peelParens_append word]
  exact mem_append_left _ (mem_append_right _ h)

def Wrapped (core part : Text) : Prop :=
  ∃ opens closes, part = opens ++ (core ++ closes) ∧ (∀ c ∈ opens, c = '(') ∧ ∀ c ∈ closes, c = ')'

lemma Wrapped.self (core : Text) : Wrapped core core :=
  ⟨[], [], (append_nil core).symm, forall_mem_nil _, forall_mem_nil _⟩

lemma mem_pushLast {text part : Text}
    (h : part ∈ pushLast text parts) : part ∈ parts ∨ ∃ last ∈ parts, part = last ++ text := by
  fun_induction pushLast text parts with
  | case1 => cases h
  | case2 last => exact .inr ⟨last, mem_cons_self, mem_singleton.mp h⟩
  | case3 first other parts ih =>
    rcases mem_cons.mp h with rfl | h
    · exact .inl mem_cons_self
    · exact (ih h).imp (mem_cons_of_mem _)
        fun ⟨last, hlast, heq⟩ => ⟨last, mem_cons_of_mem _ hlast, heq⟩

lemma mem_prepareFts5Token (h : part ∈ prepareFts5Token U word) :
    ∃ core ∈ prepareFts5Core U (peelParens word), Wrapped core part := by
  have hopened : ∀ part ∈ (prepareFts5Core U (peelParens word)).modifyHead (openParens word ++ ·),
      ∃ core ∈ prepareFts5Core U (peelParens word), part = core ∨ part = openParens word ++ core := by
    intro part hpart
    cases hcore : prepareFts5Core U (peelParens word) with
    | nil =>
      rw [hcore] at hpart
      cases hpart
    | cons first rest =>
      rw [hcore, modifyHead_cons] at hpart
      rcases mem_cons.mp hpart with rfl | hpart
      · exact ⟨first, mem_cons_self, .inr rfl⟩
      · exact ⟨part, mem_cons_of_mem _ hpart, .inl rfl⟩
  have hwrap : ∀ part core closes, (part = core ∨ part = openParens word ++ core) →
      (∀ c ∈ closes, c = ')') → Wrapped core (part ++ closes) := by
    rintro part core closes (rfl | rfl) hcloses
    · exact ⟨[], closes, rfl, forall_mem_nil _, hcloses⟩
    · exact ⟨_, closes, append_assoc _ _ _, openParens_paren, hcloses⟩
  rcases mem_pushLast h with h | ⟨last, hlast, rfl⟩
  · obtain ⟨core, hcore, heq⟩ := hopened part h
    refine ⟨core, hcore, ?_⟩
    have hplain := hwrap part core [] heq (forall_mem_nil _)
    rwa [append_nil] at hplain
  · obtain ⟨core, hcore, heq⟩ := hopened last hlast
    exact ⟨core, hcore, hwrap last core _ heq closeParens_paren⟩

lemma prepareFts5Token_kept (h : prepareFts5Core U (peelParens word) = [peelParens word]) :
    prepareFts5Token U word = [word] := by
  rw [prepareFts5Token, h, modifyHead_cons, pushLast, peelParens_append]

def isKnownColumn (column : Text) : Prop := column = "title".toList ∨ column = "body".toList

structure BareToken (token : Text) : Prop where
  quote : '"' ∉ token
  punctuation : ∀ c ∈ if token.getLast? = some '*' then token.dropLast else token,
    isAsciiPunctuation c = true → c = ':'
  column : ':' ∈ token → ∃ column term, token = column ++ ':' :: term ∧ isKnownColumn column ∧
    ':' ∉ term

lemma isPrefixOf_column (column : Text) {token : Text}
    (h : (column ++ [':']).isPrefixOf token) : ∃ term, token = column ++ ':' :: term := by
  obtain ⟨term, rfl⟩ := isPrefixOf_iff_prefix.mp h
  exact ⟨term, by rw [append_assoc]; rfl⟩

lemma quotedColumn_some {column term : Text} (h : quotedColumn core = some (column, term)) :
    core = column ++ ':' :: term ∧ '"' ∉ core ∧ isKnownColumn column := by
  rw [quotedColumn] at h
  split at h
  · cases h
  · rename_i hquote
    obtain ⟨hsplit, hcolumn⟩ := Option.filter_eq_some_iff.mp h
    obtain ⟨happend, -⟩ := Strings.splitOnce_singleton_eq_some.mp hsplit
    simp only [Bool.and_eq_true, Bool.or_eq_true, decide_eq_true_eq] at hcolumn
    exact ⟨happend, by simpa using hquote, hcolumn.1.1⟩

lemma bareToken_of_kept (hverbatim : isQuotedVerbatim core = false)
    (hunknown : hasUnknownBareColumn core = false) (hcolumn : quotedColumn core = none)
    (hquote : shouldQuoteFts5Token core = false) : BareToken core := by
  have hpunct : ∀ c ∈ if core.getLast? = some '*' then core.dropLast else core,
      isAsciiPunctuation c = true → c = ':' := by
    intro c hc hp
    rw [shouldQuoteFts5Token, hverbatim] at hquote
    simp only [Bool.false_eq_true, if_false, any_eq_false] at hquote
    simpa [hp] using hquote c hc
  have hnoquote : '"' ∉ core := by
    intro hmem
    have hinner : '"' ∈ if core.getLast? = some '*' then core.dropLast else core := by
      split
      · rename_i hlast
        rw [← dropLast_append_getLast? '*' hlast, mem_append] at hmem
        exact hmem.resolve_right (by decide)
      · exact hmem
    exact absurd (hpunct _ hinner rfl) (by decide)
  refine ⟨hnoquote, hpunct, fun hcolon => ?_⟩
  have hcontains : core.contains ':' := by simpa using hcolon
  have hcontainsQuote : core.contains '"' = false := by simpa using hnoquote
  rw [hasUnknownBareColumn, hcontains, hcontainsQuote] at hunknown
  have hknown : ∃ column term, core = column ++ ':' :: term ∧ isKnownColumn column := by
    simp only [Bool.not_false, Bool.and_self, Bool.true_and, Bool.and_eq_false_iff,
      Bool.not_eq_false'] at hunknown
    rcases hunknown with hprefix | hprefix
    · obtain ⟨term, hterm⟩ := isPrefixOf_column "title".toList hprefix
      exact ⟨_, term, hterm, .inl rfl⟩
    · obtain ⟨term, hterm⟩ := isPrefixOf_column "body".toList hprefix
      exact ⟨_, term, hterm, .inr rfl⟩
  obtain ⟨column, term, heq, hknown⟩ := hknown
  refine ⟨column, term, heq, hknown, fun hterm => ?_⟩
  have hplain : ':' ∉ column := by
    rcases hknown with rfl | rfl
    · decide
    · decide
  have hsplit : Strings.splitOnce [':'] core = some (column, term) :=
    Strings.splitOnce_singleton_eq_some.mpr ⟨heq, hplain⟩
  have hne : term ≠ [] := ne_nil_of_mem hterm
  have hquoted : quotedColumn core = some (column, term) := by
    rw [quotedColumn, if_neg (by simpa using hnoquote)]
    refine Option.filter_eq_some_iff.mpr ⟨hsplit, ?_⟩
    simp only [Bool.and_eq_true, Bool.or_eq_true, decide_eq_true_eq]
    exact ⟨⟨hknown, hne⟩, .inr (by simpa using hterm)⟩
  rw [hquoted] at hcolumn
  cases hcolumn

lemma prepareFts5Core_cases (U : CharTables) (core : Text) :
    (isQuotedVerbatim core ∧ prepareFts5Core U core = [core]) ∨
    (isQuotedVerbatim core = false ∧
      ((∀ part ∈ prepareFts5Core U core, ∃ token, part = quoteFts5Token U token) ∨
      (∃ column term, core = column ++ ':' :: term ∧ '"' ∉ core ∧ isKnownColumn column ∧
        prepareFts5Core U core = [column ++ ':' :: quoteFts5Token U term]) ∨
      (BareToken core ∧ prepareFts5Core U core = [core]))) := by
  cases hverbatim : isQuotedVerbatim core with
  | true =>
    left
    have hquote : core.contains '"' := by
      simp only [isQuotedVerbatim, Bool.and_eq_true, decide_eq_true_eq] at hverbatim
      simpa using mem_of_mem_head? (Option.mem_def.mpr hverbatim.1)
    have hunknown : hasUnknownBareColumn core = false := by
      rw [hasUnknownBareColumn, hquote]
      simp
    have hcolumn : quotedColumn core = none := by rw [quotedColumn, if_pos hquote]
    have hshould : shouldQuoteFts5Token core = false := by simp [shouldQuoteFts5Token, hverbatim]
    exact ⟨rfl, by simp [prepareFts5Core, hunknown, hcolumn, hshould]⟩
  | false =>
    refine .inr ⟨rfl, ?_⟩
    rw [prepareFts5Core]
    split
    · left
      intro part hpart
      obtain ⟨token, -, rfl⟩ := mem_map.mp hpart
      exact ⟨token, rfl⟩
    rename_i hunknown
    cases hcolumn : quotedColumn core with
    | some parts =>
      obtain ⟨column, term⟩ := parts
      obtain ⟨heq, hquote, hknown⟩ := quotedColumn_some hcolumn
      exact .inr (.inl ⟨column, term, heq, hquote, hknown, rfl⟩)
    | none =>
      cases hshould : shouldQuoteFts5Token core with
      | true => exact .inl (forall_mem_singleton.mpr ⟨core, rfl⟩)
      | false =>
        exact .inr (.inr ⟨bareToken_of_kept hverbatim (by simpa using hunknown) hcolumn hshould, rfl⟩)

/-! ### A quoted word -/

def IsQuotedToken (t : Token) : Prop :=
  t = .phrase ∨ t = .word "OR".toList ∨ t = .symbol '(' ∨ t = .symbol ')' ∨ t = .symbol '*'

def ReadsQuoted (s : Text) : Prop :=
  ∃ ts : List Token, (∀ t ∈ ts, IsQuotedToken t) ∧
    ∀ c rest, c ≠ '"' → read .idle (s ++ c :: rest) = ts ++ read .idle (c :: rest)

namespace ReadsQuoted

variable {s t text : Text}

lemma nil : ReadsQuoted [] := ⟨[], forall_mem_nil _, fun _ _ _ => rfl⟩

lemma symbol {c : Char} (hc : c = '(' ∨ c = ')' ∨ c = '*') (ht : ReadsQuoted t) :
    ReadsQuoted (c :: t) := by
  obtain ⟨ts, hts, hread⟩ := ht
  have hsymbol : Fts5.isSymbol c := by rcases hc with rfl | rfl | rfl <;> rfl
  refine ⟨.symbol c :: ts, forall_mem_cons.mpr ⟨?_, hts⟩, fun d rest hd => ?_⟩
  · rcases hc with rfl | rfl | rfl
    · exact .inr (.inr (.inl rfl))
    · exact .inr (.inr (.inr (.inl rfl)))
    · exact .inr (.inr (.inr (.inr rfl)))
  · rw [cons_append, Fts5.read_symbol hsymbol, hread d rest hd]
    rfl

lemma parens {c : Char} {closes : Text} (hc : c = '(' ∨ c = ')')
    (hcloses : ∀ d ∈ closes, d = c) (ht : ReadsQuoted t) : ReadsQuoted (closes ++ t) := by
  induction closes with
  | nil => exact ht
  | cons d closes ih =>
    obtain ⟨rfl, hcloses⟩ := forall_mem_cons.mp hcloses
    exact (ih hcloses).symbol (hc.imp_right .inl)

lemma or (ht : ReadsQuoted t) : ReadsQuoted (orSeparator ++ t) := by
  obtain ⟨ts, hts, hread⟩ := ht
  refine ⟨.word "OR".toList :: ts, forall_mem_cons.mpr ⟨.inr (.inl rfl), hts⟩, ?_⟩
  intro c rest hc
  rw [append_assoc]
  show Token.word "OR".toList :: read .idle (t ++ c :: rest) = _
  rw [hread c rest hc]
  rfl

lemma phrase (ht : ReadsQuoted t) (hhead : t.head? ≠ some '"') :
    ReadsQuoted ('"' :: (Fts5.double text ++ '"' :: t)) := by
  obtain ⟨ts, hts, hread⟩ := ht
  refine ⟨.phrase :: ts, forall_mem_cons.mpr ⟨.inl rfl, hts⟩, fun c rest hc => ?_⟩
  rw [cons_append, append_assoc]
  show read .phrase (Fts5.double text ++ '"' :: (t ++ c :: rest)) = _
  cases t with
  | nil =>
    rw [nil_append, Fts5.read_double hc, cons_append, ← hread c rest hc]
    rfl
  | cons d t =>
    have hd : d ≠ '"' := fun hd => hhead (by rw [hd]; rfl)
    rw [cons_append, Fts5.read_double hd, cons_append, ← hread c rest hc]
    rfl

lemma readPart (h : ReadsQuoted s) : ∀ t ∈ readPart false s, IsQuotedToken t := by
  obtain ⟨ts, hts, hread⟩ := h
  have heq : Fts5.readPart false s = ts := by
    rw [Fts5.readPart]
    show read .idle (s ++ [' ']) = ts
    rw [hread ' ' [] (by decide)]
    exact append_nil ts
  rw [heq]
  exact hts

end ReadsQuoted

lemma readsQuoted_quoteFts5Token (U : CharTables) {token rest : Text}
    (hrest : ReadsQuoted rest) (hhead : rest.head? ≠ some '"') :
    ReadsQuoted (quoteFts5Token U token ++ rest) := by
  by_cases hquote : '"' ∈ token
  · have hcontains : token.contains '"' := by simpa using hquote
    rw [quoteFts5Token, if_pos hcontains, cons_append, append_assoc]
    exact hrest.phrase hhead
  · obtain ⟨happend, hstar⟩ := prefixStar_append U token
    have hcore : '"' ∉ (prefixStar U token).1 :=
      fun hc => hquote (happend ▸ mem_append_left _ hc)
    have hphrase : ∀ text rest, '"' ∉ text → ReadsQuoted rest → rest.head? ≠ some '"' →
        ReadsQuoted ('"' :: (text ++ '"' :: (prefixStar U token).2) ++ rest) := by
      intro text rest htext hrest hhead
      rw [cons_append, append_assoc, cons_append, ← Fts5.double_of_notMem htext]
      rcases hstar with hstar | hstar
      · rw [hstar, nil_append]
        exact hrest.phrase hhead
      · rw [hstar]
        exact (hrest.symbol (.inr (.inr rfl))).phrase (by simp)
    rcases quoteFts5Token_cases hquote with heq | heq
    · rw [heq]
      exact hphrase _ rest hcore hrest hhead
    · have hsplit : '"' ∉ splitPunctuation (prefixStar U token).1 :=
        quote_notMem_splitPunctuation hcore
      have hclosed : ReadsQuoted (')' :: rest) := hrest.symbol (.inr (.inl rfl))
      have hsecond := (hphrase _ _ hsplit hclosed (by simp)).or
      have hitem := (hphrase _ _ hcore hsecond (by simp [orSeparator])).symbol (.inl rfl)
      rw [heq]
      simpa only [append_assoc, cons_append, nil_append] using hitem

lemma readPart_opens {opens : Text} (h : ∀ c ∈ opens, c = '(') (s : Text) :
    readPart false (opens ++ s) = opens.map .symbol ++ readPart false s := by
  induction opens with
  | nil => rfl
  | cons c opens ih =>
    obtain ⟨rfl, hopens⟩ := forall_mem_cons.mp h
    rw [cons_append, Fts5.readPart_symbol rfl, ih hopens]
    rfl

lemma readPart_quoted {token : Text} (h : Wrapped (quoteFts5Token U token) part) :
    ∀ t ∈ readPart false part, IsQuotedToken t := by
  obtain ⟨opens, closes, rfl, hopens, hcloses⟩ := h
  have hclosed : ReadsQuoted closes := by
    have hparens := ReadsQuoted.nil.parens (.inr rfl) hcloses
    rwa [append_nil] at hparens
  have hhead : closes.head? ≠ some '"' := by
    intro hhead
    exact absurd (hcloses _ (mem_of_mem_head? hhead)) (by decide)
  exact ((readsQuoted_quoteFts5Token U hclosed hhead).parens (.inl rfl) hopens).readPart

lemma readPart_column {column token : Text} (hcolumn : isKnownColumn column)
    (h : Wrapped (column ++ ':' :: quoteFts5Token U token) part) :
    ∀ t ∈ readPart false part, IsQuotedToken t ∨ t = .word column ∨ t = .symbol ':' := by
  obtain ⟨opens, closes, rfl, hopens, hcloses⟩ := h
  have hterm : ∀ t ∈ readPart false (quoteFts5Token U token ++ closes), IsQuotedToken t :=
    readPart_quoted ⟨[], closes, rfl, forall_mem_nil _, hcloses⟩
  have hcore : readPart false (column ++ ':' :: quoteFts5Token U token ++ closes) =
      .word column :: .symbol ':' :: readPart false (quoteFts5Token U token ++ closes) := by
    rw [append_assoc]
    rcases hcolumn with rfl | rfl
    · rfl
    · rfl
  rw [readPart_opens hopens, hcore]
  intro t ht
  rcases mem_append.mp ht with ht | ht
  · obtain ⟨c, hc, rfl⟩ := mem_map.mp ht
    rw [hopens c hc]
    exact .inl (.inr (.inr (.inl rfl)))
  · rcases mem_cons.mp ht with rfl | ht
    · exact .inr (.inl rfl)
    rcases mem_cons.mp ht with rfl | ht
    · exact .inr (.inr rfl)
    · exact .inl (hterm t ht)

structure BareWord (word : Text) : Prop where
  bare : BareToken (peelParens word)
  solid : Solid word

/-- Prefix operators and closing parentheses stand behind, opening parentheses in front. -/
def InOrder (a b : Char) : Prop := (a = ')' ∨ a = '*' → b = ')') ∧ (b = '(' → a = '(')

lemma exists_starred (token : Text) : ∃ core star, token = core ++ star ∧
    core = (if token.getLast? = some '*' then token.dropLast else token) ∧ (star = [] ∨ star = ['*']) := by
  split
  · rename_i hlast
    exact ⟨_, ['*'], (dropLast_append_getLast? '*' hlast).symm, rfl, .inr rfl⟩
  · exact ⟨token, [], (append_nil _).symm, rfl, .inl rfl⟩

lemma BareWord.pairwise (h : BareWord word) : word.Pairwise InOrder := by
  obtain ⟨core, star, hcore, heq, hstars⟩ := exists_starred (peelParens word)
  have hplain : ∀ c ∈ core, c ≠ '(' ∧ c ≠ ')' ∧ c ≠ '*' := by
    intro c hc
    rw [heq] at hc
    refine ⟨?_, ?_, ?_⟩
    all_goals
      rintro rfl
      exact absurd (h.bare.punctuation _ hc rfl) (by decide)
  have hstar : ∀ c ∈ star, c = '*' := by
    rcases hstars with rfl | rfl
    · exact forall_mem_nil _
    · exact forall_mem_singleton.mpr rfl
  have hopens : ∀ c ∈ openParens word, c = '(' := openParens_paren
  have hcloses : ∀ c ∈ closeParens word, c = ')' := closeParens_paren
  rw [← peelParens_append word, hcore, append_assoc, append_assoc, pairwise_append,
    pairwise_append, pairwise_append]
  -- each block by itself, and each block with what is behind it
  refine ⟨pairwise_of_forall_mem_list ?_, ⟨pairwise_of_forall_mem_list ?_,
    ⟨?_, pairwise_of_forall_mem_list ?_, ?_⟩, ?_⟩, ?_⟩
  · intro a ha b hb
    exact ⟨fun h => absurd (hopens a ha) (by rintro rfl; revert h; decide), fun _ => hopens a ha⟩
  · intro a ha b hb
    exact ⟨fun h => (h.elim (hplain a ha).2.1 (hplain a ha).2.2).elim,
      fun h => absurd h (hplain b hb).1⟩
  · rcases hstars with rfl | rfl
    · exact .nil
    · exact pairwise_singleton _ _
  · intro a ha b hb
    exact ⟨fun _ => hcloses b hb, fun h => absurd (hcloses b hb) (by rw [h]; decide)⟩
  · intro a ha b hb
    exact ⟨fun _ => hcloses b hb, fun h => absurd (hcloses b hb) (by rw [h]; decide)⟩
  · intro a ha b hb
    refine ⟨fun h => (h.elim (hplain a ha).2.1 (hplain a ha).2.2).elim, ?_⟩
    rintro rfl
    rcases mem_append.mp hb with hb | hb
    · exact absurd (hstar _ hb) (by decide)
    · exact absurd (hcloses _ hb) (by decide)
  · intro a ha b hb
    exact ⟨fun h => absurd (hopens a ha) (by rintro rfl; revert h; decide), fun _ => hopens a ha⟩

lemma BareWord.punctuation (h : BareWord word) (hc : c ∈ word)
    (hpunct : isAsciiPunctuation c) : c = '(' ∨ c = ')' ∨ c = '*' ∨ c = ':' := by
  obtain ⟨core, star, hcore, heq, hstars⟩ := exists_starred (peelParens word)
  rw [← peelParens_append word, hcore] at hc
  rcases mem_append.mp hc with hc | hc
  · rcases mem_append.mp hc with hc | hc
    · exact .inl (openParens_paren c hc)
    · rcases mem_append.mp hc with hc | hc
      · rw [heq] at hc
        exact .inr (.inr (.inr (h.bare.punctuation c hc hpunct)))
      · rcases hstars with rfl | rfl
        · cases hc
        · exact .inr (.inr (.inl (mem_singleton.mp hc)))
  · exact .inr (.inl (closeParens_paren c hc))

lemma isWhitespace_of_isSpace (h : Fts5.isSpace c) : isWhitespace c := by
  simp only [Fts5.isSpace, Bool.or_eq_true, decide_eq_true_eq] at h
  rcases h with ((rfl | rfl) | rfl) | rfl
  · rfl
  · rfl
  · rfl
  · rfl

lemma BareWord.spelled (h : BareWord word) : Fts5.Spelled word (readPart false word) := by
  have hquote : '"' ∉ word := by
    intro hmem
    rcases h.punctuation hmem rfl with hc | hc | hc | hc
    all_goals cases hc
  refine Fts5.Solid.spelled fun c hc => ?_
  have hspace : Fts5.isSpace c = false := by
    rw [Bool.eq_false_iff]
    intro hspace
    have hblank := h.solid.2 c hc
    rw [isWhitespace_of_isSpace hspace] at hblank
    cases hblank
  by_cases hbare : Fts5.isBareword c
  · exact .inl hbare
  · have hne : c ≠ '"' := fun heq => hquote (heq ▸ hc)
    exact .inr (by simp [Fts5.isSymbol, hne, hbare, hspace])

/-! ### Open strings -/

theorem inside_quoteFts5Token (opened : Bool) (token : Text) :
    inside opened (quoteFts5Token U token) = opened := by
  have hquoted : ∀ text star, '"' ∉ text → '"' ∉ star →
      inside opened ('"' :: (text ++ '"' :: star)) = opened := by
    intro text star htext hstar
    rw [inside, Fts5.inside_append, Fts5.inside_of_notMem _ htext, inside,
      Fts5.inside_of_notMem _ hstar]
    cases opened <;> rfl
  by_cases hquote : '"' ∈ token
  · rw [quoteFts5Token, if_pos (by simpa using hquote), inside, Fts5.inside_append,
      Fts5.inside_double]
    cases opened <;> rfl
  · obtain ⟨happend, hstars⟩ := prefixStar_append U token
    have hcore : '"' ∉ (prefixStar U token).1 :=
      fun hc => hquote (happend ▸ mem_append_left _ hc)
    have hstar : '"' ∉ (prefixStar U token).2 := by
      rcases hstars with hstar | hstar
      · rw [hstar]
        exact not_mem_nil
      · rw [hstar]
        decide
    rcases quoteFts5Token_cases hquote with heq | heq
    · rw [heq, hquoted _ _ hcore hstar]
    · rw [heq, inside]
      simp only [Fts5.inside_append]
      have hparen : (opened ^^ ('(' = '"' : Bool)) = opened := by cases opened <;> rfl
      rw [hparen, hquoted _ _ hcore hstar, Fts5.inside_of_notMem opened (by decide : '"' ∉ orSeparator),
        hquoted _ _ (quote_notMem_splitPunctuation hcore) hstar]
      cases opened <;> rfl

lemma inside_wrapped (h : Wrapped core part)
    (hcore : inside opened core = opened) : inside opened part = opened := by
  obtain ⟨opens, closes, rfl, hopens, hcloses⟩ := h
  have hopens : '"' ∉ opens := fun hc => absurd (hopens _ hc) (by decide)
  have hcloses : '"' ∉ closes := fun hc => absurd (hcloses _ hc) (by decide)
  rw [Fts5.inside_append, Fts5.inside_append, Fts5.inside_of_notMem _ hopens, hcore,
    Fts5.inside_of_notMem _ hcloses]

lemma inside_prepareFts5Token (opened : Bool) (h : part ∈ prepareFts5Token U word)
    (hverbatim : isQuotedVerbatim (peelParens word) = false) : inside opened part = opened := by
  obtain ⟨core, hcore, hpart⟩ := mem_prepareFts5Token h
  refine inside_wrapped hpart ?_
  rcases prepareFts5Core_cases U (peelParens word) with ⟨htrue, -⟩ | ⟨-, hquoted | hcolumn | hbare⟩
  · rw [hverbatim] at htrue
    cases htrue
  · obtain ⟨token, rfl⟩ := hquoted core hcore
    exact inside_quoteFts5Token opened token
  · obtain ⟨column, term, -, -, hknown, heq⟩ := hcolumn
    rw [heq] at hcore
    rw [mem_singleton.mp hcore, Fts5.inside_append]
    have hplain : '"' ∉ column := by rcases hknown with rfl | rfl <;> decide
    rw [Fts5.inside_of_notMem _ hplain, inside]
    have hcolon : (opened ^^ (':' = '"' : Bool)) = opened := by cases opened <;> rfl
    rw [hcolon, inside_quoteFts5Token]
  · rw [hbare.2] at hcore
    rw [mem_singleton.mp hcore]
    exact Fts5.inside_of_notMem _ hbare.1.quote

def leavesOpen (word : Text) : Bool :=
  isQuotedVerbatim (peelParens word) && inside false word

lemma prepareFts5Token_verbatim (h : isQuotedVerbatim (peelParens word)) :
    prepareFts5Token U word = [word] := by
  refine prepareFts5Token_kept ?_
  rcases prepareFts5Core_cases U (peelParens word) with ⟨-, heq⟩ | ⟨hfalse, -⟩
  · exact heq
  · rw [h] at hfalse
    cases hfalse

lemma foldl_inside
    (h : ∀ part ∈ parts, inside opened part = opened) : parts.foldl inside opened = opened := by
  induction parts with
  | nil => rfl
  | cons part parts ih =>
    obtain ⟨hpart, hparts⟩ := forall_mem_cons.mp h
    rw [foldl_cons, hpart, ih hparts]

lemma foldl_inside_prepareFts5Token (opened : Bool) (word : Text) :
    (prepareFts5Token U word).foldl inside opened = (opened ^^ leavesOpen word) := by
  cases hverbatim : isQuotedVerbatim (peelParens word) with
  | true =>
    rw [prepareFts5Token_verbatim hverbatim, leavesOpen, hverbatim, Bool.true_and]
    exact Fts5.inside_xor opened word
  | false =>
    rw [leavesOpen, hverbatim, Bool.false_and, Bool.xor_false]
    exact foldl_inside fun part hpart => inside_prepareFts5Token opened hpart hverbatim

/-- A word that is kept with its quotes is read as it is.  Behind a string that it leaves open words
are read inside out: what was quoted stands outside. -/
def conceals (U : CharTables) (spells : List Token → Bool) (opened : Bool) (word : Text) : Bool :=
  (opened || isQuotedVerbatim (peelParens word)) &&
    (prepareFts5Token U word).any fun part => spells (readPart opened part)

def concealed (U : CharTables) (spells : List Token → Bool) : Bool → List Text → Bool
  | _, [] => false
  | opened, word :: words => conceals U spells opened word ||
      concealed U spells (opened ^^ leavesOpen word) words

lemma mem_readParts {t : Token}
    (hinside : ∀ part ∈ parts, inside opened part = opened) (ht : t ∈ readParts opened parts) :
    ∃ part ∈ parts, t ∈ readPart opened part := by
  induction parts with
  | nil => cases ht
  | cons part parts ih =>
    obtain ⟨hpart, hparts⟩ := forall_mem_cons.mp hinside
    rw [readParts, hpart] at ht
    rcases mem_append.mp ht with ht | ht
    · exact ⟨part, mem_cons_self, ht⟩
    · obtain ⟨part, hmem, ht⟩ := ih hparts ht
      exact ⟨part, mem_cons_of_mem _ hmem, ht⟩

lemma readParts_singleton (opened : Bool) (part : Text) :
    readParts opened [part] = readPart opened part := append_nil _

/-- Words joined by `OR` are words and `OR`s, joined by blanks. -/
theorem intercalate_orSeparator (parts : List Text) : orSeparator.intercalate parts =
    [' '].intercalate (parts.intersperse ['O', 'R']) := by
  induction parts with
  | nil => rfl
  | cons part parts ih =>
    cases parts with
    | nil => rfl
    | cons other parts =>
      rw [intersperse_cons_cons, intercalate_cons_cons, ih, intercalate_cons_cons]
      cases hrest : (other :: parts).intersperse ['O', 'R'] with
      | nil => cases parts <;> cases hrest
      | cons next rest =>
        rw [intercalate_cons_cons]
        simp [orSeparator]

lemma mem_intersperse {sep : Text}
    (h : part ∈ parts.intersperse sep) : part = sep ∨ part ∈ parts := by
  induction parts with
  | nil => cases h
  | cons first parts ih =>
    cases parts with
    | nil => exact .inr h
    | cons other parts =>
      rw [intersperse_cons_cons] at h
      rcases mem_cons.mp h with rfl | h
      · exact .inr mem_cons_self
      rcases mem_cons.mp h with rfl | h
      · exact .inl rfl
      · exact (ih h).imp_right (mem_cons_of_mem _)

lemma inside_intersperse (h : ∀ part ∈ parts, inside false part = false) :
    ∀ part ∈ parts.intersperse ['O', 'R'], inside false part = false := by
  intro part hpart
  rcases mem_intersperse hpart with rfl | hpart
  · rfl
  · exact h part hpart

lemma readPart_infix_intersperse
    (h : ∀ part ∈ parts, inside false part = false) (hpart : part ∈ parts) :
    readPart false part <:+: readParts false (parts.intersperse ['O', 'R']) := by
  induction parts with
  | nil => cases hpart
  | cons first parts ih =>
    obtain ⟨hfirst, hparts⟩ := forall_mem_cons.mp h
    cases parts with
    | nil =>
      rw [mem_singleton.mp hpart]
      exact (prefix_append _ _).isInfix
    | cons other parts =>
      rw [intersperse_cons_cons, readParts, hfirst]
      rcases mem_cons.mp hpart with rfl | hpart
      · exact (prefix_append _ _).isInfix
      · exact (ih hparts hpart).trans ((suffix_cons _ _).trans (suffix_append _ _)).isInfix

variable {stopwords : FtsStopwords} {raw : Text}

lemma ftsTokens_explicit (h : explicitSyntax raw) :
    ftsTokens U stopwords raw = (splitWhitespace raw).flatMap (prepareFts5Token U) := by
  simp [ftsTokens, h]

lemma mem_ftsTokens (h : part ∈ ftsTokens U stopwords raw) :
    ∃ word ∈ splitWhitespace raw, part ∈ prepareFts5Token U word := by
  rw [ftsTokens] at h
  split at h
  · exact mem_flatMap.mp h
  · obtain ⟨word, hword, hpart⟩ := mem_flatMap.mp h
    exact ⟨word, (mem_filter.mp hword).1, hpart⟩

lemma concealed_eq_false {spells : List Token → Bool} {words : List Text}
    (h : ∀ word ∈ words, isQuotedVerbatim (peelParens word) = false) :
    concealed U spells false words = false := by
  induction words with
  | nil => rfl
  | cons word words ih =>
    obtain ⟨hword, hwords⟩ := forall_mem_cons.mp h
    rw [concealed, conceals, leavesOpen, hword]
    exact ih hwords

lemma plain_of_bare (h : explicitSyntax raw = false) : ∀ word ∈ splitWhitespace raw,
    isQuotedVerbatim (peelParens word) = false ∧ word ≠ "AND".toList ∧ word ≠ "NOT".toList := by
  intro word hword
  simp only [explicitSyntax, Bool.or_eq_false_iff, any_eq_false] at h
  have hquote : '"' ∉ raw := by simpa using h.1.1.1
  have hoperator := h.2 word hword
  simp only [isOperatorWord, Bool.or_eq_true, decide_eq_true_eq, not_or] at hoperator
  refine ⟨?_, hoperator.1.1.2, hoperator.1.2⟩
  rw [Bool.eq_false_iff]
  intro hverbatim
  simp only [isQuotedVerbatim, Bool.and_eq_true, decide_eq_true_eq] at hverbatim
  exact hquote ((mem_splitWhitespace hword).2 _
    (mem_of_mem_peelParens (mem_of_mem_head? hverbatim.1)))

end Store
