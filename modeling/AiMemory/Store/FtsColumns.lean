/-
Columns in the search of a workstream (`ai-memory-store`, `workstream.rs`).

The ledger has one column, so the prefixes of the other index are dropped from a query before it
is prepared.
-/
import AiMemory.Store.CjkQuery
import AiMemory.Store.FtsReading
import Mathlib

open List
open Strings (isWhitespace)
open Wiki (CharTables)
open Fts5 (Token readPart readParts inside lex isFullText)

namespace Store

/-- What the text functions rely on: ASCII is classified as usual, and a blank is no letter. -/
structure LawfulTables (U : CharTables) : Prop where
  ascii : ∀ c : Char, c.toNat < 0x80 → U.isAlphanumeric c = c.isAlphanum
  blank : ∀ c, isWhitespace c = true → U.isAlphanumeric c = false

/-! ### Prefixes -/

def columnPrefixes : List Text := ["title:".toList, "body:".toList, "content:".toList]

def startsWord (U : CharTables) (prev : Option Char) : Bool :=
  prev.all fun p => !(U.isAlphanumeric p || p = '_' || p = '/')

/-- `skip` characters of a column prefix are still to drop. -/
def stripFrom (U : CharTables) : ℕ → Option Char → Text → Text
  | _, _, [] => []
  | skip + 1, prev, _ :: rest => stripFrom U skip prev rest
  | 0, prev, c :: rest =>
    match if startsWord U prev then columnPrefixes.find? (·.isPrefixOf (c :: rest)) else none with
    | some column => stripFrom U (column.length - 1) (some ':') rest
    | none => c :: stripFrom U 0 (some c) rest

def stripColumnPrefixes (U : CharTables) (query : Text) : Text := stripFrom U 0 none query

variable {U : CharTables} {s : Text} {prev : Option Char}

def IsStripped (U : CharTables) : Option Char → Text → Prop
  | _, [] => True
  | prev, c :: rest =>
    (startsWord U prev = true → ∀ column ∈ columnPrefixes, ¬ column <+: c :: rest) ∧
      IsStripped U (some c) rest

lemma find?_columnPrefixes (h : ∀ column ∈ columnPrefixes, ¬ column <+: s) :
    columnPrefixes.find? (·.isPrefixOf s) = none := by
  rw [find?_eq_none]
  intro column hcolumn
  rw [List.isPrefixOf_iff_prefix]
  exact h column hcolumn

lemma stripFrom_of_isStripped (h : IsStripped U prev s) : stripFrom U 0 prev s = s := by
  induction s generalizing prev with
  | nil => rfl
  | cons c s ih =>
    have hkept : (if startsWord U prev then columnPrefixes.find? (·.isPrefixOf (c :: s)) else none) =
        none := by
      split
      · rename_i hstart
        exact find?_columnPrefixes (h.1 hstart)
      · rfl
    rw [stripFrom, hkept]
    exact congrArg (c :: ·) (ih h.2)

lemma startsWord_letter {c : Char} (hc : U.isAlphanumeric c) :
    startsWord U (some c) = false := by simp [startsWord, hc]

variable {word column : Text} {parts : List Text}

lemma letters_stripFrom (hword : ∀ c ∈ word, U.isAlphanumeric c = true)
    (hprev : startsWord U prev = false) (h : word ++ [':'] <+: stripFrom U 0 prev s) :
    word ++ [':'] <+: s := by
  induction s generalizing word prev with
  | nil => exact h
  | cons c s ih =>
    rw [stripFrom, hprev] at h
    change word ++ [':'] <+: c :: stripFrom U 0 (some c) s at h
    cases word with
    | nil =>
      rw [nil_append, cons_prefix_cons] at h ⊢
      exact ⟨h.1, nil_prefix⟩
    | cons d word =>
      obtain ⟨hd, hword⟩ := forall_mem_cons.mp hword
      rw [cons_append, cons_prefix_cons] at h ⊢
      obtain ⟨rfl, htail⟩ := h
      exact ⟨rfl, ih hword (startsWord_letter hd) htail⟩

lemma columnPrefixes_letters (hU : LawfulTables U)
    (h : column ∈ columnPrefixes) : ∃ c word, column = c :: (word ++ [':']) ∧
      U.isAlphanumeric c ∧ ∀ d ∈ word, U.isAlphanumeric d = true := by
  have hletters : ∀ word : Text, word.all (fun d => d.toNat < 0x80 ∧ d.isAlphanum) →
      ∀ d ∈ word, U.isAlphanumeric d = true := by
    intro word hword d hd
    have hletter := of_decide_eq_true (all_eq_true.mp hword d hd)
    rw [hU.ascii d hletter.1]
    exact hletter.2
  have hcases : column = "title:".toList ∨ column = "body:".toList ∨ column = "content:".toList := by
    simpa [columnPrefixes] using h
  rcases hcases with rfl | rfl | rfl
  · refine ⟨'t', "itle".toList, rfl, ?_, hletters _ (by decide)⟩
    exact hletters ['t'] (by decide) 't' mem_cons_self
  · refine ⟨'b', "ody".toList, rfl, ?_, hletters _ (by decide)⟩
    exact hletters ['b'] (by decide) 'b' mem_cons_self
  · refine ⟨'c', "ontent".toList, rfl, ?_, hletters _ (by decide)⟩
    exact hletters ['c'] (by decide) 'c' mem_cons_self

lemma isStripped_stripFrom (hU : LawfulTables U) (skip : ℕ) {before : Option Char}
    (hstart : startsWord U before → startsWord U prev) (s : Text) :
    IsStripped U before (stripFrom U skip prev s) := by
  induction s generalizing skip prev before with
  | nil => cases skip <;> trivial
  | cons c s ih =>
    cases skip with
    | succ skip => exact ih skip hstart
    | zero =>
      have hcolon : startsWord U (some ':') := by
        simp [startsWord, hU.ascii ':' (by decide), Char.isAlphanum]
      rw [stripFrom]
      split
      · exact ih _ fun _ => hcolon
      · rename_i hkept
        refine ⟨fun hbefore column hcolumn hbegin => ?_, ih 0 id⟩
        obtain ⟨d, word, rfl, hd, hword⟩ := columnPrefixes_letters hU hcolumn
        obtain ⟨rfl, htail⟩ := cons_prefix_cons.mp hbegin
        have hin := letters_stripFrom hword (startsWord_letter hd) htail
        rw [if_pos (hstart hbefore), find?_eq_none] at hkept
        refine hkept _ hcolumn ?_
        rw [List.isPrefixOf_iff_prefix]
        exact cons_prefix_cons.mpr ⟨rfl, hin⟩

lemma isStripped_stripColumnPrefixes (hU : LawfulTables U) (query : Text) :
    IsStripped U none (stripColumnPrefixes U query) := isStripped_stripFrom hU 0 id query

lemma stripColumnPrefixes_idem (hU : LawfulTables U) (query : Text) :
    stripColumnPrefixes U (stripColumnPrefixes U query) = stripColumnPrefixes U query :=
  stripFrom_of_isStripped (isStripped_stripColumnPrefixes hU query)

lemma IsStripped.takeBytes (h : IsStripped U prev s) (limit : ℕ) :
    IsStripped U prev (takeBytes limit s) := by
  induction s generalizing prev limit with
  | nil => exact h
  | cons c s ih =>
    have hbegin := takeBytes_begins limit (c :: s)
    rw [Store.takeBytes] at hbegin ⊢
    split
    · rename_i hfits
      rw [if_pos hfits] at hbegin
      exact ⟨fun hstart column hcolumn hpre => h.1 hstart column hcolumn (hpre.trans hbegin),
        ih h.2 _⟩
    · trivial

lemma prefix_of_map {f : Char → Char}
    (hf : ∀ c, f c ∈ column → f c = c) (h : column <+: s.map f) : column <+: s := by
  induction column generalizing s with
  | nil => exact nil_prefix
  | cons d column ih =>
    cases s with
    | nil => exact absurd (prefix_nil.mp h) (cons_ne_nil _ _)
    | cons c s =>
      obtain ⟨hd, htail⟩ := cons_prefix_cons.mp h
      refine cons_prefix_cons.mpr ⟨?_, ih (fun c hc => hf c (mem_cons_of_mem _ hc)) htail⟩
      rw [hd]
      exact hf c (by rw [hd]; exact mem_cons_self)

lemma IsStripped.map_nul (hU : LawfulTables U) {before : Option Char} (h : IsStripped U prev s)
    (hstart : startsWord U before → startsWord U prev) :
    IsStripped U before (s.map fun c => if c = '\x00' then ' ' else c) := by
  induction s generalizing prev before with
  | nil => trivial
  | cons c s ih =>
    refine ⟨fun hbefore column hcolumn hbegin => ?_, ih h.2 fun hnext => ?_⟩
    · rw [← map_cons (f := fun c => if c = '\x00' then ' ' else c)] at hbegin
      refine h.1 (hstart hbefore) column hcolumn (prefix_of_map ?_ hbegin)
      intro d hd
      split at hd
      · have hblank : ∀ column ∈ columnPrefixes, ' ' ∉ column := by decide
        exact absurd hd (hblank column hcolumn)
      · rename_i hne
        exact if_neg hne
    · dsimp only at hnext
      split at hnext
      · rename_i hc
        rw [hc]
        simp [startsWord, hU.ascii '\x00' (by decide), Char.isAlphanum]
      · exact hnext

lemma IsStripped.boundedQueryText (hU : LawfulTables U) (h : IsStripped U none s) :
    IsStripped U none (boundedQueryText s) := (h.takeBytes _).map_nul hU id

lemma IsStripped.right {t : Text} (h : IsStripped U prev (s ++ t)) :
    IsStripped U (s.getLast?.or prev) t := by
  induction s generalizing prev with
  | nil => exact h
  | cons c s ih =>
    have hlast : (c :: s).getLast?.or prev = s.getLast?.or (some c) := by
      rw [getLast?_cons]
      cases s.getLast? <;> rfl
    rw [hlast]
    exact ih h.2

lemma IsStripped.noColumn (h : IsStripped U prev s)
    (hstart : startsWord U prev) (hcolumn : column ∈ columnPrefixes) : ¬ column <+: s := by
  cases s with
  | nil =>
    intro hnil
    have hne : ∀ column ∈ columnPrefixes, column ≠ [] := by decide
    exact hne column hcolumn (prefix_nil.mp hnil)
  | cons c s => exact h.1 hstart column hcolumn

lemma peelParens_noColumn (hU : LawfulTables U) (h : IsStripped U none s)
    (hword : word ∈ splitWhitespace s) (hcolumn : column ∈ columnPrefixes) :
    ¬ column <+: peelParens word := by
  obtain ⟨before, after, rfl, hblank⟩ := splitWhitespace_context hword
  have hsplit : before ++ (word ++ after) =
      (before ++ openParens word) ++ (peelParens word ++ (closeParens word ++ after)) := by
    have happend := peelParens_append word
    calc before ++ (word ++ after)
        = before ++ ((openParens word ++ peelParens word ++ closeParens word) ++ after) := by
          rw [happend]
      _ = _ := by simp only [append_assoc]
  have hstart : startsWord U ((before ++ openParens word).getLast?.or none) := by
    rw [Option.or_none]
    rcases eq_nil_or_concat' (openParens word) with hnil | ⟨opens, c, heq⟩
    · rw [hnil, append_nil]
      cases hlast : before.getLast? with
      | none => rfl
      | some c =>
        have hc := hblank c hlast
        have hne : c ≠ '_' ∧ c ≠ '/' := by
          refine ⟨?_, ?_⟩
          · rintro rfl
            cases hc
          · rintro rfl
            cases hc
        simp [startsWord, hU.blank c hc, hne.1, hne.2]
    · have hc : c = '(' := openParens_paren c (by rw [heq]; simp)
      rw [heq, ← append_assoc, getLast?_concat, hc]
      simp [startsWord, hU.ascii '(' (by decide), Char.isAlphanum]
  rw [hsplit] at h
  intro hbegin
  exact h.right.noColumn hstart hcolumn (hbegin.trans (prefix_append _ _))

/-! ### The filters of a query -/

def hasColumn (ts : List Token) : Bool := ts.contains (.symbol ':')

def filtersColumn (query : Text) : Bool := isFullText query && hasColumn (lex query)

lemma hasColumn_append (ts ts' : List Token) :
    hasColumn (ts ++ ts') = (hasColumn ts || hasColumn ts') := by
  rw [Bool.eq_iff_iff, Bool.or_eq_true]
  simp only [hasColumn, contains_iff_mem, mem_append]

lemma hasColumn_eq_false {ts : List Token} : hasColumn ts = false ↔ Token.symbol ':' ∉ ts := by
  rw [Bool.eq_false_iff, ne_eq, hasColumn, contains_iff_mem]

lemma isKnownColumn_mem (h : isKnownColumn column) (term : Text) :
    ∃ pre ∈ columnPrefixes, pre <+: column ++ ':' :: term := by
  rcases h with rfl | rfl
  · exact ⟨_, mem_cons_self, term, rfl⟩
  · exact ⟨_, mem_cons_of_mem _ mem_cons_self, term, rfl⟩

lemma hasColumn_even (hsolid : Solid word) (hverbatim : isQuotedVerbatim (peelParens word) = false)
    (hcolumn : ∀ column ∈ columnPrefixes, ¬ column <+: peelParens word) :
    ∀ part ∈ prepareFts5Token U word, hasColumn (readPart false part) = false := by
  intro part hpart
  rw [hasColumn_eq_false]
  obtain ⟨core, hcore, hwrapped⟩ := mem_prepareFts5Token hpart
  have hknown : ∀ column term, peelParens word = column ++ ':' :: term → ¬ isKnownColumn column := by
    intro column term heq hknown
    obtain ⟨pre, hpre, hbegin⟩ := isKnownColumn_mem hknown term
    exact hcolumn pre hpre (heq ▸ hbegin)
  rcases prepareFts5Core_cases U (peelParens word) with ⟨htrue, -⟩ | ⟨-, hquoted | hfilter | hbare⟩
  · rw [hverbatim] at htrue
    cases htrue
  · obtain ⟨token, rfl⟩ := hquoted core hcore
    intro hmem
    rcases readPart_quoted hwrapped _ hmem with h | h | h | h | h <;> cases h
  · obtain ⟨column, term, heq, -, hcolumn, -⟩ := hfilter
    exact absurd hcolumn (hknown column term heq)
  · have hword : BareWord word := ⟨hbare.1, hsolid⟩
    rw [prepareFts5Token_kept hbare.2, mem_singleton] at hpart
    subst hpart
    intro hmem
    obtain ⟨front, back, heq⟩ := append_of_mem hmem
    have hcolon : ':' ∈ part := by
      rw [← hword.spelled.spell, heq]
      simp [Token.spell]
    have hpeel : ':' ∈ peelParens part := by
      rw [← peelParens_append part] at hcolon
      rcases mem_append.mp hcolon with hcolon | hclose
      · refine (mem_append.mp hcolon).resolve_left fun hopen => ?_
        exact absurd (openParens_paren _ hopen) (by decide)
      · exact absurd (closeParens_paren _ hclose) (by decide)
    obtain ⟨column, term, heq, hcolumn, -⟩ := hbare.1.column hpeel
    exact hknown column term heq hcolumn

lemma hasColumn_readParts {opened : Bool} (hinside : ∀ part ∈ parts, inside opened part = opened) :
    hasColumn (readParts opened parts) = parts.any fun part => hasColumn (readPart opened part) := by
  induction parts with
  | nil => rfl
  | cons part parts ih =>
    obtain ⟨hpart, hparts⟩ := forall_mem_cons.mp hinside
    rw [readParts, hpart, hasColumn_append, ih hparts, any_cons]

lemma hasColumn_word (opened : Bool) (hsolid : Solid word)
    (hcolumn : ∀ column ∈ columnPrefixes, ¬ column <+: peelParens word) :
    hasColumn (readParts opened (prepareFts5Token U word)) = conceals U hasColumn opened word := by
  cases hverbatim : isQuotedVerbatim (peelParens word) with
  | true =>
    rw [conceals, hverbatim, prepareFts5Token_verbatim hverbatim, readParts_singleton]
    simp
  | false =>
    rw [hasColumn_readParts fun part hpart => inside_prepareFts5Token opened hpart hverbatim,
      conceals, hverbatim, Bool.or_false]
    cases opened with
    | true => rw [Bool.true_and]
    | false =>
      rw [Bool.false_and, any_eq_false]
      intro part hpart
      rw [hasColumn_even hsolid hverbatim hcolumn part hpart]
      exact Bool.false_ne_true

lemma hasColumn_words {words : List Text} (opened : Bool) (hsolid : ∀ word ∈ words, Solid word)
    (hcolumn : ∀ word ∈ words, ∀ column ∈ columnPrefixes, ¬ column <+: peelParens word) :
    hasColumn (readParts opened (words.flatMap (prepareFts5Token U)) ++
      Fts5.tail ((words.flatMap (prepareFts5Token U)).foldl inside opened)) =
        concealed U hasColumn opened words := by
  induction words generalizing opened with
  | nil => cases opened <;> rfl
  | cons word words ih =>
    obtain ⟨hword, hsolid⟩ := forall_mem_cons.mp hsolid
    obtain ⟨hfirst, hcolumn⟩ := forall_mem_cons.mp hcolumn
    rw [flatMap_cons, Fts5.readParts_append, foldl_append, append_assoc,
      foldl_inside_prepareFts5Token, hasColumn_append, hasColumn_word opened hword hfirst,
      ih _ hsolid hcolumn, concealed]

lemma hasColumn_orSeparator (hinside : ∀ part ∈ parts, inside false part = false)
    (h : ∀ part ∈ parts, hasColumn (readPart false part) = false) :
    hasColumn (lex (orSeparator.intercalate parts)) = false := by
  rw [intercalate_orSeparator, Fts5.lex_intercalate, foldl_inside (inside_intersperse hinside),
    hasColumn_append, hasColumn_readParts (inside_intersperse hinside), Bool.or_eq_false_iff]
  refine ⟨?_, rfl⟩
  rw [any_eq_false]
  intro part hpart
  rw [Bool.not_eq_true]
  rcases mem_intersperse hpart with rfl | hpart
  · rfl
  · exact h part hpart

variable {stopwords : FtsStopwords} {parses : Text → Bool} {raw : Text}

lemma hasColumn_wordBag : hasColumn (lex (wordBag U stopwords raw)) = false := by
  obtain ⟨kept, heq, -, -⟩ := wordBag_eq U stopwords raw
  rw [heq]
  refine hasColumn_orSeparator (forall_mem_map.mpr fun word _ => ?_)
    (forall_mem_map.mpr fun word _ => ?_)
  · exact inside_quoteFts5Token false word
  · rw [hasColumn_eq_false]
    intro hmem
    rcases readPart_quoted (.self _) _ hmem with h | h | h | h | h <;> cases h

lemma hasColumn_ftsCandidate (stopwords : FtsStopwords)
    (hcolumn : ∀ word ∈ splitWhitespace raw, ∀ column ∈ columnPrefixes,
      ¬ column <+: peelParens word) :
    hasColumn (lex (ftsCandidate U stopwords raw)) =
      concealed U hasColumn false (splitWhitespace raw) := by
  have hsolid : ∀ word ∈ splitWhitespace raw, Solid word :=
    fun word hword => (mem_splitWhitespace hword).1
  rw [ftsCandidate]
  cases hexplicit : explicitSyntax raw with
  | true =>
    rw [if_pos rfl, ftsTokens_explicit hexplicit, Fts5.lex_intercalate]
    exact hasColumn_words false hsolid hcolumn
  | false =>
    have hbare := plain_of_bare hexplicit
    rw [concealed_eq_false fun word hword => (hbare word hword).1, if_neg Bool.false_ne_true]
    refine hasColumn_orSeparator (fun part hpart => ?_) fun part hpart => ?_
    · obtain ⟨word, hword, hpart⟩ := mem_ftsTokens hpart
      exact inside_prepareFts5Token false hpart (hbare word hword).1
    · obtain ⟨word, hword, hpart⟩ := mem_ftsTokens hpart
      exact hasColumn_even (hsolid word hword) (hbare word hword).1 (hcolumn word hword) part hpart

/-- Stripping is idempotent; the search has no column filter exactly when FTS5 does not take the
query as it is, or no word conceals a colon. -/
theorem search_unfiltered_iff (hU : LawfulTables U) (stopwords : FtsStopwords)
    (parses : Text → Bool) (query : Text) :
    (stripColumnPrefixes U (stripColumnPrefixes U query) = stripColumnPrefixes U query ∧
      filtersColumn (prepareFts5Query U stopwords parses (stripColumnPrefixes U query)) = false) ↔
    parses (ftsCandidate U stopwords (boundedQueryText (stripColumnPrefixes U query))) = false ∨
      isFullText (ftsCandidate U stopwords
        (boundedQueryText (stripColumnPrefixes U query))) = false ∨
      concealed U hasColumn false
        (splitWhitespace (boundedQueryText (stripColumnPrefixes U query))) = false := by
  rw [and_iff_right (stripColumnPrefixes_idem hU query)]
  have hstripped := (isStripped_stripColumnPrefixes hU query).boundedQueryText hU
  have hfilters := hasColumn_ftsCandidate (U := U) stopwords
    fun word hword column hcolumn => peelParens_noColumn hU hstripped hword hcolumn
  rw [← hfilters, prepareFts5Query]
  split
  · -- nothing to ask for
    rename_i hnil
    have hcandidate : ftsCandidate U stopwords
        (boundedQueryText (stripColumnPrefixes U query)) = [] := by
      rw [ftsCandidate, hnil]
      rfl
    refine iff_of_true rfl (.inr (.inr ?_))
    rw [hcandidate]
    rfl
  split
  · rename_i hparses
    rw [hparses, filtersColumn, Bool.and_eq_false_iff]
    simp
  · rename_i hparses
    refine iff_of_true ?_ (.inl (by simpa using hparses))
    rw [filtersColumn, hasColumn_wordBag, Bool.and_false]

lemma isAlphanum_of_isWhitespace {c : Char} (h : isWhitespace c) : c.isAlphanum = false := by
  simp only [isWhitespace, Bool.or_eq_true, Bool.and_eq_true, decide_eq_true_eq] at h
  simp only [Char.isAlphanum, Char.isAlpha, Char.isUpper, Char.isLower, Char.isDigit,
    Bool.or_eq_false_iff, Bool.and_eq_false_iff, decide_eq_false_iff_not, UInt32.le_iff_toNat_le]
  have hval : c.val.toNat = c.toNat := rfl
  rw [hval]
  simp
  omega

lemma lawful_tablesWith : LawfulTables (tablesWith "") where
  ascii _ _ := Bool.or_false _
  blank _ hc := (Bool.or_false _).trans (isAlphanum_of_isWhitespace hc)

def acceptsAll (_ : Text) : Bool := true

def quotedTitle : Text := "\"title\":\"x\"".toList

theorem search_unfiltered_quotedTitle :
    (stripColumnPrefixes (tablesWith "") (stripColumnPrefixes (tablesWith "") quotedTitle) =
        stripColumnPrefixes (tablesWith "") quotedTitle ∧
      filtersColumn (prepareFts5Query (tablesWith "") .none acceptsAll
        (stripColumnPrefixes (tablesWith "") quotedTitle)) = false) ↔
    acceptsAll (ftsCandidate (tablesWith "") .none
        (boundedQueryText (stripColumnPrefixes (tablesWith "") quotedTitle))) = false ∨
      isFullText (ftsCandidate (tablesWith "") .none
        (boundedQueryText (stripColumnPrefixes (tablesWith "") quotedTitle))) = false ∨
      concealed (tablesWith "") hasColumn false (splitWhitespace
        (boundedQueryText (stripColumnPrefixes (tablesWith "") quotedTitle))) = false :=
  search_unfiltered_iff lawful_tablesWith .none acceptsAll quotedTitle

/-- Quotes keep the filter. -/
theorem quotedTitle_filters :
    ¬ (stripColumnPrefixes (tablesWith "") (stripColumnPrefixes (tablesWith "") quotedTitle) =
        stripColumnPrefixes (tablesWith "") quotedTitle ∧
      filtersColumn (prepareFts5Query (tablesWith "") .none acceptsAll
        (stripColumnPrefixes (tablesWith "") quotedTitle)) = false) := by
  decide +kernel

end Store
