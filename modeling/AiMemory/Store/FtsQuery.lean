/-
The `MATCH` query of a search text (`ai-memory-store`, `fts_query.rs`).

A text is cut into words, a word is quoted where FTS5 would read it as syntax, and what FTS5 does
not accept after all becomes a bag of quoted words.

Whether FTS5 accepts a query is a parameter.
-/
import AiMemory.Core.PageMetadata
import AiMemory.Hooks.Readings
import AiMemory.Lib.Fts5
import AiMemory.Store.Words

open List
open Strings (isWhitespace)
open Wiki (CharTables)
open Capture (isAsciiPunctuation)

namespace Store

structure FtsStopwords where
  words : List String

def FtsStopwords.new (U : CharTables) (words : List String) : FtsStopwords :=
  ⟨words.map U.lowercase⟩

def FtsStopwords.none : FtsStopwords := ⟨[]⟩

def FtsStopwords.contains (stopwords : FtsStopwords) (lowercasedToken : String) : Bool :=
  stopwords.words.contains lowercasedToken

def isStopword (U : CharTables) (stopwords : FtsStopwords) (word : Text) : Bool :=
  stopwords.contains (U.lowercase (String.ofList word))

/-! ### One word -/

def maxFtsQueryBytes : ℕ := 4096

def boundedQueryText (raw : Text) : Text :=
  (takeBytes maxFtsQueryBytes raw).map fun c => if c = '\x00' then ' ' else c

def prefixStar (U : CharTables) (token : Text) : Text × Text :=
  if token.getLast? = some '*' ∧ token.dropLast.any U.isAlphanumeric then (token.dropLast, ['*'])
  else (token, [])

def splitPunctuation (token : Text) : Text :=
  [' '].intercalate
    (splitWhitespace (token.map fun c => if isAsciiPunctuation c then ' ' else c))

def quoteFts5Token (U : CharTables) (token : Text) : Text :=
  if token.contains '"' then '"' :: (Fts5.double token ++ ['"'])
  else
    let (token, star) := prefixStar U token
    let split := splitPunctuation token
    if split = [] ∨ split = token then '"' :: (token ++ '"' :: star)
    else '(' :: '"' :: (token ++ '"' :: (star ++ " OR \"".toList ++ split ++ '"' :: (star ++ [')'])))

def isQuotedVerbatim (token : Text) : Bool :=
  token.head? = some '"' && token.getLast? = some '"'

def shouldQuoteFts5Token (token : Text) : Bool :=
  if isQuotedVerbatim token then false
  else
    let core := if token.getLast? = some '*' then token.dropLast else token
    core.any fun c => isAsciiPunctuation c && c ≠ ':'

def hasUnknownBareColumn (token : Text) : Bool :=
  token.contains ':' && !token.contains '"' && !"title:".toList.isPrefixOf token
    && !"body:".toList.isPrefixOf token

def quotedColumn (token : Text) : Option (Text × Text) :=
  if token.contains '"' then none
  else (Strings.splitOnce [':'] token).filter fun (column, term) =>
    (column = "title".toList || column = "body".toList) && term ≠ [] &&
      (shouldQuoteFts5Token term || term.contains ':')

/-- `prepare_fts5_token` of a token without parentheses at its ends. -/
def prepareFts5Core (U : CharTables) (token : Text) : List Text :=
  if hasUnknownBareColumn token then
    (splitWhitespace (token.map fun c => if c = ':' then ' ' else c)).map (quoteFts5Token U)
  else
    match quotedColumn token with
    | some (column, term) => [column ++ ':' :: quoteFts5Token U term]
    | none => if shouldQuoteFts5Token token then [quoteFts5Token U token] else [token]

def innerText (token : Text) : Text :=
  Strings.trimEndBy (· = ')') (token.dropWhile (· = '('))

def peelParens (token : Text) : Text :=
  if innerText token = [] then token else innerText token

def openParens (token : Text) : Text :=
  if innerText token = [] then [] else token.takeWhile (· = '(')

def closeParens (token : Text) : Text :=
  if innerText token = [] then []
  else (token.dropWhile (· = '(')).drop (innerText token).length

/-- `last_mut` with `push_str`. -/
def pushLast (text : Text) : List Text → List Text
  | [] => []
  | [part] => [part ++ text]
  | part :: other :: parts => part :: pushLast text (other :: parts)

def prepareFts5Token (U : CharTables) (token : Text) : List Text :=
  pushLast (closeParens token)
    ((prepareFts5Core U (peelParens token)).modifyHead (openParens token ++ ·))

/-! ### The query -/

def isOperatorWord (word : Text) : Bool :=
  word = "OR".toList || word = "AND".toList || word = "NOT".toList || word = "NEAR".toList

def explicitSyntax (raw : Text) : Bool :=
  raw.contains '"' || raw.contains '(' || raw.contains ')'
    || (splitWhitespace raw).any isOperatorWord

def ftsTokens (U : CharTables) (stopwords : FtsStopwords) (raw : Text) : List Text :=
  let words := splitWhitespace raw
  let tokens := (words.filter fun word => explicitSyntax raw || !isStopword U stopwords word).flatMap
    (prepareFts5Token U)
  if tokens = [] ∧ explicitSyntax raw = false then words.flatMap (prepareFts5Token U) else tokens

def orSeparator : Text := [' ', 'O', 'R', ' ']

def ftsCandidate (U : CharTables) (stopwords : FtsStopwords) (raw : Text) : Text :=
  (if explicitSyntax raw then [' '] else orSeparator).intercalate (ftsTokens U stopwords raw)

def isQuotedSegment (count index : ℕ) : Bool :=
  let unclosed := count % 2 = 0
  index % 2 = 1 && !(unclosed && index = count - 1)

def bagWords (raw : Text) : List (Text × Bool) :=
  let segments := raw.splitOn '"'
  segments.zipIdx.flatMap fun (segment, index) =>
    ((segment.splitOnP fun c => c = '(' || c = ')').flatMap splitWhitespace).map fun word =>
      (word, isQuotedSegment segments.length index)

def wordBag (U : CharTables) (stopwords : FtsStopwords) (raw : Text) : Text :=
  let words := bagWords raw
  let content := (words.filter fun word => word.2 || !isStopword U stopwords word.1).map Prod.fst
  let kept := if content = [] then words.map Prod.fst else content
  orSeparator.intercalate (kept.map (quoteFts5Token U))

def prepareFts5Query (U : CharTables) (stopwords : FtsStopwords) (parses : Text → Bool)
    (raw : Text) : Text :=
  let raw := boundedQueryText raw
  if ftsTokens U stopwords raw = [] then []
  else if parses (ftsCandidate U stopwords raw) then ftsCandidate U stopwords raw
  else wordBag U stopwords raw

/-! ### Quoted words -/

variable {U : CharTables} {stopwords : FtsStopwords} {parses : Text → Bool} {raw token word : Text}

def Plain (text : Text) : Prop := '"' ∉ text ∧ '\x00' ∉ text

def IsPhrase (phrase : Text) : Prop :=
  ∃ text star, phrase = '"' :: (text ++ '"' :: star) ∧ Plain text ∧ (star = [] ∨ star = ['*'])

def IsBagItem (item : Text) : Prop :=
  IsPhrase item ∨ ∃ whole split, item = '(' :: (whole ++ orSeparator ++ split ++ [')']) ∧
    IsPhrase whole ∧ IsPhrase split

/-- Items joined by ` OR `. -/
def IsBag (query : Text) : Prop :=
  ∃ items, (∀ item ∈ items, IsBagItem item) ∧ query = orSeparator.intercalate items

/-- The word stands in the query, quoted, as a phrase or as a prefix. -/
def Appears (word query : Text) : Prop :=
  '"' :: (word ++ ['"']) <:+: query ∨
    ∃ core, word = core ++ ['*'] ∧ '"' :: (core ++ ['"', '*']) <:+: query

lemma prefixStar_append (U : CharTables) (token : Text) :
    (prefixStar U token).1 ++ (prefixStar U token).2 = token ∧
      ((prefixStar U token).2 = [] ∨ (prefixStar U token).2 = ['*']) := by
  rw [prefixStar]
  split
  · rename_i h
    exact ⟨dropLast_append_getLast? '*' h.1, .inr rfl⟩
  · exact ⟨append_nil _, .inl rfl⟩

lemma mem_splitPunctuation {c : Char} (hc : c ∈ splitPunctuation token) : c = ' ' ∨ c ∈ token := by
  refine (mem_intercalate hc).imp_right fun ⟨part, hpart, hmem⟩ => ?_
  obtain ⟨d, hd, rfl⟩ := mem_map.mp ((mem_splitWhitespace hpart).2 c hmem)
  have hsolid := (mem_splitWhitespace hpart).1.2 _ hmem
  split
  · rename_i hpunct
    rw [if_pos hpunct] at hsolid
    cases hsolid
  · exact hd

lemma quote_notMem_splitPunctuation (h : '"' ∉ token) : '"' ∉ splitPunctuation token :=
  fun hc => (mem_splitPunctuation hc).elim (by decide) h

lemma plain_splitPunctuation (h : Plain token) : Plain (splitPunctuation token) :=
  ⟨quote_notMem_splitPunctuation h.1, fun hc => (mem_splitPunctuation hc).elim (by decide) h.2⟩

lemma quoteFts5Token_cases (h : '"' ∉ token) :
    quoteFts5Token U token = '"' :: ((prefixStar U token).1 ++ '"' :: (prefixStar U token).2) ∨
    quoteFts5Token U token =
      '(' :: ('"' :: ((prefixStar U token).1 ++ '"' :: (prefixStar U token).2) ++ orSeparator ++
        '"' :: (splitPunctuation (prefixStar U token).1 ++ '"' :: (prefixStar U token).2) ++ [')']) := by
  have hquote : token.contains '"' = false := by simpa using h
  rw [quoteFts5Token, hquote]
  simp only [Bool.false_eq_true, if_false]
  split
  · exact .inl rfl
  · right
    simp [orSeparator]

lemma quoteFts5Token_item (h : Plain token) : IsBagItem (quoteFts5Token U token) := by
  obtain ⟨happend, hstar⟩ := prefixStar_append U token
  have hcore : Plain (prefixStar U token).1 := by
    refine ⟨fun hc => h.1 ?_, fun hc => h.2 ?_⟩
    all_goals exact happend ▸ mem_append_left _ hc
  rcases quoteFts5Token_cases h.1 with heq | heq
  · exact .inl ⟨_, _, heq, hcore, hstar⟩
  · exact .inr ⟨_, _, heq, ⟨_, _, rfl, hcore, hstar⟩, ⟨_, _, rfl, plain_splitPunctuation hcore, hstar⟩⟩

lemma appears_quoteFts5Token (h : '"' ∉ token) : Appears token (quoteFts5Token U token) := by
  obtain ⟨happend, hstar⟩ := prefixStar_append U token
  have hphrase : '"' :: ((prefixStar U token).1 ++ '"' :: (prefixStar U token).2) <:+:
      quoteFts5Token U token := by
    rcases quoteFts5Token_cases h with heq | heq
    · rw [heq]
    · rw [heq]
      exact ⟨['('], orSeparator ++ '"' :: (splitPunctuation (prefixStar U token).1 ++
        '"' :: (prefixStar U token).2) ++ [')'], by simp⟩
  rcases hstar with hstar | hstar
  · rw [hstar, append_nil] at happend
    rw [hstar, happend] at hphrase
    exact .inl hphrase
  · rw [hstar] at hphrase happend
    exact .inr ⟨_, happend.symm, hphrase⟩

def ftsWords (raw : Text) : List Text :=
  (raw.splitOnP fun c => c == '"' || (c = '(' || c = ')') || isWhitespace c).filter (· ≠ [])

lemma mem_bagWords (h : word ∈ ftsWords raw) : ∃ quoted, (word, quoted) ∈ bagWords raw := by
  obtain ⟨hmem, hne⟩ := mem_filter.mp h
  rw [splitOnP_or, splitOnP_or, mem_flatMap] at hmem
  obtain ⟨part, hpart, hword⟩ := hmem
  obtain ⟨segment, hsegment, hpart⟩ := mem_flatMap.mp hpart
  obtain ⟨index, hindex⟩ := mem_iff_getElem?.mp hsegment
  refine ⟨isQuotedSegment (raw.splitOn '"').length index, mem_flatMap.mpr
    ⟨(segment, index), mk_mem_zipIdx_iff_getElem?.mpr hindex, ?_⟩⟩
  refine mem_map.mpr ⟨word, mem_flatMap.mpr ⟨part, hpart, ?_⟩, rfl⟩
  exact mem_filter.mpr ⟨hword, hne⟩

lemma plain_bagWord {entry : Text × Bool} (hraw : '\x00' ∉ raw) (h : entry ∈ bagWords raw) :
    Plain entry.1 := by
  obtain ⟨⟨segment, index⟩, hsegment, hmem⟩ := mem_flatMap.mp h
  obtain ⟨word, hword, rfl⟩ := mem_map.mp hmem
  obtain ⟨part, hpart, hword⟩ := mem_flatMap.mp hword
  have hsegment : segment ∈ raw.splitOn '"' :=
    mem_of_getElem? (mk_mem_zipIdx_iff_getElem?.mp hsegment)
  have hin : ∀ c ∈ word, c ∈ segment := fun c hc =>
    (mem_splitOnP hpart c ((mem_splitWhitespace hword).2 c hc)).2
  refine ⟨fun hc => ?_, fun hc => ?_⟩
  · exact Strings.notMem_segment hsegment (hin _ hc)
  · exact hraw (Strings.mem_of_mem_segment hsegment (hin _ hc))

lemma nul_notMem_boundedQueryText (raw : Text) : '\x00' ∉ boundedQueryText raw := by
  intro h
  obtain ⟨c, -, hc⟩ := mem_map.mp h
  split at hc
  · cases hc
  · rename_i hne
    exact hne hc

lemma wordBag_eq (U : CharTables) (stopwords : FtsStopwords) (raw : Text) :
    ∃ kept : List Text, wordBag U stopwords raw =
        orSeparator.intercalate (kept.map (quoteFts5Token U)) ∧
      (∀ word ∈ kept, ∃ quoted, (word, quoted) ∈ bagWords raw) ∧
      ∀ entry ∈ bagWords raw, isStopword U stopwords entry.1 = false → entry.1 ∈ kept := by
  rw [wordBag]
  refine ⟨_, rfl, ?_, ?_⟩
  · intro word hword
    split at hword
    · obtain ⟨entry, hentry, rfl⟩ := mem_map.mp hword
      exact ⟨entry.2, hentry⟩
    · obtain ⟨entry, hentry, rfl⟩ := mem_map.mp hword
      exact ⟨entry.2, (mem_filter.mp hentry).1⟩
  · intro entry hentry hstop
    split
    · exact mem_map_of_mem hentry
    · exact mem_map_of_mem (mem_filter.mpr ⟨hentry, by simp [hstop]⟩)

lemma isBag_wordBag (hraw : '\x00' ∉ raw) : IsBag (wordBag U stopwords raw) := by
  obtain ⟨kept, heq, hkept, -⟩ := wordBag_eq U stopwords raw
  refine ⟨_, ?_, heq⟩
  intro item hitem
  obtain ⟨word, hword, rfl⟩ := mem_map.mp hitem
  obtain ⟨quoted, hentry⟩ := hkept word hword
  exact quoteFts5Token_item (plain_bagWord hraw hentry)

lemma appears_wordBag (hraw : '\x00' ∉ raw) (hword : word ∈ ftsWords raw)
    (hstop : isStopword U stopwords word = false) : Appears word (wordBag U stopwords raw) := by
  obtain ⟨kept, heq, -, hall⟩ := wordBag_eq U stopwords raw
  obtain ⟨quoted, hentry⟩ := mem_bagWords hword
  have hitem : quoteFts5Token U word <:+: wordBag U stopwords raw := by
    rw [heq]
    exact infix_intercalate (mem_map_of_mem (hall _ hentry hstop))
  refine (appears_quoteFts5Token (plain_bagWord hraw hentry).1).imp (·.trans hitem) ?_
  exact fun ⟨core, hcore, hwithin⟩ => ⟨core, hcore, hwithin.trans hitem⟩

/-- The query of a text is empty, accepted, or a bag that holds every word of the text but the
stop words. -/
theorem prepareFts5Query_wellformed (U : CharTables) (stopwords : FtsStopwords)
    (parses : Text → Bool) (raw : Text) :
    (ftsTokens U stopwords (boundedQueryText raw) = [] ∧
      prepareFts5Query U stopwords parses raw = []) ∨
    (parses (prepareFts5Query U stopwords parses raw) = true ∧
      prepareFts5Query U stopwords parses raw = ftsCandidate U stopwords (boundedQueryText raw)) ∨
    (IsBag (prepareFts5Query U stopwords parses raw) ∧
      ∀ word ∈ ftsWords (boundedQueryText raw), isStopword U stopwords word = false →
        Appears word (prepareFts5Query U stopwords parses raw)) := by
  have hnul := nul_notMem_boundedQueryText raw
  rw [prepareFts5Query]
  split
  · rename_i htokens
    exact .inl ⟨htokens, rfl⟩
  split
  · rename_i hparses
    exact .inr (.inl ⟨hparses, rfl⟩)
  · exact .inr (.inr ⟨isBag_wordBag hnul, fun word hword hstop => appears_wordBag hnul hword hstop⟩)

end Store
