/-
The auxiliary index of Han, Kana and Hangul text (`ai-memory-store`, `fts_query.rs`).

A text is indexed under the scalars and the overlapping bigrams of each of its runs; a run of a
query becomes the phrase of its bigrams, or its one scalar.
-/
import AiMemory.Store.FtsQuery
import Mathlib.Data.Bool.AllAny

open List
open Strings (isWhitespace)
open Wiki (CharTables)
open Utf8 (byteLen byteLen_cons)

namespace Store

/-! ### The index -/

def within (c : Char) (low high : ℕ) : Bool := low ≤ c.toNat && c.toNat ≤ high

def inCjkBlock (c : Char) : Bool :=
  within c 0x1100 0x11ff || within c 0x2e80 0x2fff || within c 0x3005 0x3006
    || within c 0x3031 0x3035 || c.toNat = 0x303b || within c 0x3040 0x30ff
    || within c 0x3130 0x318f || within c 0x31f0 0x31ff || within c 0x3400 0x4dbf
    || within c 0x4e00 0x9fff || within c 0xa960 0xa97f || within c 0xac00 0xd7af
    || within c 0xd7b0 0xd7ff || within c 0xf900 0xfaff || within c 0xff66 0xff9f
    || within c 0x20000 0x323af

def isCjk (U : CharTables) (c : Char) : Bool := U.isAlphanumeric c && inCjkBlock c

/-- `windows(2)`. -/
def windows : Text → List Text
  | a :: b :: rest => [a, b] :: windows (b :: rest)
  | _ => []

variable (run : Text)

def cjkTerms : List Text := run.map (fun c => [c]) ++ windows run

def cjkIndexTermsFrom (U : CharTables) (run : Text) : Text → List Text
  | [] => cjkTerms run
  | c :: text =>
    if isCjk U c then cjkIndexTermsFrom U (run ++ [c]) text
    else cjkTerms run ++ cjkIndexTermsFrom U [] text

def cjkIndexTerms (U : CharTables) (raw : Text) : Text :=
  [' '].intercalate (cjkIndexTermsFrom U [] raw)

def appendCjkQuery (column : Option Text) (run : Text) : List Text :=
  if run = [] then []
  else
    let qualifier := column.elim [] (· ++ [':'])
    if run.length = 1 then [qualifier ++ '"' :: (run ++ ['"'])]
    else [qualifier ++ '"' :: ([' '].intercalate (windows run) ++ ['"'])]

def cjkPhrasesFrom (U : CharTables) (column : Option Text) (run : Text) :
    Text → List Text
  | [] => appendCjkQuery column run
  | c :: text =>
    if isCjk U c then cjkPhrasesFrom U column (run ++ [c]) text
    else appendCjkQuery column run ++ cjkPhrasesFrom U column [] text

def cjkTokenPhrases (U : CharTables) (token : Text) : List Text :=
  let token := token.dropWhile (· = '(')
  match Strings.splitOnce [':'] token with
  | some (column, text) =>
    if column = "title".toList ∨ column = "body".toList then cjkPhrasesFrom U (some column) [] text
    else cjkPhrasesFrom U none [] token
  | none => cjkPhrasesFrom U none [] token

def isExcludingOperator (token : Text) : Bool :=
  token = "AND".toList || token = "NOT".toList || token = "NEAR".toList

/-- A `MATCH` expression for the runs of a bounded query. -/
def prepareCjkFts5Query (U : CharTables) (raw : Text) : Option Text :=
  let tokens := splitWhitespace (boundedQueryText raw)
  if tokens.any isExcludingOperator then none
  else
    let phrases := tokens.flatMap (cjkTokenPhrases U)
    if phrases = [] then none else some (orSeparator.intercalate phrases)

lemma windows_cons (a b : Char) (rest : Text) :
    windows (a :: b :: rest) = [a, b] :: windows (b :: rest) := rfl

lemma length_of_mem_windows {run pair : Text} (h : pair ∈ windows run) : pair.length = 2 := by
  induction run with
  | nil => cases h
  | cons a run ih =>
    cases run with
    | nil => cases h
    | cons b rest =>
      rcases mem_cons.mp h with rfl | h
      · rfl
      · exact ih h

lemma windows_prefix {a b : Char} {q s : Text} :
    windows (a :: b :: q) <+: windows s ↔ (a :: b :: q) <+: s := by
  induction q generalizing a b s with
  | nil =>
    match s with
    | [] | [x] => exact iff_of_false (by simp [windows]) (by simp)
    | x :: y :: rest => simp [windows]
  | cons c q ih =>
    match s with
    | [] | [x] => exact iff_of_false (by simp [windows]) (by simp)
    | x :: y :: rest =>
      rw [windows_cons a b, windows_cons x y, cons_prefix_cons, ih]
      constructor
      · rintro ⟨hpair, hrest⟩
        obtain ⟨rfl, rfl⟩ : a = x ∧ b = y := by simpa using hpair
        exact cons_prefix_cons.mpr ⟨rfl, hrest⟩
      · intro h
        obtain ⟨rfl, hrest⟩ := cons_prefix_cons.mp h
        obtain ⟨rfl, -⟩ := cons_prefix_cons.mp hrest
        exact ⟨rfl, hrest⟩

lemma windows_infix {a b : Char} {q s : Text} :
    windows (a :: b :: q) <:+: windows s ↔ (a :: b :: q) <:+: s := by
  induction s with
  | nil => exact iff_of_false (by simp [windows]) (by simp)
  | cons x s ih =>
    rw [infix_cons_iff, ← windows_prefix, ← ih]
    cases s with
    | nil => simp [windows]
    | cons y rest => rw [windows_cons x y, infix_cons_iff]

lemma infix_append_cons_iff {α : Type} {P : α → Prop} {l s t : List α} {x : α} (hne : l ≠ [])
    (hl : ∀ y ∈ l, P y) (hx : ¬ P x) : l <:+: s ++ x :: t ↔ l <:+: s ∨ l <:+: t := by
  constructor
  · intro h
    induction s with
    | nil =>
      rw [nil_append, infix_cons_iff] at h
      refine h.elim (fun hbegin => ?_) .inr
      obtain ⟨y, l, rfl⟩ := exists_cons_of_ne_nil hne
      rw [cons_prefix_cons] at hbegin
      exact absurd (hbegin.1 ▸ hl y mem_cons_self) hx
    | cons y s ih =>
      rw [cons_append, infix_cons_iff] at h
      rcases h with hbegin | h
      · -- the list ends before the element
        left
        have hshort : l <+: y :: s := by
          rcases prefix_or_prefix_of_prefix hbegin (prefix_append (y :: s) (x :: t))
            with hshort | ⟨rest, rfl⟩
          · exact hshort
          · cases rest with
            | nil => rw [append_nil]
            | cons z rest =>
              have hz : y :: s ++ z :: rest <+: y :: s ++ x :: t := hbegin
              rw [prefix_append_right_inj, cons_prefix_cons] at hz
              exact absurd (hz.1 ▸ hl z (by simp)) hx
        exact hshort.isInfix
      · exact (ih h).imp_left fun hs => hs.trans (infix_cons_iff.mpr (.inr infix_rfl))
  · rintro (h | h)
    · exact h.trans (prefix_append _ _).isInfix
    · exact h.trans ⟨s ++ [x], [], by simp⟩

variable {U : CharTables}

lemma infix_scalars_iff {l rest : List Text} (hne : l ≠ [])
    (hl : ∀ pair ∈ l, pair.length = 2) (run : Text) :
    l <:+: run.map (fun c => [c]) ++ rest ↔ l <:+: rest := by
  induction run with
  | nil => exact Iff.rfl
  | cons c run ih =>
    have hcons : l <:+: [] ++ [c] :: (run.map (fun c => [c]) ++ rest) ↔
        l <:+: [] ∨ l <:+: run.map (fun c => [c]) ++ rest :=
      infix_append_cons_iff hne hl (by simp)
    rw [nil_append, ih] at hcons
    rw [map_cons, cons_append, hcons]
    exact or_iff_right fun h => hne (infix_nil.mp h)

lemma head_cjkTerms : ∀ term ∈ (cjkTerms run).head?, term.length = 1 := by
  cases run with
  | nil => exact fun term h => nomatch h
  | cons c run =>
    intro term h
    rw [← Option.some.inj h]
    rfl

lemma head_cjkIndexTermsFrom (run text : Text) :
    ∀ term ∈ (cjkIndexTermsFrom U run text).head?, term.length = 1 := by
  induction text generalizing run with
  | nil => exact head_cjkTerms run
  | cons c text ih =>
    rw [cjkIndexTermsFrom]
    split
    · exact ih _
    · cases run with
      | nil => exact ih []
      | cons d run =>
        intro term h
        rw [← Option.some.inj h]
        rfl

lemma infix_terms_iff {l front rest : List Text} (hne : l ≠ [])
    (hl : ∀ pair ∈ l, pair.length = 2) (hrest : ∀ term ∈ rest.head?, term.length = 1) :
    l <:+: front ++ rest ↔ l <:+: front ∨ l <:+: rest := by
  cases rest with
  | nil =>
    rw [append_nil, infix_nil]
    exact (or_iff_left hne).symm
  | cons term rest =>
    have hterm : ¬ term.length = 2 := by
      have hlength := hrest term rfl
      omega
    have hcons : l <:+: [] ++ term :: rest ↔ l <:+: [] ∨ l <:+: rest :=
      infix_append_cons_iff hne hl hterm
    rw [nil_append, infix_nil, or_iff_right hne] at hcons
    rw [infix_append_cons_iff hne hl hterm, hcons]

lemma windows_terms {a b : Char} {q : Text} (hq : ∀ c ∈ a :: b :: q, isCjk U c = true)
    (run text : Text) : windows (a :: b :: q) <:+: cjkIndexTermsFrom U run text ↔
      (a :: b :: q) <:+: run ++ text := by
  have hne : windows (a :: b :: q) ≠ [] := cons_ne_nil _ _
  have hpairs : ∀ pair ∈ windows (a :: b :: q), pair.length = 2 :=
    fun pair hpair => length_of_mem_windows hpair
  have hrun : ∀ run, windows (a :: b :: q) <:+: cjkTerms run ↔ (a :: b :: q) <:+: run := by
    intro run
    rw [cjkTerms, infix_scalars_iff hne hpairs, windows_infix]
  induction text generalizing run with
  | nil => rw [cjkIndexTermsFrom, hrun, append_nil]
  | cons c text ih =>
    rw [cjkIndexTermsFrom]
    split
    · refine Iff.trans (ih (run ++ [c])) ?_
      rw [append_assoc]
      rfl
    · rename_i hc
      have hnext : windows (a :: b :: q) <:+: cjkIndexTermsFrom U [] text ↔
          (a :: b :: q) <:+: [] ++ text := ih []
      rw [infix_terms_iff hne hpairs (head_cjkIndexTermsFrom [] text), hrun, hnext, nil_append,
        infix_append_cons_iff (cons_ne_nil _ _) hq hc]

lemma scalar_terms {c : Char} (hc : isCjk U c) (run text : Text) :
    [c] ∈ cjkIndexTermsFrom U run text ↔ c ∈ run ++ text := by
  have hrun : ∀ run, [c] ∈ cjkTerms run ↔ c ∈ run := by
    intro run
    rw [cjkTerms, mem_append, mem_map]
    constructor
    · rintro (⟨d, hd, heq⟩ | hpair)
      · rwa [← singleton_inj.mp heq]
      · exact absurd (length_of_mem_windows hpair) (by simp)
    · exact fun h => .inl ⟨c, h, rfl⟩
  induction text generalizing run with
  | nil => rw [cjkIndexTermsFrom, hrun, append_nil]
  | cons d text ih =>
    rw [cjkIndexTermsFrom]
    split
    · refine Iff.trans (ih (run ++ [d])) ?_
      rw [append_assoc]
      rfl
    · rename_i hd
      have hne : c ≠ d := by
        rintro rfl
        exact hd hc
      have hnext : [c] ∈ cjkIndexTermsFrom U [] text ↔ c ∈ [] ++ text := ih []
      rw [mem_append, hrun, hnext, nil_append, mem_append, mem_cons, or_iff_right hne]

lemma solid_of_cjk {word : Text} (hne : word ≠ []) (h : ∀ c ∈ word, isCjk U c = true) :
    Solid word := by
  refine ⟨hne, fun c hc => ?_⟩
  have hblock := (Bool.and_eq_true_iff.mp (h c hc)).2
  simp only [inCjkBlock, within, Bool.or_eq_true, Bool.and_eq_true, decide_eq_true_eq] at hblock
  simp only [isWhitespace, Bool.or_eq_false_iff, Bool.and_eq_false_iff, decide_eq_false_iff_not]
  omega

lemma mem_of_mem_windows {run pair : Text} {c : Char} (h : pair ∈ windows run)
    (hc : c ∈ pair) : c ∈ run := by
  induction run with
  | nil => cases h
  | cons a run ih =>
    cases run with
    | nil => cases h
    | cons b rest =>
      rcases mem_cons.mp h with rfl | h
      · rcases mem_pair.mp hc with rfl | rfl
        · exact mem_cons_self
        · exact mem_cons_of_mem _ mem_cons_self
      · exact mem_cons_of_mem _ (ih h)

lemma solid_of_mem_windows {run : Text} (h : ∀ c ∈ run, isCjk U c = true) :
    ∀ pair ∈ windows run, Solid pair := by
  intro pair hpair
  refine solid_of_cjk (U := U) ?_ fun c hc => h c (mem_of_mem_windows hpair hc)
  rintro rfl
  exact absurd (length_of_mem_windows hpair) (by decide)

lemma solid_cjkTerms {run : Text} (h : ∀ c ∈ run, isCjk U c = true) :
    ∀ term ∈ cjkTerms run, Solid term := by
  intro term hterm
  rcases mem_append.mp hterm with hterm | hterm
  · obtain ⟨c, hc, rfl⟩ := mem_map.mp hterm
    exact solid_of_cjk (cons_ne_nil _ _) (forall_mem_singleton.mpr (h c hc))
  · exact solid_of_mem_windows h term hterm

lemma solid_cjkIndexTermsFrom {run : Text} (h : ∀ c ∈ run, isCjk U c = true)
    (text : Text) : ∀ term ∈ cjkIndexTermsFrom U run text, Solid term := by
  induction text generalizing run with
  | nil => exact solid_cjkTerms h
  | cons c text ih =>
    rw [cjkIndexTermsFrom]
    split
    · rename_i hc
      exact ih (forall_mem_append.mpr ⟨h, forall_mem_singleton.mpr hc⟩)
    · exact forall_mem_append.mpr ⟨solid_cjkTerms h, ih (forall_mem_nil _)⟩

/-! ### A query of one run -/

variable {query : Text}

lemma le_toNat_of_cjk {c : Char} (h : isCjk U c) : 0x1100 ≤ c.toNat := by
  have hblock := (Bool.and_eq_true_iff.mp h).2
  simp only [inCjkBlock, within, Bool.or_eq_true, Bool.and_eq_true, decide_eq_true_eq] at hblock
  omega

lemma notMem_of_cjk (h : ∀ c ∈ query, isCjk U c = true) {d : Char} (hd : d.toNat < 0x1100) :
    d ∉ query := by
  intro hmem
  have hle := le_toNat_of_cjk (h d hmem)
  omega

lemma boundedQueryText_cjk (h : ∀ c ∈ query, isCjk U c = true) :
    boundedQueryText query = takeBytes maxFtsQueryBytes query := by
  have hbounded : ∀ c ∈ takeBytes maxFtsQueryBytes query, (if c = '\x00' then ' ' else c) = c := by
    intro c hc
    have hmem := (takeBytes_begins maxFtsQueryBytes query).subset hc
    rw [if_neg]
    rintro rfl
    exact notMem_of_cjk h (by decide) hmem
  rw [boundedQueryText, map_congr_left hbounded, map_id']

lemma cjkPhrasesFrom_run (h : ∀ c ∈ query, isCjk U c = true) (column : Option Text)
    (run : Text) : cjkPhrasesFrom U column run query = appendCjkQuery column (run ++ query) := by
  induction query generalizing run with
  | nil => rw [cjkPhrasesFrom, append_nil]
  | cons c query ih =>
    obtain ⟨hc, hquery⟩ := forall_mem_cons.mp h
    rw [cjkPhrasesFrom, if_pos hc, ih hquery, append_assoc]
    rfl

lemma cjkTokenPhrases_run (h : ∀ c ∈ query, isCjk U c = true) :
    cjkTokenPhrases U query = appendCjkQuery none query := by
  have hopen : query.dropWhile (· = '(') = query := by
    cases query with
    | nil => rfl
    | cons c query =>
      have hc : c ≠ '(' := by
        rintro rfl
        exact notMem_of_cjk h (by decide) mem_cons_self
      rw [dropWhile_cons_of_neg (by simpa using hc)]
  have hcolumn : Strings.splitOnce [':'] query = none :=
    Strings.splitOnce_eq_none.mpr (notMem_of_cjk h (by decide))
  rw [cjkTokenPhrases, hopen, hcolumn]
  exact cjkPhrasesFrom_run h none []

def phraseTerms : List Text :=
  if run.length = 1 then [run] else windows run

lemma appendCjkQuery_run {run : Text} (hne : run ≠ []) : appendCjkQuery none run =
    ['"' :: ([' '].intercalate (phraseTerms run) ++ ['"'])] := by
  rw [appendCjkQuery, if_neg hne, phraseTerms]
  split
  · rw [intercalate_singleton]
    rfl
  · rfl

lemma prepareCjkFts5Query_run (hne : query ≠ []) (h : ∀ c ∈ query, isCjk U c = true) :
    prepareCjkFts5Query U query = some ('"' ::
      ([' '].intercalate (phraseTerms (takeBytes maxFtsQueryBytes query)) ++ ['"'])) := by
  have hcut : ∀ c ∈ takeBytes maxFtsQueryBytes query, isCjk U c = true :=
    fun c hc => h c ((takeBytes_begins _ _).subset hc)
  have hcutNe : takeBytes maxFtsQueryBytes query ≠ [] := takeBytes_ne_nil hne (by decide)
  have hoperator : isExcludingOperator (takeBytes maxFtsQueryBytes query) = false := by
    have hA := notMem_of_cjk hcut (show 'A'.toNat < 0x1100 by decide)
    have hN := notMem_of_cjk hcut (show 'N'.toNat < 0x1100 by decide)
    simp only [isExcludingOperator, Bool.or_eq_false_iff, decide_eq_false_iff_not]
    refine ⟨⟨?_, ?_⟩, ?_⟩
    · intro heq
      exact hA (heq ▸ by decide)
    all_goals
      intro heq
      exact hN (heq ▸ by decide)
  have hwords : splitWhitespace (boundedQueryText query) = [takeBytes maxFtsQueryBytes query] := by
    rw [boundedQueryText_cjk h, splitWhitespace_word (solid_of_cjk hcutNe hcut)]
  have hphrases : cjkTokenPhrases U (takeBytes maxFtsQueryBytes query) =
      ['"' :: ([' '].intercalate (phraseTerms (takeBytes maxFtsQueryBytes query)) ++ ['"'])] := by
    rw [cjkTokenPhrases_run hcut, appendCjkQuery_run hcutNe]
  simp [prepareCjkFts5Query, hwords, hoperator, hphrases]

lemma phraseTerms_infix (hne : query ≠ []) (h : ∀ c ∈ query, isCjk U c = true) (text : Text) :
    splitWhitespace ([' '].intercalate (phraseTerms query)) <:+:
      splitWhitespace (cjkIndexTerms U text) ↔ query <:+: text := by
  have hterms : splitWhitespace (cjkIndexTerms U text) = cjkIndexTermsFrom U [] text :=
    splitWhitespace_intercalate (solid_cjkIndexTermsFrom (forall_mem_nil _) text)
  match query, hne with
  | [c], _ =>
    have hc : isCjk U c := h c mem_cons_self
    have hword : splitWhitespace ([' '].intercalate (phraseTerms [c])) = [[c]] := by
      rw [phraseTerms, if_pos length_singleton, intercalate_singleton]
      exact splitWhitespace_word (solid_of_cjk (cons_ne_nil _ _) h)
    rw [hword, hterms, singleton_infix_iff, singleton_infix_iff]
    exact scalar_terms hc [] text
  | a :: b :: rest, _ =>
    have hlength : ¬ (a :: b :: rest).length = 1 := by simp
    have hwords : splitWhitespace ([' '].intercalate (phraseTerms (a :: b :: rest))) =
        windows (a :: b :: rest) := by
      rw [phraseTerms, if_neg hlength]
      exact splitWhitespace_intercalate (solid_of_mem_windows h)
    rw [hwords, hterms]
    exact windows_terms h [] text

/-- The phrase of a run finds the texts that hold the run, or what was left of it. -/
theorem cjk_phrase_found (hne : query ≠ []) (h : ∀ c ∈ query, isCjk U c = true) :
    ∃ phrase, prepareCjkFts5Query U query = some ('"' :: (phrase ++ ['"'])) ∧
      (∀ text, splitWhitespace phrase <:+: splitWhitespace (cjkIndexTerms U text) ↔
        takeBytes maxFtsQueryBytes query <:+: text) ∧
      (byteLen query ≤ maxFtsQueryBytes → takeBytes maxFtsQueryBytes query = query) := by
  refine ⟨_, prepareCjkFts5Query_run hne h, fun text => ?_, takeBytes_of_le⟩
  exact phraseTerms_infix (takeBytes_ne_nil hne (by decide))
    (fun c hc => h c ((takeBytes_begins _ _).subset hc)) text

lemma appendCjkQuery_eq_nil {column : Option Text} {run : Text} :
    appendCjkQuery column run = [] ↔ run = [] := by
  rw [appendCjkQuery]
  split
  · rename_i hrun
    exact iff_of_true rfl hrun
  · rename_i hrun
    refine iff_of_false ?_ hrun
    split
    · exact cons_ne_nil _ _
    · exact cons_ne_nil _ _

lemma cjkPhrasesFrom_eq_nil {column : Option Text} {run text : Text} :
    cjkPhrasesFrom U column run text = [] ↔ run = [] ∧ ∀ c ∈ text, isCjk U c = false := by
  induction text generalizing run with
  | nil => simp [cjkPhrasesFrom, appendCjkQuery_eq_nil]
  | cons c text ih =>
    rw [cjkPhrasesFrom, forall_mem_cons]
    split
    · rename_i hc
      simp [ih, hc]
    · rename_i hc
      rw [append_eq_nil_iff, appendCjkQuery_eq_nil, ih]
      simp [hc]

lemma cjkTokenPhrases_eq_nil {token : Text} :
    cjkTokenPhrases U token = [] ↔ ∀ c ∈ token, isCjk U c = false := by
  have hlow : ∀ c : Char, c.toNat < 0x1100 → isCjk U c = false := by
    intro c hc
    rw [Bool.eq_false_iff]
    intro hcjk
    have hle := le_toNat_of_cjk hcjk
    omega
  have hopen : (∀ c ∈ token, isCjk U c = false) ↔
      ∀ c ∈ token.dropWhile (· = '('), isCjk U c = false := by
    have htoken := takeWhile_append_dropWhile (p := (· = '(')) (l := token)
    constructor
    · exact fun h c hc => h c ((dropWhile_sublist _).subset hc)
    · intro h c hc
      rw [← htoken] at hc
      rcases mem_append.mp hc with hc | hc
      · have hparen := Strings.of_mem_takeWhile hc
        simp only [decide_eq_true_eq] at hparen
        rw [hparen]
        exact hlow _ (by decide)
      · exact h c hc
  have hwhole : ∀ column text, cjkPhrasesFrom U column [] text = [] ↔
      ∀ c ∈ text, isCjk U c = false := by
    intro column text
    rw [cjkPhrasesFrom_eq_nil]
    exact and_iff_right rfl
  rw [cjkTokenPhrases, hopen]
  generalize token.dropWhile (· = '(') = token
  cases hsplit : Strings.splitOnce [':'] token with
  | none => exact hwhole none token
  | some parts =>
    obtain ⟨column, text⟩ := parts
    obtain ⟨rfl, -⟩ := Strings.splitOnce_singleton_eq_some.mp hsplit
    dsimp only
    split
    · rename_i hcolumn
      rw [hwhole, forall_mem_append, forall_mem_cons]
      have hplain : ∀ c ∈ column, isCjk U c = false := by
        intro c hc
        have htitle : ∀ c ∈ "title".toList, c.toNat < 0x1100 :=
          all_iff_forall_prop.mp (by decide)
        have hbody : ∀ c ∈ "body".toList, c.toNat < 0x1100 :=
          all_iff_forall_prop.mp (by decide)
        rcases hcolumn with rfl | rfl
        · exact hlow c (htitle c hc)
        · exact hlow c (hbody c hc)
      exact ⟨fun h => ⟨hplain, hlow _ (by decide), h⟩, fun h => h.2.2⟩
    · exact hwhole none _

lemma prepareCjkFts5Query_eq_none {raw : Text} : prepareCjkFts5Query U raw = none ↔
    (splitWhitespace (boundedQueryText raw)).any isExcludingOperator ∨
      ∀ c ∈ boundedQueryText raw, isCjk U c = false := by
  have hwords : (splitWhitespace (boundedQueryText raw)).flatMap (cjkTokenPhrases U) = [] ↔
      ∀ c ∈ boundedQueryText raw, isCjk U c = false := by
    rw [flatMap_eq_nil_iff]
    constructor
    · intro h c hc
      by_contra hcjk
      have hcjk : isCjk U c := by simpa using hcjk
      have hsolid := (solid_of_cjk (cons_ne_nil c [])
        (forall_mem_singleton.mpr hcjk)).2 c mem_cons_self
      obtain ⟨word, hword, hmem⟩ := exists_mem_splitWhitespace hc hsolid
      rw [cjkTokenPhrases_eq_nil.mp (h word hword) c hmem] at hcjk
      cases hcjk
    · exact fun h word hword => cjkTokenPhrases_eq_nil.mpr fun c hc =>
        h c ((mem_splitWhitespace hword).2 c hc)
  rw [prepareCjkFts5Query, ← hwords]
  by_cases hdeclined : (splitWhitespace (boundedQueryText raw)).any isExcludingOperator
  · simp [hdeclined]
  · by_cases hphrases : (splitWhitespace (boundedQueryText raw)).flatMap (cjkTokenPhrases U) = []
    · simp [hdeclined, hphrases]
    · simp [hdeclined, hphrases]

def tablesWith (letters : String) : CharTables where
  isAlphanumeric c := c.isAlphanum || letters.toList.contains c
  lowercase := fun s => String.ofList (s.toList.map Char.toLower)

/-- `日日` is found where it stands in a line of three. -/
theorem cjk_phrase_found_pair :
    ∃ phrase, prepareCjkFts5Query (tablesWith "日") ['日', '日'] = some ('"' :: (phrase ++ ['"'])) ∧
      (∀ text, splitWhitespace phrase <:+: splitWhitespace (cjkIndexTerms (tablesWith "日") text) ↔
        takeBytes maxFtsQueryBytes ['日', '日'] <:+: text) ∧
      (byteLen ['日', '日'] ≤ maxFtsQueryBytes →
        takeBytes maxFtsQueryBytes ['日', '日'] = ['日', '日']) :=
  cjk_phrase_found (by decide) (all_iff_forall_prop.mp (by decide))

/-- A run that is cut finds a text that ends where the cut is. -/
theorem long_run_cut : ¬ ∀ (U : CharTables) (query text phrase : Text), query ≠ [] →
    (∀ c ∈ query, isCjk U c = true) →
    prepareCjkFts5Query U query = some ('"' :: (phrase ++ ['"'])) →
    (splitWhitespace phrase <:+: splitWhitespace (cjkIndexTerms U text) ↔ query <:+: text) := by
  intro hfound
  have hsun : ∀ n, ∀ c ∈ List.replicate n '日', isCjk (tablesWith "日") c = true := by
    intro n c hc
    rw [eq_of_mem_replicate hc]
    decide
  have hsize : ∀ n, byteLen (List.replicate n '日') = 3 * n := by
    intro n
    induction n with
    | zero => rfl
    | succ n ih =>
      have hone : '日'.utf8Size = 3 := by decide
      rw [replicate_succ, byteLen_cons, ih, hone]
      omega
  -- 1365 ideographs fit in 4096 bytes, one more does not
  have hcut : takeBytes maxFtsQueryBytes (List.replicate 1366 '日') = List.replicate 1365 '日' := by
    have hfits : byteLen (List.replicate 1365 '日') ≤ maxFtsQueryBytes := by
      rw [hsize, maxFtsQueryBytes]
      omega
    have hlast : takeBytes (maxFtsQueryBytes - byteLen (List.replicate 1365 '日')) ['日'] = [] := by
      rw [hsize]
      decide
    rw [replicate_succ', takeBytes_append_of_le hfits, hlast, append_nil]
  have hne : ∀ n, List.replicate (n + 1) '日' ≠ [] := fun n => cons_ne_nil _ _
  have hquery := hfound (tablesWith "日") (List.replicate 1366 '日') (List.replicate 1365 '日') _ (hne _)
    (hsun 1366) (prepareCjkFts5Query_run (hne _) (hsun 1366))
  rw [hcut, phraseTerms_infix (hne _) (hsun 1365)] at hquery
  have hlength := (hquery.mp infix_rfl).length_le
  rw [length_replicate, length_replicate] at hlength
  omega

end Store
