/-
The tokens that a rewrite keeps (`ai-memory-consolidate`, `keep_tokens.rs` and `compaction.rs`).

The search for a token walks its matches from the left, none inside another.  So it comes to an
occurrence unless that starts inside an earlier match; and then it may miss a whole one.
-/
import AiMemory.Consolidate.Residue

open Strings Utf8 List

namespace Consolidate

open Store (takeBytes splitWhitespace)

variable {text token : Text} {start : ℕ}

def isWord (c : Char) : Bool := c.isAlphanum || c = '_'

/-- `str::match_indices`, by characters; `skip` more of them belong to the last match. -/
def matchIndicesFrom (token : Text) : ℕ → ℕ → Text → List ℕ
  | _, _, [] => []
  | skip + 1, index, _ :: rest => matchIndicesFrom token skip (index + 1) rest
  | 0, index, c :: rest =>
    if token.isPrefixOf (c :: rest) then
      index :: matchIndicesFrom token (token.length - 1) (index + 1) rest
    else matchIndicesFrom token 0 (index + 1) rest

def matchIndices (text token : Text) : List ℕ := matchIndicesFrom token 0 0 text

def glued (text token : Text) (start : ℕ) : Bool :=
  let before := (text.take start).getLast?
  let after := (text.drop (start + token.length)).head?
  token.head?.any isWord && before.any isWord || token.getLast?.any isWord && after.any isWord

def containsToken (text token : Text) : Bool :=
  if token = [] then false
  else (matchIndices text token).any fun start => !glued text token start

def maxTokens : ℕ := 48

def codeSpanPattern : Pattern := ⟨"`([^`\\n]\x7b1,120\x7d)`", 1, false⟩

def keepPatterns : List Pattern :=
  [⟨"https?://[^\\s<>()\\[\\]\"'`]+", 0, false⟩,
    ⟨"\\b(?:[A-Za-z0-9_.-]+/)+[A-Za-z0-9_.-]+\\.[A-Za-z0-9]+\\b", 0, false⟩,
    ⟨"\\b[A-Za-z0-9_.-]+\\.(?:rs|md|toml|sql|json|ya?ml|sh|py|js|ts|tsx|jsx|rb|go|c|h|cc|cpp|hpp|txt|lock|cfg|ini|env|xml|html|css|proto)\\b", 0, false⟩,
    ⟨"\\bE\\d\x7b2,4\x7d\\b", 0, false⟩,
    ⟨"\\bHTTP\\s?\\d\x7b3\x7d\\b", 0, false⟩,
    codeSpanPattern,
    ⟨"\\b[A-Z][A-Z0-9]*(?:_[A-Z0-9]+)+\\b", 0, false⟩,
    ⟨"\\b(?:[a-z][a-z0-9]*_[a-z0-9_]+|[a-z][a-z0-9]*[A-Z][A-Za-z0-9]*)\\b", 0, false⟩]

variable (X : Crates)

def mineKeepTokens (body : Text) : List Text :=
  mine X keepPatterns body maxTokens

def droppedFrom (rewrite : Text) : List Text → List Text → List Text
  | _, [] => []
  | seen, token :: rest =>
    if containsToken rewrite token || seen.contains token then droppedFrom rewrite seen rest
    else token :: droppedFrom rewrite (token :: seen) rest

def droppedKeepTokens (sources : List Text) (rewrite : Text) :
    List Text :=
  droppedFrom rewrite [] (sources.flatMap (mineKeepTokens X))

/-! ### Compaction -/

def compactionFooter : Text :=
  "_Extractively compacted from a cold episodic page (A2 tier-down). The full pre-compaction body is retained in git history and the supersession chain, and can be recovered with `restore-page`._".toList

def maxSummaryLen : ℕ := 500

def truncate (text : Text) : Text :=
  if byteLen text ≤ maxSummaryLen then text else takeBytes maxSummaryLen text ++ ['…']

def firstParagraph : List Text → List Text → List Text
  | paragraph, [] => paragraph
  | paragraph, line :: rest =>
    if line = [] ∨ line.head? = some '#' then
      if paragraph = [] then firstParagraph [] rest else paragraph
    else firstParagraph (paragraph ++ [line]) rest

variable (frontmatter : Json.Value)

def summaryField (key : String) : Option Text :=
  ((frontmatter.get? key).bind Json.Value.asStr?).bind fun text =>
    if trim text.toList = [] then none else some (trim text.toList)

def summaryLine (body : Text) : Option Text :=
  match ["summary", "abstract"].findSome? (summaryField frontmatter) with
  | some text => some (truncate text)
  | none =>
    let paragraph := firstParagraph [] ((Wiki.lines body).map trim)
    let collapsed := [' '].intercalate (splitWhitespace ([' '].intercalate paragraph))
    if collapsed = [] then none else some (truncate collapsed)

/-- `Map::insert`: in the place of the key, or behind the last field. -/
def insertField (fields : List (String × Json.Value)) (key : String) (value : Json.Value) :
    List (String × Json.Value) :=
  if fields.any (·.1 = key) then fields.map fun f => if f.1 = key then (key, value) else f
  else fields ++ [(key, value)]

def factLine (token : Text) : Text := "- `".toList ++ token ++ "`\n".toList

def buildCompactedMarkdown (frontmatter : Json.Value) (body : Text) :
    Json.Value × Text :=
  let fields := insertField (frontmatter.asObject?.getD []) "compacted" (.bool true)
  let tokens := mineKeepTokens X body
  (.object fields,
    ((summaryLine (.object fields) body).map (· ++ "\n\n".toList)).getD []
      ++ (if tokens = [] then []
        else "## Retained facts\n\n".toList ++ tokens.flatMap factLine ++ ['\n'])
      ++ compactionFooter ++ ['\n'])

/-! ### What the walk comes to -/

def Occurs (text token : Text) (start : ℕ) : Prop := token <+: text.drop start

/-- The token stands here as a word of its own. -/
def Whole (text token : Text) (start : ℕ) : Prop :=
  Occurs text token start ∧ glued text token start = false

/-- A match that is found first reaches over this place. -/
def Overlapped (text token : Text) (start : ℕ) : Prop :=
  ∃ m ∈ matchIndices text token, m < start ∧ start < m + token.length

structure Walk (token rest : Text) (first index : ℕ) (found : List ℕ) : Prop where
  sound : ∀ m ∈ found, first ≤ m ∧ Occurs rest token (m - index)
  complete : ∀ p, first ≤ p → Occurs rest token (p - index) →
    p ∈ found ∨ ∃ m ∈ found, m < p ∧ p < m + token.length
  apart : found.Pairwise fun a b => a + token.length ≤ b

lemma walk_matchIndicesFrom (htoken : token ≠ []) (skip index : ℕ) (rest : Text) :
    Walk token rest (index + skip) index (matchIndicesFrom token skip index rest) := by
  have hpos := length_pos_iff.mpr htoken
  induction rest generalizing skip index with
  | nil =>
    refine ⟨fun m hm => ?_, fun p _ hp => ?_, ?_⟩
    · cases skip <;> cases hm
    · rw [Occurs, drop_nil] at hp
      exact absurd (prefix_nil.mp hp) htoken
    · cases skip <;> exact .nil
  | cons c rest ih =>
    have hshift : ∀ {m : ℕ}, index < m →
        (Occurs (c :: rest) token (m - index) ↔ Occurs rest token (m - (index + 1))) := by
      intro m hm
      rw [Occurs, Occurs, show m - index = m - (index + 1) + 1 by omega, drop_succ_cons]
    -- a walk that starts behind the first character, with its offsets counted from the first
    have hbehind : ∀ skip', Walk token (c :: rest) (index + 1 + skip') index
        (matchIndicesFrom token skip' (index + 1) rest) := by
      intro skip'
      have hrest := ih skip' (index + 1)
      refine ⟨fun m hm => ?_, fun p hp hocc => ?_, hrest.apart⟩
      · obtain ⟨hle, hocc⟩ := hrest.sound m hm
        exact ⟨hle, (hshift (by omega)).mpr hocc⟩
      · exact hrest.complete p hp ((hshift (by omega)).mp hocc)
    cases skip with
    | succ skip =>
      rw [matchIndicesFrom, show index + (skip + 1) = index + 1 + skip by omega]
      exact hbehind skip
    | zero =>
      rw [matchIndicesFrom]
      split
      · rename_i hhit
        have hlast := hbehind (token.length - 1)
        have hnext : index + 1 + (token.length - 1) = index + token.length := by omega
        rw [hnext] at hlast
        refine ⟨fun m hm => ?_, fun p hp hocc => ?_, pairwise_cons.mpr ⟨fun m hm => ?_, hlast.apart⟩⟩
        · rcases mem_cons.mp hm with rfl | hm
          · refine ⟨le_rfl, ?_⟩
            rw [Occurs, Nat.sub_self]
            exact isPrefixOf_iff_prefix.mp hhit
          · obtain ⟨hle, hocc⟩ := hlast.sound m hm
            exact ⟨by omega, hocc⟩
        · rcases Nat.lt_or_ge p (index + token.length) with hnear | hfar
          · rcases Nat.eq_or_lt_of_le hp with rfl | hafter
            · exact .inl mem_cons_self
            · exact .inr ⟨index, mem_cons_self, by omega, hnear⟩
          · rcases hlast.complete p hfar hocc with hin | ⟨m, hm, hover⟩
            · exact .inl (mem_cons_of_mem _ hin)
            · exact .inr ⟨m, mem_cons_of_mem _ hm, hover⟩
        · exact (hlast.sound m hm).1
      · rename_i hmiss
        have hlast := hbehind 0
        refine ⟨fun m hm => ?_, fun p hp hocc => ?_, hlast.apart⟩
        · obtain ⟨hle, hocc⟩ := hlast.sound m hm
          exact ⟨by omega, hocc⟩
        · rcases Nat.eq_or_lt_of_le hp with rfl | hafter
          · rw [Nat.add_zero, Occurs, Nat.sub_self] at hocc
            exact absurd (List.isPrefixOf_iff_prefix.mpr hocc) hmiss
          · exact hlast.complete p (by omega) hocc

lemma mem_matchIndices_iff (htoken : token ≠ []) :
    start ∈ matchIndices text token ↔ Occurs text token start ∧ ¬ Overlapped text token start := by
  have hwalk : Walk token text 0 0 (matchIndices text token) := walk_matchIndicesFrom htoken 0 0 text
  constructor
  · intro hstart
    refine ⟨(hwalk.sound start hstart).2, ?_⟩
    rintro ⟨m, hm, hlt, hinside⟩
    obtain ⟨i, hi, hget⟩ := mem_iff_getElem.mp hm
    obtain ⟨j, hj, hget'⟩ := mem_iff_getElem.mp hstart
    have hapart := pairwise_iff_getElem.mp hwalk.apart
    rcases Nat.lt_trichotomy i j with hij | rfl | hij
    · have hgap := hapart i j hi hj hij
      rw [hget, hget'] at hgap
      omega
    · rw [hget] at hget'
      omega
    · have hgap := hapart j i hj hi hij
      rw [hget, hget'] at hgap
      omega
  · rintro ⟨hocc, hfree⟩
    exact (hwalk.complete start (Nat.zero_le _) hocc).resolve_right hfree

lemma containsToken_iff (htoken : token ≠ []) : containsToken text token ↔
    ∃ start, Whole text token start ∧ ¬ Overlapped text token start := by
  rw [containsToken, if_neg htoken, any_eq_true]
  refine exists_congr fun start => ?_
  rw [mem_matchIndices_iff htoken, Bool.not_eq_true', Whole, and_right_comm]

lemma mem_droppedFrom {rewrite : Text} {seen tokens : List Text} :
    token ∈ droppedFrom rewrite seen tokens ↔
      token ∈ tokens ∧ containsToken rewrite token = false ∧ token ∉ seen := by
  induction tokens generalizing seen with
  | nil => simp [droppedFrom]
  | cons t tokens ih =>
    rw [droppedFrom]
    split
    · rename_i hskip
      rw [Bool.or_eq_true, contains_iff_mem] at hskip
      rw [ih, mem_cons]
      constructor
      · rintro ⟨hmem, hrest⟩
        exact ⟨.inr hmem, hrest⟩
      · rintro ⟨rfl | hmem, hmissing, hnew⟩
        · rcases hskip with hin | hold
          · rw [hmissing] at hin
            cases hin
          · exact absurd hold hnew
        · exact ⟨hmem, hmissing, hnew⟩
    · rename_i hkeep
      rw [Bool.or_eq_true, contains_iff_mem, not_or, Bool.not_eq_true] at hkeep
      rw [mem_cons, ih, mem_cons, mem_cons, not_or]
      constructor
      · rintro (rfl | ⟨hmem, hmissing, hne, hnew⟩)
        · exact ⟨.inl rfl, hkeep⟩
        · exact ⟨.inr hmem, hmissing, hnew⟩
      · rintro ⟨hmem, hmissing, hnew⟩
        by_cases heq : token = t
        · exact .inl heq
        · exact .inr ⟨hmem.resolve_left heq, hmissing, heq, hnew⟩

lemma mem_mineFrom {n : ℕ} {tokens out : List Text} (h : token ∈ mineFrom n tokens out) :
    token ∈ out ∨ token ∈ tokens ∧ minTokenLen ≤ byteLen token := by
  induction tokens generalizing out with
  | nil => exact .inl h
  | cons t tokens ih =>
    rw [mineFrom] at h
    split at h
    · exact (ih h).imp_right fun hmem => ⟨mem_cons_of_mem _ hmem.1, hmem.2⟩
    · rename_i hfair
      rw [not_or] at hfair
      have hadded : token ∈ out ++ [t] →
          token ∈ out ∨ token ∈ t :: tokens ∧ minTokenLen ≤ byteLen token := by
        intro hmem
        rcases mem_append.mp hmem with hmem | hmem
        · exact .inl hmem
        · obtain rfl := mem_singleton.mp hmem
          exact .inr ⟨mem_cons_self, not_lt.mp hfair.1⟩
      split at h
      · exact hadded h
      · rcases ih h with hmem | hmem
        · exact hadded hmem
        · exact .inr ⟨mem_cons_of_mem _ hmem.1, hmem.2⟩

lemma mem_of_mem_trimToken {raw : Text} {c : Char} (h : c ∈ trimToken raw) : c ∈ raw :=
  mem_of_mem_trimBy (mem_of_mem_trimBy h)

lemma mined_spec {X : Crates} {body : Text}
    (hregex : ∀ pattern ∈ keepPatterns, ∀ caps ∈ X.capturesIter pattern.re body,
      ∀ m ∈ caps pattern.group, '\x60' ∉ m)
    (h : token ∈ mineKeepTokens X body) : token ≠ [] ∧ '\x60' ∉ token := by
  rw [mineKeepTokens, mine, if_neg (by decide)] at h
  rcases mem_mineFrom h with hnil | ⟨hmem, hlen⟩
  · cases hnil
  constructor
  · rintro rfl
    cases hlen
  · obtain ⟨pattern, hpattern, hmem⟩ := mem_flatMap.mp hmem
    obtain ⟨caps, hcaps, htoken⟩ := mem_filterMap.mp hmem
    obtain ⟨m, hm, rfl⟩ := Option.map_eq_some_iff.mp htoken
    have hline : ∀ pattern ∈ keepPatterns, pattern.line = false := by
      simp [keepPatterns, codeSpanPattern]
    rw [hline pattern hpattern, if_neg Bool.false_ne_true]
    exact fun hin => hregex pattern hpattern caps hcaps m hm (mem_of_mem_trimToken hin)

lemma containsToken_quoted (htoken : token ≠ []) (hquote : '\x60' ∉ token) (before after : Text) :
    containsToken (before ++ '\x60' :: (token ++ '\x60' :: after)) token := by
  have hstart : before ++ '\x60' :: (token ++ '\x60' :: after) =
      before ++ ['\x60'] ++ (token ++ '\x60' :: after) := by simp
  have hlen : (before ++ ['\x60']).length = before.length + 1 := by simp
  refine (containsToken_iff htoken).mpr ⟨before.length + 1, ⟨?_, ?_⟩, ?_⟩
  · rw [hstart, Occurs, ← hlen, drop_left]
    exact prefix_append _ _
  · have hbefore : ((before ++ ['\x60'] ++ (token ++ '\x60' :: after)).take
        (before.length + 1)).getLast? = some '\x60' := by
      rw [← hlen, take_left, getLast?_concat]
    have hafter : ((before ++ ['\x60'] ++ (token ++ '\x60' :: after)).drop
        (before.length + 1 + token.length)).head? = some '\x60' := by
      rw [← drop_drop, ← hlen, drop_left, drop_left]
      rfl
    have hword : isWord '\x60' = false := by decide
    rw [hstart, glued, hbefore, hafter]
    simp [hword]
  · rintro ⟨m, hm, hlt, hover⟩
    obtain ⟨rest, hrest⟩ := ((mem_matchIndices_iff htoken).mp hm).1
    have hget : (token ++ rest)[before.length - m]? = some '\x60' := by
      rw [hrest, getElem?_drop, show m + (before.length - m) = before.length by omega]
      simp
    rw [getElem?_append_left (by omega)] at hget
    exact hquote (mem_of_getElem? hget)

lemma containsToken_compacted {X : Crates} {body : Text}
    (hregex : ∀ pattern ∈ keepPatterns, ∀ caps ∈ X.capturesIter pattern.re body,
      ∀ m ∈ caps pattern.group, '\x60' ∉ m) (h : token ∈ mineKeepTokens X body) :
    containsToken (buildCompactedMarkdown X frontmatter body).2 token := by
  obtain ⟨hne, hquote⟩ := mined_spec hregex h
  have hfacts : mineKeepTokens X body ≠ [] := ne_nil_of_mem h
  obtain ⟨front, behind, hsplit⟩ := mem_iff_append.mp h
  rw [buildCompactedMarkdown]
  dsimp only
  rw [if_neg hfacts, hsplit, flatMap_append, flatMap_cons, factLine]
  generalize ((summaryLine _ body).map _).getD [] = summary
  have hquoted := containsToken_quoted hne hquote
    (summary ++ "## Retained facts\n\n".toList ++ front.flatMap factLine ++ "- ".toList)
    ('\n' :: (behind.flatMap factLine ++ ['\n'] ++ compactionFooter ++ ['\n']))
  have htick : "- `".toList = "- ".toList ++ ['\x60'] := rfl
  have hend : "`\n".toList = ['\x60', '\n'] := rfl
  rw [htick, hend]
  simpa only [append_assoc, cons_append, nil_append, singleton_append] using hquoted

/-- If the token is there as a word, the search gets to one such place. -/
def Reached (text token : Text) : Prop :=
  (∃ start, Whole text token start) → ∃ start, Whole text token start ∧ ¬ Overlapped text token start

lemma containsToken_exact_iff (htoken : token ≠ []) :
    (containsToken text token ↔ ∃ start, Whole text token start) ↔ Reached text token := by
  rw [containsToken_iff htoken]
  constructor
  · exact fun h => h.mpr
  · exact fun h => ⟨Exists.imp fun _ hstart => hstart.1, h⟩

/-- The search is exact where a whole occurrence is reached, the dropped tokens are then those
without one, and a compacted body drops none. -/
theorem keepTokens_law (X : Crates)
    (hregex : ∀ body, ∀ pattern ∈ keepPatterns, ∀ caps ∈ X.capturesIter pattern.re body,
      ∀ m ∈ caps pattern.group, '\x60' ∉ m) :
    (∀ text token, token ≠ [] →
      ((containsToken text token = true ↔ ∃ start, Whole text token start) ↔ Reached text token)) ∧
    (∀ sources rewrite token, (∃ source ∈ sources, token ∈ mineKeepTokens X source) →
      ((token ∈ droppedKeepTokens X sources rewrite ↔ ¬ ∃ start, Whole rewrite token start) ↔
        Reached rewrite token)) ∧
    ∀ frontmatter body,
      droppedKeepTokens X [body] (buildCompactedMarkdown X frontmatter body).2 = [] := by
  refine ⟨fun text token htoken => containsToken_exact_iff htoken, ?_, ?_⟩
  · rintro sources rewrite token ⟨source, hsource, hmined⟩
    have hmem : token ∈ sources.flatMap (mineKeepTokens X) :=
      mem_flatMap.mpr ⟨source, hsource, hmined⟩
    rw [← containsToken_exact_iff (mined_spec (hregex source) hmined).1, droppedKeepTokens,
      mem_droppedFrom, ← Bool.not_eq_true, and_iff_right hmem, and_iff_left not_mem_nil,
      not_iff_not]
  · intro frontmatter body
    refine eq_nil_iff_forall_not_mem.mpr fun token hdropped => ?_
    obtain ⟨hmem, hmissing, -⟩ := mem_droppedFrom.mp hdropped
    obtain ⟨source, hsource, hmined⟩ := mem_flatMap.mp hmem
    obtain rfl := mem_singleton.mp hsource
    have hkept := containsToken_compacted frontmatter (hregex source) hmined
    exact Bool.false_ne_true (hmissing.symm.trans hkept)

def spanCrates : Crates where
  uuid _ := []
  timestamp _ := []
  isMatch _ _ := false
  capturesIter re body :=
    let inner := ((body.dropWhile (· ≠ '\x60')).drop 1).takeWhile (· ≠ '\x60')
    if re = codeSpanPattern.re ∧ body.count '\x60' = 2 ∧ inner ≠ [] then
      [fun group => if group = 1 then some inner else none]
    else []

lemma spanCrates_spec (body : Text) : ∀ pattern ∈ keepPatterns,
    ∀ caps ∈ spanCrates.capturesIter pattern.re body, ∀ m ∈ caps pattern.group, '\x60' ∉ m := by
  intro pattern _ caps hcaps m hm
  simp only [spanCrates] at hcaps
  split at hcaps
  · obtain rfl := mem_singleton.mp hcaps
    dsimp only at hm
    split at hm
    · cases hm
      exact fun hin => by simpa using of_mem_takeWhile hin
    · cases hm
  · cases hcaps

theorem keepTokens_law_retry :
    ((containsToken "my retry".toList "retry".toList = true ↔
      ∃ start, Whole "my retry".toList "retry".toList start) ↔
        Reached "my retry".toList "retry".toList) ∧
    droppedKeepTokens spanCrates ["call `retry`".toList]
      (buildCompactedMarkdown spanCrates .null "call `retry`".toList).2 = [] := by
  obtain ⟨hexact, -, hcompacted⟩ := keepTokens_law spanCrates spanCrates_spec
  exact ⟨hexact _ _ (by decide), hcompacted _ _⟩

/-- The second `a.a` is whole, and starts inside the first. -/
theorem containsToken_misses_overlap :
    ¬(containsToken "xa.a.a".toList "a.a".toList = true ↔
      ∃ start, Whole "xa.a.a".toList "a.a".toList start) := by
  intro h
  have hfound := h.mpr ⟨3, ⟨[], rfl⟩, by decide⟩
  exact absurd hfound (by decide)

end Consolidate
