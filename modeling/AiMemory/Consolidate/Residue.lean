/-
The verbatim residue of a projection (`ai-memory-consolidate`, `projection.rs` and
`keep_tokens.rs`): literal tokens of the bodies that a projection leaves out or cuts.
-/
import AiMemory.Consolidate.Selection

open Strings Utf8 List

namespace Consolidate

open Store (ObservationId ObservationKind takeBytes)

/-- What the projection takes from other crates: the texts of ids and timestamps, and the
matches of a regular expression, each with its capture groups. -/
structure Crates where
  uuid : ObservationId → Text
  timestamp : ℤ → Text
  capturesIter : String → Text → List (ℕ → Option Text)
  isMatch : String → Text → Bool

def num (n : ℕ) : Text := (toString n).toList

def asStr : ObservationKind → String
  | .sessionStart => "session-start"
  | .userPrompt => "user-prompt"
  | .preToolUse => "pre-tool-use"
  | .postToolUse => "post-tool-use"
  | .preCompact => "pre-compact"
  | .postCompaction => "post-compaction"
  | .notification => "notification"
  | .stop => "stop"
  | .sessionEnd => "session-end"
  | .other => "other"

def capTextWithMarker (input : Text) (maxChars : ℕ) (label : String) : Text :=
  if input.length ≤ maxChars then input
  else input.take maxChars ++ "\n[".toList ++ label.toList ++ " truncated; ".toList
    ++ num (input.length - maxChars) ++ " chars omitted]".toList

def excerptBody (body : Text) (maxChars : ℕ) : Text × Bool × ℕ :=
  if body.length ≤ maxChars then (body, false, 0)
  else (body.take maxChars, true, body.length - maxChars)

structure RenderedBlock where
  text : Text
  truncated : Bool

def maxRenderedTitleChars : ℕ := 500

def maxRenderedSourceChars : ℕ := 128

def sourceLine (name label : String) (value : Option Text) : Text :=
  match value.filter fun s => !blank s with
  | none => []
  | some s => name.toList ++ ": ".toList ++ capTextWithMarker s maxRenderedSourceChars label ++ ['\n']

def renderObservationBlock (X : Crates) (total idx : ℕ) (obs : Observation)
    (perBodyExcerptChars : ℕ) : RenderedBlock :=
  let (body, truncated, omitted) := excerptBody obs.body perBodyExcerptChars
  { text := "\n--- observation ".toList ++ num (idx + 1) ++ ['/'] ++ num total ++ " ---\nid: ".toList
      ++ X.uuid obs.id ++ "\nkind: ".toList ++ (asStr obs.kind).toList ++ "\ntitle: ".toList
      ++ capTextWithMarker obs.title maxRenderedTitleChars "observation title"
      ++ "\nimportance: ".toList ++ num obs.importance.toNat ++ "\ncreated_at: ".toList
      ++ X.timestamp obs.createdAt ++ ['\n']
      ++ sourceLine "extension" "extension" obs.extension
      ++ sourceLine "source_event" "source event" obs.sourceEvent
      ++ "body:\n".toList ++ body
      ++ (if truncated then "\n[observation body truncated; ".toList ++ num omitted
          ++ " chars omitted; full original remains in SQLite as observation id ".toList
          ++ X.uuid obs.id ++ [']']
        else [])
      ++ ['\n']
    truncated := truncated }

/-! ### Tokens -/

structure Pattern where
  re : String
  group : ℕ
  line : Bool

def minTokenLen : ℕ := 2

def maxTokenLen : ℕ := 128

def residueErrorPattern : Pattern where
  re := "(?m)((?:\\berror(?:\\[E\\d\x7b2,4\x7d\\])?: |\\bERROR: |\\bERRO: |\\bErro: |\\bERR! |\\b\\w*(?:Error|Exception): |\\bpanicked at |\\bFAILED\\b|\\bfatal: |\\bFATAL: |Traceback \\(most recent call last\\))[^\\n\\r\\u\x7b2028\x7d\\u\x7b2029\x7d]*)"
  group := 1
  line := true

def residuePatterns : List Pattern :=
  [residueErrorPattern,
    ⟨"https?://[^\\s<>()\\[\\]\\\"'`]+", 0, false⟩,
    ⟨"(?:/|\\b)(?:[A-Za-z0-9_.-]+/)+[A-Za-z0-9_.-]+\\.[A-Za-z0-9]+\\b", 0, false⟩,
    ⟨"\\b[A-Za-z0-9_.-]+\\.(?:rs|md|toml|sql|json|ya?ml|sh|py|js|ts|tsx|jsx|rb|go|c|h|cc|cpp|hpp|txt|lock|cfg|ini|env|xml|html|css|proto)\\b", 0, false⟩,
    ⟨"\\bE\\d\x7b2,4\x7d\\b", 0, false⟩,
    ⟨"\\bHTTP\\s?\\d\x7b3\x7d\\b", 0, false⟩,
    ⟨"\\b\\d\x7b1,3\x7d(?:\\.\\d\x7b1,3\x7d)\x7b3\x7d\\b|\\bv?\\d+\\.\\d+\\.\\d+(?:[-+][0-9A-Za-z.-]+)?\\b", 0, false⟩,
    ⟨"\\b[A-Z][A-Z0-9]*(?:_[A-Z0-9]+)+\\b", 0, false⟩]

def clipDiagnosticLine (raw : Text) : Text :=
  let raw := trim raw
  if byteLen raw ≤ maxTokenLen then raw
  else trimEndBy isWhitespace (takeBytes maxTokenLen raw)

def trimToken (raw : Text) : Text :=
  trimBy (fun c => c ∈ ['.', ',', ';', ':', ')', '(', '"', '\'', '<', '>', '\x60']) (trim raw)

local instance lawfulTokens : LawfulBEq Text := inferInstance

/-- The first occurrences of the tokens of a fair length, until there are enough. -/
def mineFrom (maxTokens : ℕ) : List Text → List Text → List Text
  | [], out => out
  | token :: rest, out =>
    if byteLen token < minTokenLen ∨ maxTokenLen < byteLen token ∨ token ∈ out then
      mineFrom maxTokens rest out
    else if maxTokens ≤ out.length + 1 then out ++ [token]
    else mineFrom maxTokens rest (out ++ [token])

def mine (X : Crates) (patterns : List Pattern) (body : Text) (maxTokens : ℕ) :
    List Text :=
  if maxTokens = 0 then []
  else
    let tokens := patterns.flatMap fun pattern =>
      (X.capturesIter pattern.re body).filterMap fun caps =>
        (caps pattern.group).map fun m =>
          if pattern.line then clipDiagnosticLine m else trimToken m
    mineFrom maxTokens tokens []

def mineResidueTokens (X : Crates) (body : Text) (maxTokens : ℕ) : List Text :=
  mine X residuePatterns body maxTokens

def hasResidueErrorLine (X : Crates) (body : Text) : Bool :=
  X.isMatch residueErrorPattern.re body

/-! ### Candidates -/

def residueSlice (body : Text) : Option Text :=
  let firstLine := body.takeWhile fun c => c ≠ '\n' && c ≠ '\r'
  if startsWith firstLine "tool_family:" || startsWith firstLine "tool:" then
    (splitOnce "\n---\n".toList body).map Prod.snd
  else some body

/-- `str::replace` of a backslash and a letter by a line feed. -/
def replaceEscape (letter : Char) : Text → Text
  | [] => []
  | [c] => [c]
  | c :: d :: rest =>
    if c = '\\' ∧ d = letter then '\n' :: replaceEscape letter rest
    else c :: replaceEscape letter (d :: rest)

def normalizeResidueText (text : Text) : Text :=
  replaceEscape 't' (replaceEscape 'r' (replaceEscape 'n' text))

inductive ResiduePass
  | one | two
  deriving DecidableEq

def residueCandidateText (obs : Observation) : Option Text :=
  (if obs.kind = .userPrompt then userWritten obs.body else residueSlice obs.body).map
    normalizeResidueText

def residueCandidatePass (obs : Observation) : Option ResiduePass :=
  if carriesRoutingText obs then none
  else if obs.kind ∈ [.userPrompt, .stop, .preCompact, .postCompaction, .sessionEnd] then
    if (residueCandidateText obs).isSome then some .one else none
  else if (residueSlice obs.body).isSome then some .two
  else none

def residueErrorLine (X : Crates) (body : Text) : Bool :=
  match residueSlice body with
  | some text => hasResidueErrorLine X (normalizeResidueText text)
  | none => false

structure ResidueCandidate where
  score : ℤ
  idx : ℕ
  errorLine : Bool
  rowid : ℤ

def rankResiduePassOne (a b : ResidueCandidate) : Ordering :=
  (compare b.score a.score).then (compare b.idx a.idx)

def rankResiduePassTwo (a b : ResidueCandidate) : Ordering :=
  (compare b.errorLine a.errorLine).then
    ((compare b.score a.score).then (compare b.idx a.idx))

def residueCandidate (X : Crates) (total idx : ℕ) (rowid : ℤ) (obs : Observation)
    (pass : ResiduePass) : Option ResidueCandidate :=
  if residueCandidatePass obs = some pass then
    some ⟨observationScore obs idx total, idx, pass = .two && residueErrorLine X obs.body, rowid⟩
  else none

/-! ### Groups -/

def residueHeader : Text :=
  "\n## Verbatim residue (untrusted observation data)\nLines below are literal tokens from observation bodies the projection above omitted or\ntruncated: one group per observation (`- <kind> …<id suffix>`), one token per indented\nline, read under the system prompt's security and faithfulness rules. Full originals\nremain in SQLite by observation id.\n".toList

def maxResidueChars : ℕ := 8192

def maxResidueGroupChars : ℕ := 512

def maxResidueTokensPerObservation : ℕ := 64

structure ResidueGroup where
  text : Text
  tokens : ℕ

structure ResidueRender where
  groups : List ResidueGroup
  tokenCount : ℕ

namespace ResidueRender

def empty : ResidueRender := ⟨[], 0⟩

def isEmpty (rendered : ResidueRender) : Bool := rendered.groups.isEmpty

variable (rendered : ResidueRender)

def charCount : ℕ :=
  if rendered.isEmpty then 0
  else residueHeader.length + (rendered.groups.map fun group => group.text.length).sum

def dropGroups (maxChars : ℕ) (rendered : ResidueRender) : ResidueRender :=
  if h : rendered.groups ≠ [] ∧ maxChars < rendered.charCount then
    dropGroups maxChars ⟨rendered.groups.dropLast,
      rendered.tokenCount - (rendered.groups.getLast h.1).tokens⟩
  else rendered
  termination_by rendered.groups.length
  decreasing_by
    have hpos := length_pos_iff.mpr h.1
    simp only [length_dropLast]
    omega

def fitWholeGroups (maxChars : ℕ) (rendered : ResidueRender) : ResidueRender :=
  let rendered := rendered.dropGroups maxChars
  if maxChars < residueHeader.length then empty else rendered

def render : Text :=
  if rendered.isEmpty then []
  else residueHeader ++ rendered.groups.flatMap ResidueGroup.text

end ResidueRender

def containsLineEnd (token : Text) : Bool :=
  token.any fun c => c = '\n' || c = '\r' || c.toNat = 0x2028 || c.toNat = 0x2029

/-- The tokens that are new and no part of one already taken, up to the first that does not
fit. -/
def acceptTokens (seen : List Text) : List Text → ℕ → List Text →
    List Text
  | [], _, accepted => accepted
  | token :: rest, chars, accepted =>
    if containsLineEnd token || token ∈ seen || accepted.any (fun earlier => token <:+: earlier)
    then acceptTokens seen rest chars accepted
    else
      let tokenChars := token.length + 3
      if maxResidueGroupChars < chars + tokenChars then accepted
      else acceptTokens seen rest (chars + tokenChars) (accepted ++ [token])

def residueGroup (X : Crates) (obs : Observation) (text : Text) (seen : List Text) :
    Option ResidueGroup :=
  let id := X.uuid obs.id
  let header := "- ".toList ++ (asStr obs.kind).toList ++ " …".toList ++ id.drop (id.length - 12)
    ++ ['\n']
  let accepted := acceptTokens seen (mineResidueTokens X text maxResidueTokensPerObservation)
    header.length []
  if accepted = [] then none
  else some ⟨header ++ accepted.flatMap fun token => "  ".toList ++ token ++ ['\n'],
    accepted.length⟩

def groupTokens (group : Text) : List Text := ((Wiki.lines group).drop 1).map trimStart

/-- Groups of one pass, until the first that does not fit; with the tokens seen by then. -/
def appendResiduePass (X : Crates) (maxChars : ℕ) : List (Observation × Text) →
    ResidueRender → List Text → ResidueRender × List Text
  | [], rendered, seen => (rendered, seen)
  | (obs, text) :: rest, rendered, seen =>
    match residueGroup X obs text seen with
    | none => appendResiduePass X maxChars rest rendered seen
    | some group =>
      let nextChars := rendered.charCount + (if rendered.isEmpty then residueHeader.length else 0)
        + group.text.length
      if maxChars < nextChars then (rendered, seen)
      else appendResiduePass X maxChars rest
        ⟨rendered.groups ++ [group], rendered.tokenCount + group.tokens⟩
        (seen ++ groupTokens group.text)

/-- The tokens that the projection prints, and what it cuts off the selected bodies. -/
def residueInitialState (X : Crates) (total : ℕ) (selected : List ℕ)
    (rowAt : ℕ → Option Observation) (perBodyExcerptChars : ℕ) :
    List Text × List (ℕ × Text) :=
  let rows := selected.filterMap fun idx => (rowAt idx).map (idx, ·)
  (rows.flatMap fun (idx, obs) =>
      mineResidueTokens X (renderObservationBlock X total idx obs perBodyExcerptChars).text usizeMax,
    (rows.filter fun (_, obs) =>
        !(obs.body.length ≤ perBodyExcerptChars || carriesRoutingText obs)).map fun (idx, obs) =>
      (idx, normalizeResidueText (obs.body.drop perBodyExcerptChars)))

/-- The passes over candidates that are ranked, each with its observation and its text. -/
def renderPasses (X : Crates) (maxChars : ℕ) (seen : List Text)
    (early late : List (Observation × Text)) : ResidueRender :=
  let (rendered, seen) := appendResiduePass X (maxChars / 2) early .empty seen
  (appendResiduePass X maxChars late rendered seen).1

def renderVerbatimResidue (X : Crates) (observations : List Observation) (selected : List ℕ)
    (perBodyExcerptChars maxChars : ℕ) : ResidueRender :=
  if maxChars ≤ residueHeader.length then .empty
  else
    let total := observations.length
    let rowAt : ℕ → Option Observation := fun idx => observations[idx]?
    let (seen, passZero) := residueInitialState X total selected rowAt perBodyExcerptChars
    let candidates := fun pass => (observations.zipIdx.filter fun row => row.2 ∉ selected).filterMap
      fun row => residueCandidate X total row.2 0 row.1 pass
    let texts := fun ranked : List ResidueCandidate => ranked.filterMap fun candidate => do
      let obs ← rowAt candidate.idx
      let text ← residueCandidateText obs
      pure (obs, text)
    renderPasses X maxChars seen
      (passZero.filterMap (fun (idx, text) => (rowAt idx).map (·, text))
        ++ texts (sortBy rankResiduePassOne (candidates .one)))
      (texts (sortBy rankResiduePassTwo (candidates .two)))

/-- The residue of rows that are read again by `rowid`, in the order of their ranks. -/
def renderVerbatimResidueFetched (X : Crates) (passOne passTwo : List ResidueCandidate)
    (fetch : ℤ → Option (Observation × Text)) (selected : List ℕ)
    (rowAt : ℕ → Option Observation) (total : ℕ) (cfg : ObservationProjectionConfig) :
    ResidueRender :=
  let maxChars := min (cfg.maxTotalChars / 8) maxResidueChars
  if maxChars ≤ residueHeader.length then .empty
  else
    let (seen, passZero) := residueInitialState X total selected rowAt cfg.perBodyExcerptChars
    let ranked := fun (rank : ResidueCandidate → ResidueCandidate → Ordering)
      (candidates : List ResidueCandidate) =>
        sortBy rank (candidates.filter fun candidate => candidate.idx ∉ selected)
    renderPasses X maxChars seen
      (passZero.filterMap (fun (idx, text) => (rowAt idx).map (·, text))
        ++ (ranked rankResiduePassOne passOne).filterMap fun candidate => fetch candidate.rowid)
      ((ranked rankResiduePassTwo passTwo).filterMap fun candidate => fetch candidate.rowid)

/-! ### One residue -/

/-- The candidates of a pass, as a scan of rows with their `rowid` finds them. -/
def scanned (X : Crates) (total : ℕ) (rows : List (ℤ × Observation)) (pass : ResiduePass) :
    List ResidueCandidate :=
  rows.zipIdx.filterMap fun row => residueCandidate X total row.2 row.1.1 row.1.2 pass

def ResidueCandidate.unread (candidate : ResidueCandidate) : ResidueCandidate :=
  { candidate with rowid := 0 }

/-- Rows that are read again by `rowid` give what they gave when they were scanned. -/
def Refetches (rows : List (ℤ × Observation)) (fetch : ℤ → Option (Observation × Text)) :
    Prop :=
  ∀ row ∈ rows, fetch row.1 = (residueCandidateText row.2).map (row.2, ·)

variable {X : Crates} {rows : List (ℤ × Observation)} {selected : List ℕ} {pass : ResiduePass}
  {fetch : ℤ → Option (Observation × Text)} {candidate : ResidueCandidate}

lemma residueCandidate_unread (total idx : ℕ) (rowid : ℤ) (obs : Observation) :
    (residueCandidate X total idx rowid obs pass).map ResidueCandidate.unread
      = residueCandidate X total idx 0 obs pass := by
  unfold residueCandidate
  split <;> rfl

lemma residueCandidate_idx {total idx : ℕ} {rowid : ℤ} {obs : Observation}
    (h : residueCandidate X total idx rowid obs pass = some candidate) :
    candidate.idx = idx ∧ candidate.rowid = rowid := by
  unfold residueCandidate at h
  split at h
  · cases h
    exact ⟨rfl, rfl⟩
  · cases h

lemma scanned_unread (p : ℕ → Bool) :
    ((scanned X rows.length rows pass).filter fun candidate => p candidate.idx).map ResidueCandidate.unread
      = ((rows.map Prod.snd).zipIdx.filter fun row => p row.2).filterMap fun row =>
          residueCandidate X rows.length row.2 0 row.1 pass := by
  rw [← map_zipIdx, filter_map, filterMap_map, filterMap_filter, scanned,
    filter_filterMap, map_filterMap]
  refine filterMap_congr fun row _ => ?_
  show ((residueCandidate X rows.length row.2 row.1.1 row.1.2 pass).filter _).map _
    = if p row.2 = true then residueCandidate X rows.length row.2 0 row.1.2 pass else none
  rw [← residueCandidate_unread _ _ row.1.1]
  cases hcandidate : residueCandidate X rows.length row.2 row.1.1 row.1.2 pass with
  | none => simp
  | some candidate =>
    by_cases hp : p row.2
    all_goals simp [(residueCandidate_idx hcandidate).1, hp]

lemma fetch_scanned (hfetch : Refetches rows fetch) (hmem : candidate ∈ scanned X rows.length rows pass) :
    fetch candidate.rowid = (do
      let obs ← (rows.map Prod.snd)[candidate.unread.idx]?
      let text ← residueCandidateText obs
      pure (obs, text)) := by
  obtain ⟨row, hrow, hcandidate⟩ := mem_filterMap.mp hmem
  obtain ⟨hidx, hrowid⟩ := residueCandidate_idx hcandidate
  have hat : rows[row.2]? = some row.1 := mem_zipIdx_iff_getElem?.mp hrow
  have hobs : (rows.map Prod.snd)[candidate.unread.idx]? = some row.1.2 := by
    rw [show candidate.unread.idx = row.2 from hidx, getElem?_map, hat]
    rfl
  rw [hrowid, hfetch row.1 (mem_of_getElem? hat), hobs]
  cases htext : residueCandidateText row.1.2 <;> simp [htext]

lemma ranked_texts {rank : ResidueCandidate → ResidueCandidate → Ordering}
    (hrank : ∀ a b : ResidueCandidate, rank a b = rank a.unread b.unread)
    (hfetch : Refetches rows fetch) (p : ℕ → Bool) :
    (sortBy rank ((scanned X rows.length rows pass).filter fun candidate => p candidate.idx)).filterMap
        (fun candidate => fetch candidate.rowid)
      = (sortBy rank (((rows.map Prod.snd).zipIdx.filter fun row => p row.2).filterMap fun row =>
          residueCandidate X rows.length row.2 0 row.1 pass)).filterMap fun candidate => (do
        let obs ← (rows.map Prod.snd)[candidate.idx]?
        let text ← residueCandidateText obs
        pure (obs, text)) := by
  have hsort : ∀ l : List ResidueCandidate,
      sortBy rank (l.map ResidueCandidate.unread) = (sortBy rank l).map ResidueCandidate.unread := by
    intro l
    refine (map_insertionSort _ _ _ l fun a _ b _ => ?_).symm
    rw [hrank a b]
  rw [← scanned_unread, hsort, filterMap_map]
  refine filterMap_congr fun candidate hmem => ?_
  have hscanned := (mem_filter.mp ((perm_insertionSort _ _).mem_iff.mp hmem)).1
  exact fetch_scanned hfetch hscanned

/-- The filtered rows and the fetched ones render alike. -/
theorem renderVerbatimResidueFetched_eq {rowAt : ℕ → Option Observation}
    {cfg : ObservationProjectionConfig} (hfetch : Refetches rows fetch)
    (hrowAt : ∀ idx ∈ selected, rowAt idx = (rows.map Prod.snd)[idx]?) :
    renderVerbatimResidueFetched X (scanned X rows.length rows .one)
        (scanned X rows.length rows .two) fetch selected rowAt rows.length cfg
      = renderVerbatimResidue X (rows.map Prod.snd) selected cfg.perBodyExcerptChars
          (min (cfg.maxTotalChars / 8) maxResidueChars) := by
  have hinitial : residueInitialState X rows.length selected rowAt cfg.perBodyExcerptChars
      = residueInitialState X rows.length selected (fun idx => (rows.map Prod.snd)[idx]?)
          cfg.perBodyExcerptChars := by
    unfold residueInitialState
    rw [filterMap_congr fun idx hidx => by rw [hrowAt idx hidx]]
  -- What is cut off a body is cut off a selected one.
  have hzero : ∀ part ∈ (residueInitialState X rows.length selected
      (fun idx => (rows.map Prod.snd)[idx]?) cfg.perBodyExcerptChars).2, part.1 ∈ selected := by
    intro part hpart
    obtain ⟨⟨idx, obs⟩, hrow, rfl⟩ := mem_map.mp hpart
    obtain ⟨i, hi, hat⟩ := mem_filterMap.mp (mem_filter.mp hrow).1
    obtain ⟨_, _, hpair⟩ := Option.map_eq_some_iff.mp hat
    have hidx : i = idx := (Prod.mk.inj hpair).1
    exact hidx ▸ hi
  unfold renderVerbatimResidueFetched renderVerbatimResidue
  simp only [length_map]
  split
  · rfl
  rw [hinitial, ranked_texts (fun _ _ => rfl) hfetch fun idx => decide (idx ∉ selected),
    ranked_texts (fun _ _ => rfl) hfetch fun idx => decide (idx ∉ selected)]
  congr 2
  exact filterMap_congr fun part hpart => by rw [hrowAt _ (hzero part hpart)]

end Consolidate
