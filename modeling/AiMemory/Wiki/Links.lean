/-
Links of a markdown body (`ai-memory-wiki`, `markdown.rs`).

A body is read line by line.  Fenced lines are skipped and inline code is blanked; what is
left is scanned for `[[wikilinks]]` and for ordinary links to pages.

* `homed_extractLinks`, `homed_extractRelationLinks` — a link that names the reserved project
  names its workspace too.
-/
import AiMemory.Wiki.Relations

open Strings Utf8 List

namespace Wiki

open Store

def splitLineTerminator (raw : Text) : Text × Text :=
  if ['\r', '\n'].isSuffixOf raw then (raw.take (raw.length - 2), ['\r', '\n'])
  else if ['\n'].isSuffixOf raw then (raw.dropLast, ['\n'])
  else (raw, [])

/-- `str::lines`. -/
def lines (body : Text) : List Text :=
  (splitInclusive body).map fun raw => (splitLineTerminator raw).1

structure CodeFence where
  glyph : Char
  len : ℕ

def CodeFence.step (current : Option CodeFence) (line : Text) : Option CodeFence × Bool :=
  let trimmed := line.dropWhile (· = ' ')
  if 3 < line.length - trimmed.length then (current, current.isSome)
  else match trimmed.head? with
  | none => (current, current.isSome)
  | some glyph =>
    if glyph ≠ '\x60' ∧ glyph ≠ '~' then (current, current.isSome)
    else
      let count := (trimmed.takeWhile (· = glyph)).length
      let info := trimmed.drop count
      if count < 3 then (current, current.isSome)
      else match current with
      | none =>
        -- a backtick fence has no backtick behind its run
        if glyph = '\x60' ∧ '\x60' ∈ info then (none, false) else (some ⟨glyph, count⟩, true)
      | some fence =>
        if fence.glyph = glyph ∧ fence.len ≤ count ∧ trim info = [] then (none, true)
        else (some fence, true)

inductive Piece
  | text (chars : Text)
  | code (chars : Text)

def ticks (text : Text) : ℕ := (text.takeWhile (· = '\x60')).length

/-- How far the run is that closes a span opened by `opening` backticks. -/
def spanEnd (opening : ℕ) : ℕ → Text → Option ℕ
  | 0, _ => none
  | _ + 1, [] => none
  | fuel + 1, c :: rest =>
    if c = '\x60' then
      let run := ticks (c :: rest)
      if run = opening then some run
      else (spanEnd opening fuel ((c :: rest).drop run)).map (run + ·)
    else (spanEnd opening fuel rest).map (1 + ·)

def pushText (chars : Text) : List Piece → List Piece
  | .text more :: rest => .text (chars ++ more) :: rest
  | pieces => .text chars :: pieces

def codePiecesFor : ℕ → Text → List Piece
  | 0, _ => []
  | _ + 1, [] => []
  | fuel + 1, c :: rest =>
    if c ≠ '\x60' then pushText [c] (codePiecesFor fuel rest)
    else
      let opening := ticks (c :: rest)
      let behind := (c :: rest).drop opening
      match spanEnd opening behind.length behind with
      | some close =>
        .code ((c :: rest).take (opening + close)) :: codePiecesFor fuel (behind.drop close)
      | none => pushText ((c :: rest).take opening) (codePiecesFor fuel behind)

def codePieces (line : Text) : List Piece := codePiecesFor line.length line

def blankInlineCode (line : Text) : Text :=
  (codePieces line).flatMap fun piece => match piece with
    | .text chars => chars
    | .code chars => List.replicate chars.length ' '

def isAsciiWhitespace (c : Char) : Bool :=
  c = ' ' || c = '\t' || c = '\n' || c = '\x0c' || c = '\r'

/-- The number of characters of a title up to the `)` behind it. -/
def titleEnd (closer : Char) (paren : Bool) : Bool → Text → Option ℕ
  | _, [] => none
  | escaped, c :: rest =>
    if escaped then (titleEnd closer paren false rest).map (1 + ·)
    else if c = '\\' then (titleEnd closer paren true rest).map (1 + ·)
    else if c = closer then
      if (trimStart rest).head? = some ')' then some (1 + (rest.length - (trimStart rest).length))
      else none
    else if paren && c = '(' then none
    else (titleEnd closer paren false rest).map (1 + ·)

/-- The number of characters up to the `)` that closes a link, behind its destination. -/
def closingParenAfterDestination (tail : Text) : Option ℕ :=
  let body := trimStart tail
  let lead := tail.length - body.length
  match body with
  | [] => none
  | first :: rest =>
    if first = ')' then some lead
    else if lead = 0 then none
    else
      let closer := if first = '"' then some '"' else if first = '\'' then some '\''
        else if first = '(' then some ')' else none
      closer.bind fun closer =>
        (titleEnd closer (decide (first = '(')) false rest).map (lead + 1 + ·)

def maxLinkDestinationBytes : ℕ := 512

def maxTitleProbes : ℕ := 8

/-- A destination without `<`, and the number of characters up to its `)`. -/
def bareDestination :
    ℕ → ℕ → Bool → Text → Text → Option (Text × ℕ)
  | _, _, _, _, [] => none
  | depth, probes, prevWs, taken, c :: rest =>
    let ws := isAsciiWhitespace c
    if c = '(' then bareDestination (depth + 1) probes ws (taken ++ [c]) rest
    else if c = ')' then
      if depth = 0 then some (trimEndBy isWhitespace taken, taken.length)
      else bareDestination (depth - 1) probes ws (taken ++ [c]) rest
    else if ws && !prevWs && decide (depth = 0) && decide (probes < maxTitleProbes) then
      match closingParenAfterDestination (c :: rest) with
      | some close => some (taken, taken.length + close)
      | none => bareDestination depth (probes + 1) ws (taken ++ [c]) rest
    else bareDestination depth probes ws (taken ++ [c]) rest

/-- The destination behind a link's `(`, and the number of characters up to its `)`. -/
def parseLinkDestination (rest : Text) : Option (Text × ℕ) :=
  let rest := Store.takeBytes maxLinkDestinationBytes rest
  let trimmed := trimStart rest
  let leading := rest.length - trimmed.length
  match trimmed with
  | '<' :: behind =>
    (splitOnce ['>'] behind).bind fun parts =>
      (closingParenAfterDestination parts.2).map fun close =>
        (parts.1, leading + 1 + parts.1.length + 1 + close)
  | _ => (bareDestination 0 0 false [] trimmed).map fun found => (found.1, leading + found.2)

/-! ### Targets -/

def hexDigitValue (byte : UInt8) : Option ℕ :=
  let n := byte.toNat
  if 48 ≤ n ∧ n ≤ 57 then some (n - 48)
  else if 97 ≤ n ∧ n ≤ 102 then some (n - 87)
  else if 65 ≤ n ∧ n ≤ 70 then some (n - 55)
  else none

/-- Percent escapes replaced by their bytes; `none` for a control character. -/
def decodeBytes : ℕ → List UInt8 → Option (List UInt8)
  | 0, _ => some []
  | _ + 1, [] => some []
  | fuel + 1, byte :: rest =>
    let escape := if byte = 37 then
        (rest[0]?.bind hexDigitValue).bind fun high =>
          (rest[1]?.bind hexDigitValue).map fun low => high * 16 + low
      else none
    match escape with
    | some value =>
      if value < 32 ∨ value = 127 then none
      else (decodeBytes fuel (rest.drop 2)).map (UInt8.ofNat value :: ·)
    | none => (decodeBytes fuel rest).map (byte :: ·)

def decodeMarkdownDestinationPath (path : Text) : Option Text :=
  if '%' ∉ path then some path
  else
    (decodeBytes (bytes path).length (bytes path)).bind fun decoded =>
      (String.fromUTF8? ⟨decoded.toArray⟩).map String.toList

/-- The segments of a target, resolved; `none` above the root. -/
def resolveParts : List Text → List Text → Option (List Text)
  | parts, [] => some parts
  | parts, segment :: rest =>
    if segment = [] ∨ segment = ['.'] then resolveParts parts rest
    else if segment = ['.', '.'] then
      if parts = [] then none else resolveParts parts.dropLast rest
    else resolveParts (parts ++ [segment]) rest

def pageDir (path : PagePath) : List Text :=
  ((beforeLast '/' path.chars).splitOn '/').filter (· ≠ [])

def resolveRelative (page : PagePath) (target : Text) (rootRelative : Bool) :
    Option Text :=
  let parts := if rootRelative || target.head? = some '/' then [] else pageDir page
  (resolveParts parts ((target.dropWhile (· = '/')).splitOn '/')).bind fun parts =>
    if parts = [] then none else some (['/'].intercalate parts)

def normalizeLinkTarget (raw : Text) (page : PagePath) (wikilink : Bool) :
    Option Text :=
  let target := ((splitOnce ['|'] raw).map Prod.fst).getD raw
  let target := trimBy (· = '>') (trimBy (· = '<') (trim target))
  if target = [] ∨ target.head? = some '#' then none
  else
    let path := trim (target.takeWhile fun c => c ≠ '#' && c ≠ '?')
    (if wikilink then some path else decodeMarkdownDestinationPath path).bind fun target =>
      if target = [] ∨ (splitOnce [':', '/', '/'] target).isSome ∨ '\\' ∈ target ∨
          schemed target then none
      else if !lastSegmentNamesAPage target then none
      else if '.' ∈ lastSegment target then
        if ['.', 'm', 'd'].isSuffixOf target then resolveRelative page target wikilink else none
      else resolveRelative page (target ++ ['.', 'm', 'd']) wikilink

/-- The key of what stands between `[[` and `]]`. -/
def wikilinkKey (U : CharTables) (page : PagePath) (raw : Text) : Option LinkKey :=
  let unlabelled := trim (((splitOnce ['|'] raw).map Prod.fst).getD raw)
  let key := splitScope U unlabelled
  (normalizeLinkTarget key.path page true).map fun path => { key with path := path }

def extractWikilinksFor (U : CharTables) (page : PagePath) : ℕ → Text → List LinkKey
  | 0, _ => []
  | fuel + 1, rest =>
    match splitOnce ['[', '['] rest with
    | none => []
    | some (_, behind) =>
      match splitOnce [']', ']'] behind with
      | none => []
      | some (raw, rest) => (wikilinkKey U page raw).toList ++ extractWikilinksFor U page fuel rest

def extractWikilinks (U : CharTables) (page : PagePath) (line : Text) : List LinkKey :=
  extractWikilinksFor U page line.length line

/-- Ordinary links; `labels` are the open labels, each with whether it is an image's, and
`bang` tells of a `!` right before. -/
def extractMarkdownLinksFor (page : PagePath) :
    ℕ → List Bool → Bool → Text → List LinkKey
  | 0, _, _, _ => []
  | _ + 1, _, _, [] => []
  | fuel + 1, labels, bang, c :: rest =>
    if c = '\\' then extractMarkdownLinksFor page fuel labels false (rest.drop 1)
    else if c = '[' then extractMarkdownLinksFor page fuel (bang :: labels) false rest
    else if c = ']' then
      match labels with
      | [] => extractMarkdownLinksFor page fuel [] false rest
      | image :: labels =>
        let destination := if rest.head? = some '(' then parseLinkDestination (rest.drop 1) else none
        match destination with
        | none => extractMarkdownLinksFor page fuel labels false rest
        | some (raw, close) =>
          let behind := rest.drop (close + 2)
          if image then extractMarkdownLinksFor page fuel labels false behind
          else ((normalizeLinkTarget raw page false).map fun path =>
              ⟨none, none, path⟩ : Option LinkKey).toList ++
            extractMarkdownLinksFor page fuel [] false behind
    else extractMarkdownLinksFor page fuel labels (decide (c = '!')) rest

def extractMarkdownLinks (page : PagePath) (line : Text) : List LinkKey :=
  extractMarkdownLinksFor page line.length [] false line

def proseLines : Option CodeFence → List Text → List Text
  | _, [] => []
  | fence, line :: rest =>
    let (next, code) := CodeFence.step fence line
    if code then proseLines next rest else blankInlineCode line :: proseLines next rest

def extractLinkKeys (U : CharTables) (body : Text) (page : PagePath) : List LinkKey :=
  (proseLines none (lines body)).flatMap fun line =>
    extractWikilinks U page line ++ extractMarkdownLinks page line

def LinkKey.bodyLink (key : LinkKey) : Option LinkTarget :=
  match PagePath.new key.path with
  | .error _ => none
  | .ok path => some {
      workspace := key.workspace.map String.ofList
      project := key.project.map String.ofList
      path := path.str
      relation := none }

def extractLinks (U : CharTables) (body : Text) (page : PagePath) : List LinkTarget :=
  (extractLinkKeys U body page).dedup.filterMap LinkKey.bodyLink

variable {U : CharTables}

lemma homed_splitScope {target : Text} (h : (splitScope U target).workspace = none) :
    (splitScope U target).project ≠ some globalScopeProject.toList := by
  revert h
  unfold splitScope
  split
  · simp
  · split
    · simp
    · rename_i scope rest _
      dsimp only
      split
      · split
        · split
          · simp
          · rename_i hglobal
            intro hnone hproject
            exact hglobal ⟨hnone, Option.some.inj hproject⟩
        · simp
      · simp

lemma homed_ofList {workspace project : Option Text}
    (h : workspace = none → project ≠ some globalScopeProject.toList) :
    ¬ (workspace.map String.ofList = none ∧
      project.map String.ofList = some globalScopeProject) := by
  rintro ⟨hnone, hproject⟩
  obtain ⟨chars, rfl, hchars⟩ := Option.map_eq_some_iff.mp hproject
  refine h (Option.map_eq_none_iff.mp hnone) ?_
  rw [← hchars, String.toList_ofList]

lemma homed_wikilinkKey {page : PagePath} {raw : Text} {key : LinkKey}
    (h : wikilinkKey U page raw = some key) (hnone : key.workspace = none) :
    key.project ≠ some globalScopeProject.toList := by
  unfold wikilinkKey at h
  rw [Option.map_eq_some_iff] at h
  obtain ⟨path, -, rfl⟩ := h
  exact homed_splitScope hnone

lemma mem_extractWikilinksFor {page : PagePath} {fuel : ℕ} {rest : Text} {key : LinkKey}
    (h : key ∈ extractWikilinksFor U page fuel rest) : ∃ raw, wikilinkKey U page raw = some key := by
  induction fuel generalizing rest with
  | zero => cases h
  | succ fuel ih =>
    unfold extractWikilinksFor at h
    split at h
    · cases h
    · split at h
      · cases h
      · rename_i raw behind _
        rcases mem_append.mp h with h | h
        · exact ⟨raw, Option.mem_toList.mp h⟩
        · exact ih h

lemma bare_markdownLink {page : PagePath} {fuel : ℕ} {labels : List Bool} {bang : Bool}
    {rest : Text} {key : LinkKey}
    (h : key ∈ extractMarkdownLinksFor page fuel labels bang rest) : key.project = none := by
  induction fuel generalizing labels bang rest with
  | zero => cases h
  | succ fuel ih =>
    cases rest with
    | nil => cases h
    | cons c rest =>
      unfold extractMarkdownLinksFor at h
      split at h
      · exact ih h
      · split at h
        · exact ih h
        · split at h
          · split at h
            · exact ih h
            · dsimp only at h
              split at h
              · exact ih h
              · split at h
                · exact ih h
                · rcases mem_append.mp h with h | h
                  · rw [Option.mem_toList, Option.map_eq_some_iff] at h
                    obtain ⟨path, -, rfl⟩ := h
                    rfl
                  · exact ih h
          · exact ih h

lemma homed_extractLinks {body : Text} {page : PagePath} {link : LinkTarget}
    (h : link ∈ extractLinks U body page) :
    ¬ (link.workspace = none ∧ link.project = some globalScopeProject) := by
  obtain ⟨key, hkey, hlink⟩ := mem_filterMap.mp h
  obtain ⟨line, -, hline⟩ := mem_flatMap.mp (mem_dedup.mp hkey)
  have hhomed : key.workspace = none → key.project ≠ some globalScopeProject.toList := by
    rcases mem_append.mp hline with h | h
    · obtain ⟨raw, hraw⟩ := mem_extractWikilinksFor h
      exact homed_wikilinkKey hraw
    · rw [bare_markdownLink h]
      simp
  unfold LinkKey.bodyLink at hlink
  split at hlink
  · cases hlink
  · cases hlink
    exact homed_ofList hhomed

lemma homed_extractRelationLinks {frontmatter : Json.Value} {link : LinkTarget}
    (h : link ∈ extractRelationLinks U frontmatter) :
    ¬ (link.workspace = none ∧ link.project = some globalScopeProject) := by
  obtain ⟨entry, -, hentry⟩ := mem_flatMap.mp h
  unfold entryLinks at hentry
  split at hentry
  · cases hentry
  · obtain ⟨value, -, hvalue⟩ := mem_filterMap.mp hentry
    obtain ⟨target, -, htarget⟩ := Option.bind_eq_some_iff.mp hvalue
    unfold relationLink at htarget
    dsimp only at htarget
    split at htarget
    · cases htarget
    · split at htarget
      · cases htarget
      · cases htarget
        exact homed_ofList homed_splitScope

end Wiki
