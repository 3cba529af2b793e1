/-
The part of a stored prompt that the user wrote (`ai-memory-consolidate`, `profile.rs`, with the
tests of `ai-memory-core`, `scaffolding.rs`, and the markers of `routing_snippet.rs`).

* `userWritten`, `userWritten_eq_self` — what is left of a prompt, and when that is all of it.

Positions in a text count characters.
-/
import AiMemory.Wiki.Links

open Strings Utf8

namespace Consolidate

def blank (s : Text) : Bool := s.all isWhitespace

/-- `str::strip_prefix`. -/
def stripPrefix (lead : String) (s : Text) : Option Text :=
  if lead.toList.isPrefixOf s then some (s.drop lead.toList.length) else none

def startsWith (s : Text) (lead : String) : Bool := lead.toList.isPrefixOf s

variable (candidate : Text)

/-- A bare tag at the start, such as `<task-notification>`. -/
def looksLikeMarkupBlock : Bool :=
  match trim candidate with
  | '<' :: rest =>
    let tag := rest.takeWhile (· ≠ '>')
    tag ≠ [] && byteLen tag ≤ 64
      && tag.all (fun c => c.isAlphanum || c = '_' || c = '-' || c = '/') && rest.contains '>'
  | _ => false

def looksLikeCodexInstructions : Bool :=
  match stripPrefix "# AGENTS.md instructions" (trimStart candidate) with
  | some rest => rest = [] || startsWith rest " for " || startsWith rest "\n" || startsWith rest "\r"
  | none => false

def looksLikeCodexGeneratedPrompt : Bool :=
  let trimmed := candidate.dropWhile fun c =>
    isWhitespace c || c.toNat = 0xfeff || c.toNat = 0x200b || c.toNat = 0x2060
  startsWith trimmed
      "The following is the Codex agent history whose request action you are assessing."
    || match stripPrefix "# Overview" trimmed with
      | some rest => startsWith (trimStart rest)
          "Generate 0 to 3 hyperpersonalized suggestions for what this user can do with Codex in this local project:"
      | none => false

def transcriptRoles : List String :=
  ["user:", "assistant:", "developer:", "system:", "tool exec call:", "tool exec result:"]

variable (body : Text)

/-- A row of an approval review, such as `[12] user:`. -/
def looksLikeCodexAssessorTranscriptLine : Bool :=
  let trimmed := trimStart body
  startsWith trimmed ">>> TRANSCRIPT START"
    || match (stripPrefix "[" trimmed).bind (splitOnce "] ".toList) with
      | some (index, rest) =>
        index ≠ [] && index.all Char.isDigit && transcriptRoles.any (startsWith rest)
      | none => false

/-- `u8::is_ascii_whitespace`. -/
def asciiWhitespace (c : Char) : Bool :=
  c = ' ' || c = '\t' || c = '\n' || c.toNat = 0x0c || c = '\r'

def looksLikeClaudeCrossSessionMessage : Bool :=
  match (stripPrefix "<cross-session-message" (trimStart body)).bind List.head? with
  | some next => next = '>' || asciiWhitespace next
  | none => false

def looksLikeClaudePluginPrompt : Bool :=
  match (stripPrefix "The <" (trimStart body)).bind (splitOnce ">".toList) with
  | some (plugin, suffix) =>
    plugin ≠ [] && byteLen plugin ≤ 64
      && plugin.all (fun c => c.isAlphanum || c = '-' || c = '_' || c = '.' || c = '/')
      && match stripPrefix " plugin sent a message:" suffix with
        | some tail => tail = [] || startsWith tail "\n" || startsWith tail "\r\n"
        | none => false
  | none => false

/-! ### What is cut out of a prompt -/

def afterNote (sawQuote quoteEnded : Bool) : List Text → Option Text
  | [] => if sawQuote then some [] else none
  | segment :: segments =>
    let line := trimEndBy (fun c => c = '\r' || c = '\n') segment
    let quoted := startsWith (trimStart line) ">"
    if !sawQuote && quoted then afterNote true quoteEnded segments
    else if sawQuote && !quoteEnded && quoted then afterNote sawQuote quoteEnded segments
    else if blank line then afterNote sawQuote (quoteEnded || sawQuote) segments
    else if quoteEnded then some (segment :: segments).flatten
    else none

def withoutClaudeSideAgentNote : Option Text :=
  match stripPrefix "Here is a note offered by a side agent:" (trimStart body) with
  | some rest =>
    if rest ≠ [] && !(startsWith rest "\n" || startsWith rest "\r") then none
    else afterNote false false (splitInclusive rest)
  | none => none

/-- A marker found at or after `index` with nothing but blanks around it on its line.  The
fuel is a bound on the occurrences. -/
def findMarkerFrom (haystack marker : Text) : ℕ → ℕ → Option ℕ
  | 0, _ => none
  | fuel + 1, index =>
    match splitOnce marker (haystack.drop index) with
    | none => none
    | some (skipped, after) =>
      let pos := index + skipped.length
      let before := (haystack.take pos).reverse.takeWhile (· ≠ '\n')
      if blank before && blank (after.takeWhile (· ≠ '\n')) then some pos
      else findMarkerFrom haystack marker fuel (pos + marker.length)

def findMarkerLine (haystack marker : Text) (start : ℕ) : Option ℕ :=
  if marker = [] ∨ haystack.length < start then none
  else findMarkerFrom haystack marker (haystack.length + 1) start

def withoutFencedFrom (text start stop : Text) : ℕ → ℕ → Text
  | 0, pos => text.drop pos
  | fuel + 1, pos =>
    match findMarkerLine text start pos with
    | none => text.drop pos
    | some opening => (text.drop pos).take (opening - pos)
        ++ match findMarkerLine text stop (opening + start.length) with
          | some closing => withoutFencedFrom text start stop fuel (closing + stop.length)
          | none => []

def withoutFenced (text : Text) (start stop : String) : Text :=
  withoutFencedFrom text start.toList stop.toList (text.length + 1) 0

def markerStart : String := "<!-- ai-memory:start -->"

def markerEnd : String := "<!-- ai-memory:end -->"

def untrustedHistoryStart : String := "<!-- ai-memory:untrusted-history:start -->"

def untrustedHistoryEnd : String := "<!-- ai-memory:untrusted-history:end -->"

def userWritten : Option Text :=
  if looksLikeMarkupBlock body || looksLikeCodexInstructions body
      || looksLikeCodexGeneratedPrompt body || looksLikeCodexAssessorTranscriptLine body
      || looksLikeClaudeCrossSessionMessage body || looksLikeClaudePluginPrompt body then none
  else
    let body := (withoutClaudeSideAgentNote body).getD body
    let text := withoutFenced body markerStart markerEnd
    some (withoutFenced text untrustedHistoryStart untrustedHistoryEnd)

end Consolidate
