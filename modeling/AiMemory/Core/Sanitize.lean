/-
The redaction of secrets (`ai-memory-core`, `sanitize.rs`).

A pass of `Sanitizer::scrub` runs one pattern over the text as written and over its view —
invisible characters dropped, JSON escapes decoded — maps the matches of the view back,
lets them grow inside JSON strings, widens all of them to whole escapes, and replaces
what they cover.

* `Sanitizer.spans`, `Sanitizer.pass` — one pass.

`none` is a panic: a slice that splits a character, or bounds that are out of order.  The
regex engine is a parameter (`Regex`), and so is the JSON parser.
-/
import AiMemory.Lib.Utf8
import Mathlib.Data.List.Sort

open Utf8

namespace Sanitize

abbrev Span := ℕ × ℕ

def inRange (c : Char) (low high : ℕ) : Bool := low ≤ c.toNat && c.toNat ≤ high

def isStrippedControl (c : Char) : Bool :=
  inRange c 0x0 0x8 || c.toNat = 0xb || c.toNat = 0xc || inRange c 0xe 0x1f || inRange c 0x7f 0x9f
    || inRange c 0x202a 0x202e || inRange c 0x2066 0x2069

def isHiddenTextChar (offset : ℕ) (c : Char) : Bool :=
  inRange c 0x2061 0x2064 || inRange c 0xe0000 0xe007f || (c.toNat = 0xfeff && 0 < offset)

def isDefaultIgnorable (c : Char) : Bool :=
  c.toNat = 0xad || c.toNat = 0x34f || c.toNat = 0x61c || c.toNat = 0x115f || c.toNat = 0x1160
    || c.toNat = 0x17b4 || c.toNat = 0x17b5 || inRange c 0x180b 0x180f || inRange c 0x200b 0x200f
    || inRange c 0x202a 0x202e || inRange c 0x2060 0x206f || c.toNat = 0x3164
    || inRange c 0xfe00 0xfe0f || c.toNat = 0xfeff || c.toNat = 0xffa0 || inRange c 0xfff0 0xfff8
    || inRange c 0x1bca0 0x1bca3 || inRange c 0x1d173 0x1d17a || inRange c 0xe0000 0xe0fff

/-- The tag characters that close an emoji flag, when the run is well formed: `len` bytes
of tag letters were read so far. -/
def emojiTagRunLen (len : ℕ) : Text → ℕ
  | [] => 0
  | c :: rest =>
    if inRange c 0xe0020 0xe007e then emojiTagRunLen (len + c.utf8Size) rest
    else if c.toNat = 0xe007f && 0 < len then len + c.utf8Size
    else 0

/-! ### JSON escapes -/

/-- `char::from_u32`. -/
def charFromU32 (n : ℕ) : Option Char := if n.isValidChar then some (Char.ofNat n) else none

variable (b : UInt8)

/-- `char::to_digit(16)` of a byte. -/
def toHexDigit : Option ℕ :=
  let n := b.toNat
  if 48 ≤ n && n ≤ 57 then some (n - 48)
  else if 97 ≤ n && n ≤ 102 then some (n - 87)
  else if 65 ≤ n && n ≤ 70 then some (n - 55)
  else none

def jsonHexUnit (bytes : List UInt8) (pos : ℕ) : Option ℕ :=
  if pos + 4 ≤ bytes.length then
    ((bytes.drop pos).take 4).foldlM
      (fun unit b => (toHexDigit b).map fun digit => unit <<< 4 ||| digit) 0
  else none

def backslash : UInt8 := 0x5c
def quote : UInt8 := 0x22
def letterN : UInt8 := 0x6e
def letterR : UInt8 := 0x72
def letterU : UInt8 := 0x75

def jsonUnicodeEscapeAt (bytes : List UInt8) (index : ℕ) : Option (Char × ℕ) := do
  let unit ← jsonHexUnit bytes (index + 2)
  if ¬(0xD800 ≤ unit ∧ unit ≤ 0xDBFF) then
    let c ← charFromU32 unit
    some (c, 6)
  else if bytes[index + 6]? = some backslash ∧ bytes[index + 7]? = some letterU then
    let low ← (jsonHexUnit bytes (index + 8)).filter fun low => 0xDC00 ≤ low && low ≤ 0xDFFF
    let c ← charFromU32 (0x10000 + ((unit - 0xD800) <<< 10) + (low - 0xDC00))
    some (c, 12)
  else none

def jsonEscapeAt (bytes : List UInt8) (index : ℕ) : Option (Char × ℕ) :=
  if bytes[index]? = some backslash then
    match bytes[index + 1]? with
    | some 0x22 => some ('"', 2)
    | some 0x5c => some ('\\', 2)
    | some 0x2f => some ('/', 2)
    | some 0x62 => some (Char.ofNat 0x8, 2)
    | some 0x66 => some (Char.ofNat 0xc, 2)
    | some 0x6e => some ('\n', 2)
    | some 0x72 => some ('\r', 2)
    | some 0x74 => some ('\t', 2)
    | some 0x75 => jsonUnicodeEscapeAt bytes index
    | _ => none
  else none

variable (text : Text)

def sourceLenAt (index : ℕ) : Option ℕ :=
  match jsonEscapeAt (bytes text) index with
  | some (_, len) => some len
  | none => (dropBytes text index).map fun rest => rest.head?.elim 0 Char.utf8Size

structure Shadow where
  text : Text
  origin : List ℕ
  deriving DecidableEq

def Shadow.push (shadow : Shadow) (c : Char) (index : ℕ) : Shadow where
  text := shadow.text ++ [c]
  origin := shadow.origin ++ List.replicate c.utf8Size index

/-- The loop of `Shadow::of`, one character or escape at a time. -/
def Shadow.ofFrom (text : Text) : ℕ → ℕ → Shadow → Option Shadow
  | 0, _, _ => none
  | fuel + 1, index, shadow => do
    let rest ← dropBytes text index
    match rest with
    | [] => some shadow
    | c :: _ =>
      let (c, len) := (jsonEscapeAt (bytes text) index).getD (c, c.utf8Size)
      Shadow.ofFrom text fuel (index + len)
        (if isDefaultIgnorable c then shadow else shadow.push c index)

/-- The view, when the text reads differently without its escapes and invisible
characters. -/
def Shadow.of : Option (Option Shadow) :=
  if text.any fun c => c = '\\' || isDefaultIgnorable c then
    (Shadow.ofFrom text (byteLen text + 1) 0 ⟨[], []⟩).map some
  else some none

def Shadow.originalSpan (shadow : Shadow) (text : Text) (start stop : ℕ) : Option Span := do
  let first := shadow.origin[start]?.getD (byteLen text)
  if start < stop then
    match shadow.origin[stop - 1]? with
    | some last =>
      let len ← sourceLenAt text last
      some (first, last + len)
    | none => some (first, first)
  else some (first, first)

/-! ### Values inside JSON lines -/

/-- The number of leading entries with a property, for a list that is partitioned by it. -/
def partitionPoint {α : Type} (l : List α) (p : α → Bool) : ℕ := (l.takeWhile p).length

/-- The order of pairs that `sort_unstable` sorts spans by. -/
def Span.before (a b : Span) : Prop := a.1 < b.1 ∨ a.1 = b.1 ∧ a.2 ≤ b.2

instance : DecidableRel Span.before := fun a b =>
  inferInstanceAs (Decidable (a.1 < b.1 ∨ a.1 = b.1 ∧ a.2 ≤ b.2))

/-- `SortedSpans::new`. -/
def sortedSpans (spans : List Span) : List Span := spans.insertionSort Span.before

def overlapping (sorted : List Span) (span : Span) : List Span :=
  let low := partitionPoint sorted fun s => s.2 ≤ span.1
  let high := partitionPoint sorted fun s => s.1 < span.2
  if low ≤ high then (sorted.drop low).take (high - low) else []

def isKeyByte : Bool :=
  let n := b.toNat
  (48 ≤ n && n ≤ 57) || (65 ≤ n && n ≤ 90) || (97 ≤ n && n ≤ 122) || n = 0x5f || n = 0x2e || n = 0x2d

def isDigitByte : Bool := 48 ≤ b.toNat && b.toNat ≤ 57

def exportWord : Text := "export ".toList

/-- Whether a line opens with `KEY=value` or `key: value`. -/
def startsAssignment (rest : Text) : Option Bool :=
  let rest := if exportWord.isPrefixOf rest then rest.drop exportWord.length else rest
  let keyLen := ((bytes rest).takeWhile isKeyByte).length
  if keyLen = 0 || (bytes rest).head?.any isDigitByte then some false
  else do
    let tail ← dropBytes rest keyLen
    match bytes (tail.dropWhile fun c => c = ' ' || c = '\t') with
    | sep :: next :: _ =>
      some ((sep = 0x3d || sep = 0x3a) && !(next = 0x3d || next = quote || next = backslash))
    | _ => some false

/-- The loop of `last_line_end`. -/
def lastLineEndFrom (text : Text) : ℕ → ℕ → Option (Option ℕ)
  | 0, _ => none
  | fuel + 1, pos =>
    match (bytes text)[pos]? with
    | none => some (some pos)
    | some byte =>
      if byte = quote then some (some pos)
      else if byte = backslash then
        let next := (bytes text)[pos + 1]?
        if next = some quote then some (some pos)
        else if next = some letterN ∨ next = some letterR then some none
        else do
          let len ← sourceLenAt text pos
          lastLineEndFrom text fuel (pos + max len 1)
      else do
        let rest ← dropBytes text pos
        lastLineEndFrom text fuel (pos + rest.head?.elim 1 Char.utf8Size)

/-- The end of the continuation after an escaped line break, when it is the last line of its
string and no new assignment or comment. -/
def lastLineEnd (start : ℕ) : Option (Option ℕ) := do
  let rest ← dropBytes text start
  let start := if "\\n".toList.isPrefixOf rest then start + 2 else start
  let rest ← dropBytes text start
  if (← startsAssignment rest) || rest.head? = some '#' then some none
  else do
    let stop ← lastLineEndFrom text (byteLen text + 1) start
    some (stop.filter fun pos => start < pos)

/-- The loop of `json_value_end`. -/
def jsonValueEndFrom (text : Text) : ℕ → ℕ → Option ℕ
  | 0, _ => none
  | fuel + 1, pos =>
    match (bytes text)[pos]? with
    | none => some pos
    | some byte =>
      if byte = quote then some pos
      else if byte = backslash then
        let next := (bytes text)[pos + 1]?
        if next = some quote then some pos
        else do
          let len := max (← sourceLenAt text pos) 1
          if next = some letterN ∨ next = some letterR then
            let stop ← lastLineEnd text (pos + len)
            some (stop.getD pos)
          else jsonValueEndFrom text fuel (pos + len)
      else do
        let rest ← dropBytes text pos
        jsonValueEndFrom text fuel (pos + rest.head?.elim 1 Char.utf8Size)

def jsonValueEnd (pos : ℕ) : Option ℕ :=
  jsonValueEndFrom text (byteLen text + 1) pos

/-- The offsets of the line breaks, from `pos` on. -/
def lineBreaks : ℕ → Text → List ℕ
  | _, [] => []
  | pos, c :: text =>
    if c = '\n' then pos :: lineBreaks (pos + c.utf8Size) text
    else lineBreaks (pos + c.utf8Size) text

def lineAt (pos : ℕ) : Span :=
  let breaks := lineBreaks 0 text
  let line := partitionPoint breaks fun i => i < pos
  let start := if line = 0 then 0 else breaks[line - 1]?.elim 0 (· + 1)
  (start, breaks[line]?.getD (byteLen text))

variable (isJson : Text → Bool)

/-- Whether the line that holds an offset is a JSON value with an escape in it.
`JsonLines` remembers the answer by the start of the line. -/
def jsonLine (text : Text) (pos : ℕ) : Option Bool := do
  let line ← slice text (lineAt text pos).1 (lineAt text pos).2
  let line := (line.reverse.dropWhile (· = '\r')).reverse
  some (line.contains '\\' && isJson line)

def oddRunBefore (bytes : List UInt8) (pos : ℕ) : Bool :=
  ((bytes.take pos).reverse.takeWhile (· = backslash)).length % 2 = 1

def wholeEscapes (span : Span) : Option Span := do
  let start := if 0 < span.1 && oddRunBefore (bytes text) span.1 then span.1 - 1 else span.1
  if start < span.2 && span.2 < byteLen text && oddRunBefore (bytes text) span.2 then
    let len ← sourceLenAt text (span.2 - 1)
    some (start, max (span.2 - 1 + len) span.2)
  else some (start, span.2)

def mergeFrom (span : Span) : List Span → List Span
  | [] => [span]
  | next :: rest =>
    if span.2 ≤ next.1 then span :: mergeFrom next rest
    else mergeFrom (span.1, max span.2 next.2) rest

def mergeSpans : List Span → List Span
  | [] => []
  | span :: rest => mergeFrom span rest

def redactedMarker (label : Text) : Text := "[REDACTED:".toList ++ label ++ [']']

def redactSpans (spans : List Span) (label : Text) :
    Option Text := do
  let widened ← spans.mapM (wholeEscapes text)
  splice text (redactedMarker label) 0 (mergeSpans (sortedSpans widened))

/-! ### The sanitizer -/

/-- What one match captures: the whole of it, and the group named `secret`. -/
structure Captures where
  whole : Span
  secret : Option Span

/-- A compiled pattern: on every text, matches at character boundaries, in order and
disjoint, with a group inside its match. -/
structure Regex where
  captures : Text → List Captures
  aligned : ∀ text, ∀ m ∈ captures text,
    Boundary text m.whole.1 ∧ Boundary text m.whole.2 ∧ m.whole.1 ≤ m.whole.2
  group : ∀ text, ∀ m ∈ captures text, ∀ g ∈ m.secret,
    Boundary text g.1 ∧ Boundary text g.2 ∧ m.whole.1 ≤ g.1 ∧ g.1 ≤ g.2 ∧ g.2 ≤ m.whole.2
  ordered : ∀ text, (captures text).Pairwise fun a b => a.whole.2 ≤ b.whole.1

structure Pattern where
  re : Regex
  label : Text
  secretGroup : Bool

structure Sanitizer where
  patterns : List Pattern
  allowlist : List Text
  escapes : Regex

/-- What a pattern matches in a text: its `secret` group where it has one. -/
def Pattern.matches (pattern : Pattern) (text : Text) : List Span :=
  if pattern.secretGroup then (pattern.re.captures text).map fun m => m.secret.getD m.whole
  else (pattern.re.captures text).map (·.whole)

def privateKeyLabel : Text := "private_key".toList

variable (sanitizer : Sanitizer)

def Sanitizer.allowlisted (label matched : Text) : Bool :=
  if label = privateKeyLabel || sanitizer.allowlist.isEmpty then false
  else
    let visible := matched.filter fun c => !isDefaultIgnorable c
    sanitizer.allowlist.any fun entry => visible.tails.any entry.isPrefixOf

def Sanitizer.exposed (pattern : Pattern) :
    Option (List Span) := do
  let judged ← (pattern.matches text).mapM fun m => do
    let matched ← slice text m.1 m.2
    some (m, sanitizer.allowlisted pattern.label matched)
  some ((judged.filter fun m => !m.2).map (·.1))

def Sanitizer.spans (shadow : Option Shadow)
    (pattern : Pattern) : Option (List Span) :=
  match shadow with
  | some shadow => do
    let found ← sanitizer.exposed shadow.text pattern
    found.mapM fun m => shadow.originalSpan text m.1 m.2
  | none => sanitizer.exposed text pattern

/-- What a plain match adds to the spans of the view: itself, or in a JSON line that the
view covers only the tail of each covered value. -/
def keptSpans (text : Text) (view : List Span) (span : Span) :
    Option (List Span) := do
  let covered := overlapping view span
  if covered.isEmpty then some [span]
  else if !(← jsonLine isJson text span.1) then some [span]
  else do
    let tails ← covered.mapM fun s => do
      let stop ← jsonValueEnd text s.2
      some (s.2, min stop span.2)
    some (tails.filter fun tail => tail.1 < tail.2)

def Sanitizer.passSpans (text : Text)
    (pattern : Pattern) : Option (List Span) := do
  let shadow ← Shadow.of text
  let spans ← sanitizer.spans text shadow pattern
  if shadow.isNone then some spans
  else do
    let plain ← sanitizer.spans text none pattern
    let kept ← plain.mapM (keptSpans isJson text (sortedSpans spans))
    some (spans ++ kept.flatten)

/-- One pass of `scrub`. -/
def Sanitizer.pass (text : Text)
    (pattern : Pattern) : Option Text := do
  let spans ← sanitizer.passSpans isJson text pattern
  if spans.isEmpty then some text else redactSpans text spans pattern.label

/-- `Regex::replace_all` with nothing. -/
def Regex.removeAll (re : Regex) (text : Text) : Option Text :=
  splice text [] 0 ((re.captures text).map (·.whole))

/-- The loop of `strip_control`; `skip` characters of an emoji flag are copied as they are. -/
def stripFrom : ℕ → ℕ → Text → Text
  | _, _, [] => []
  | offset, skip + 1, c :: rest => c :: stripFrom (offset + c.utf8Size) skip rest
  | offset, 0, c :: rest =>
    let next := offset + c.utf8Size
    if c.toNat = 0x1f3f4 then
      -- every tag character takes four bytes
      c :: stripFrom next (emojiTagRunLen 0 rest / 4) rest
    else if isStrippedControl c || isHiddenTextChar offset c then stripFrom next 0 rest
    else c :: stripFrom next 0 rest

/-- `strip_control`: terminal escapes, controls and characters that hide text. -/
def Sanitizer.stripControl (input : Text) : Option Text :=
  (sanitizer.escapes.removeAll input).map (stripFrom 0 0)

/-- `Sanitizer::scrub`. -/
def Sanitizer.scrub (isJson : Text → Bool) (input : Text) : Option Text := do
  let text ← sanitizer.stripControl input
  sanitizer.patterns.foldlM (sanitizer.pass isJson) text

end Sanitize
