/-
The page files of the wiki sync: a small frontmatter, then the body verbatim.

`render` prints a page's metadata and body into the file's text; `parse` reads a
file back, strictly: an import replaces the whole server page, so a key it does
not know is refused rather than dropped.  The JSON reader is a parameter
`fromStr`; everything else is spelled out over characters.
-/
import AiMemory.Lib.Json
import AiMemory.Lib.Strings

open Strings

namespace Wikisync

def defaultTier : String := "semantic"

def fence : String := "---"

/-- Page metadata a file carries and an import sends back; no tier means the
default one. -/
structure PageMeta where
  title : Option String := none
  tags : List String := []
  pinned : Bool := false
  tier : Option String := none
deriving DecidableEq

/-- The `tags` of a server page's frontmatter, items that are not strings left out. -/
def serverTags (frontmatter : Json.Value) : List String :=
  match frontmatter.get? "tags" with
  | some (.array items) => items.filterMap Json.Value.asStr?
  | _ => []

def PageMeta.fromServer (title tier : String) (pinned : Bool) (frontmatter : Json.Value) :
    PageMeta where
  title := if title = "" then none else some title
  tags := serverTags frontmatter
  pinned := pinned
  tier := if tier = "" ∨ tier = defaultTier then none else some tier

def titleLine : Option String → String
  | some title => "title: " ++ Json.stringLit title ++ "\n"
  | none => ""

def tagsLine (tags : List String) : String :=
  if tags = [] then "" else "tags: [" ++ ", ".intercalate (tags.map Json.stringLit) ++ "]\n"

def tierLine : Option String → String
  | some tier => "tier: " ++ Json.stringLit tier ++ "\n"
  | none => ""

def render (m : PageMeta) (body : String) : String :=
  fence ++ "\n" ++ titleLine m.title ++ tagsLine m.tags ++
    (if m.pinned then "pinned: true\n" else "") ++ tierLine m.tier ++ fence ++ "\n" ++ body

lemma utf8ByteSize_render (m : PageMeta) (body : String) :
    body.utf8ByteSize + 8 ≤ (render m body).utf8ByteSize := by
  have hfence : fence.utf8ByteSize = 3 := by decide
  have hnewline : ("\n" : String).utf8ByteSize = 1 := by decide
  simp only [render, String.utf8ByteSize_append, hfence, hnewline]
  omega

/-! ### Parsing -/

inductive ParseError
  | notUtf8
  | noFrontmatter
  | notKeyValue (line : String)
  | twice (key : String)
  | notDoubleQuoted (key value : String)
  | notPlain (key : String)
  | notOneLine (key : String)
  | pinnedNotBool (value : String)
  | tagsNotList
  | tagNotString
  | unknownKey (key : String)
  | notClosed
deriving DecidableEq

/-- A line without its newline, and without the `\r` before one. -/
def trimEol (line : Text) : Text :=
  match line.reverse with
  | '\n' :: '\r' :: rest => rest.reverse
  | '\n' :: rest => rest.reverse
  | _ => line

section parse

variable (fromStr : String → Option Json.Value)

/-- One line of plain text is what `scalar` accepts. -/
def checkOneLine (key parsed : String) : Except ParseError String :=
  if trim parsed.toList = [] ∨ '\n' ∈ parsed.toList ∨ '\r' ∈ parsed.toList then
    .error (.notOneLine key)
  else .ok parsed

/-- The value of `title` or `tier`: a double-quoted string, or plain text. -/
def scalar (key value : String) : Except ParseError String :=
  match value.toList.head? with
  | some '"' =>
    match fromStr value with
    | some (.string text) => checkOneLine key text
    | _ => .error (.notDoubleQuoted key value)
  | some c =>
    if c ∈ ['\'', '[', '\x7b', '|', '>', '&', '*', '!'] then .error (.notPlain key)
    else checkOneLine key value
  | none => checkOneLine key value

/-- The value of `tags`: a list of non-empty strings. -/
def tags (value : String) : Except ParseError (List String) :=
  match fromStr value with
  | some (.array items) => items.mapM fun item =>
    match item with
    | .string tag => if trim tag.toList = [] then .error .tagNotString else .ok tag
    | _ => .error .tagNotString
  | _ => .error .tagsNotList

/-- One `key: value` line into the metadata. -/
def setField (m : PageMeta) (key value : String) : Except ParseError PageMeta :=
  match key with
  | "title" => (scalar fromStr key value).map fun title => { m with title := some title }
  | "tier" => (scalar fromStr key value).map fun tier =>
    { m with tier := if tier = defaultTier then none else some tier }
  | "pinned" =>
    match value with
    | "true" => .ok { m with pinned := true }
    | "false" => .ok { m with pinned := false }
    | _ => .error (.pinnedNotBool value)
  | "tags" => (tags fromStr value).map fun tags => { m with tags := tags }
  | _ => .error (.unknownKey key)

/-- The lines after the opening fence: the metadata up to the closing fence, and
the text after it. -/
def parseLines (m : PageMeta) (seen : List String) :
    List Text → Except ParseError (PageMeta × String)
  | [] => .error .notClosed
  | line :: lines =>
    let text := trimEol line
    if text = fence.toList then .ok (m, String.ofList lines.flatten)
    else if trim text = [] then parseLines m seen lines
    else match splitOnce [':'] text with
      | none => .error (.notKeyValue (String.ofList text))
      | some (k, v) =>
        let key := String.ofList (trim k)
        if key ∈ seen then .error (.twice key)
        else match setField fromStr m key (String.ofList (trim v)) with
          | .error e => .error e
          | .ok m' => parseLines m' (key :: seen) lines

def parse (bytes : ByteArray) : Except ParseError (PageMeta × String) :=
  match String.fromUTF8? bytes with
  | none => .error .notUtf8
  | some text =>
    match splitInclusive (stripBom text.toList) with
    | [] => .error .noFrontmatter
    | opening :: lines =>
      if trimEol opening = fence.toList then parseLines fromStr {} [] lines
      else .error .noFrontmatter

end parse

/-- A page with a title and nothing else, as its file. -/
example : render { title := some "T" } "# T\n" = "---\ntitle: \"T\"\n---\n# T\n" := by decide

/-- What a person writes by hand, byte-order mark and Windows line ends included. -/
example : parse (fun _ => none)
    ("\uFEFF---\r\ntitle: Plain title\r\n\r\ntier: semantic\r\n---\r\nbody\r\n").toUTF8 =
      .ok ({ title := some "Plain title" }, "body\r\n") := by decide

end Wikisync
