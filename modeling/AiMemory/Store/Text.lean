/-
Text the store bounds or normalises before it keeps it (`ai-memory-core`,
`sanitize.rs` and `page.rs`).

Unicode lower-casing is a parameter.
-/
import Mathlib.Data.Nat.Notation
import AiMemory.Lib.Strings

open Strings (isWhitespace isControl)

namespace Store

/-- The longest beginning that fits in `limit` UTF-8 bytes. -/
def takeBytes : ℕ → Text → Text
  | _, [] => []
  | limit, c :: cs =>
    if c.utf8Size ≤ limit then c :: takeBytes (limit - c.utf8Size) cs else []

/-- `truncate_utf8_bytes`: at most `max` bytes, with an ellipsis when cut. -/
def truncateUtf8Bytes (input : String) (max : ℕ) : String :=
  if input.utf8ByteSize ≤ max then input
  else if max < Char.utf8Size '…' then ""
  else String.ofList (takeBytes (max - Char.utf8Size '…') input.toList) ++ "…"

/-- `value.trim().is_empty()`. -/
def isBlank (value : String) : Bool := value.toList.all isWhitespace

/-- `str::split_whitespace`. -/
def splitWhitespace (s : Text) : List Text :=
  (s.splitOnP isWhitespace).filter (· ≠ [])

def maxEntityLen : ℕ := 64

def maxEntitiesPerPage : ℕ := 10

variable (lowercase : String → String)

/-- Trim, collapse inner whitespace, lower-case; `none` when the result is
empty, holds a control character or is too long. -/
def normalizeEntity (raw : String) : Option String :=
  let collapsed := [' '].intercalate (splitWhitespace raw.toList)
  if collapsed.any isControl || maxEntityLen < collapsed.length then none
  else
    let normalized := lowercase (String.ofList collapsed)
    if normalized.toList = [] || maxEntityLen < normalized.toList.length then none
    else some normalized

/-- The entity names a page is indexed under. -/
def normalizeEntities (raw : List String) : List String :=
  let valid := raw.filterMap (normalizeEntity lowercase)
  (valid.foldl (fun out name => if name ∈ out then out else out ++ [name]) []).take
    maxEntitiesPerPage

end Store
