/-
The metadata a public page write may carry (`ai-memory-core`, `page.rs`).

`PageWriteMetadata` is checked field by field and becomes the frontmatter of the page.
A relation target is `path`, `project:path` or `workspace/project:path`.

Unicode's alphanumeric characters and lower-casing are parameters.
-/
import AiMemory.Core.PagePath
import AiMemory.Lib.Fallible
import AiMemory.Lib.Json
import AiMemory.Store.Index

open Strings Utf8 Fallible

namespace Wiki

open Store
open Json (Value)
open Except (ok.inj)

/-! ### The request -/

/-- The Unicode tables `std` decides by. -/
structure CharTables where
  isAlphanumeric : Char → Bool
  lowercase : String → String

/-- A repository file a page describes, and the commit it was checked against. -/
structure PageSource where
  path : String
  commit : String

/-- A `BTreeMap` from the three relations has an entry or none for each. -/
structure PageWriteMetadata where
  kind : Option String
  entities : List String
  abstractText : Option String
  relations : Relation → Option (List String)
  appliesTo : List String
  enforcedBy : Option String
  sourceFiles : List PageSource

/-- `Relation::ALL`, in the order of the map. -/
def Relation.all : List Relation := [.causes, .fixes, .contradicts]

def Relation.asStr : Relation → String
  | .causes => "causes"
  | .fixes => "fixes"
  | .contradicts => "contradicts"

def Relation.parse : String → Option Relation
  | "causes" => some .causes
  | "fixes" => some .fixes
  | "contradicts" => some .contradicts
  | _ => none

lemma Relation.parse_asStr (rel : Relation) : Relation.parse (Relation.asStr rel) = some rel := by
  cases rel <;> rfl

def PageWriteMetadata.targets (m : PageWriteMetadata) (rel : Relation) : List String :=
  (m.relations rel).getD []

/-- `MemoryError::MalformedRecord`. -/
inductive MalformedRecord
  /-- invalid or oversized page metadata, with the field -/
  | invalid (field : String)
  /-- unknown `applies_to` tag, with the tags that are known -/
  | unknownTag (tag : String) (known : List String)

/-! ### Texts and entities -/

def maxPageKindLen : ℕ := 64

def maxPageAbstractLen : ℕ := 1024

def maxPageRelations : ℕ := 32

def maxPageRelationTargetLen : ℕ := 1024

def maxPageAppliesTo : ℕ := 16

def maxPageAppliesToTagLen : ℕ := 32

def maxPageEnforcedByLen : ℕ := 256

def maxPageSources : ℕ := 16

def maxPageSourcePathLen : ℕ := 1024

/-- At most `max` characters, and no control character but blanks. -/
def validText (raw : String) (max : ℕ) : Bool :=
  decide (raw.toList.length ≤ max) && !raw.toList.any fun c => isControl c && !isWhitespace c

def textField (key : String) (value : Option String) (max : ℕ) :
    Except MalformedRecord (List (String × Value)) :=
  match value with
  | none => .ok []
  | some value =>
    if !validText value max then .error (.invalid key)
    else if trim value.toList = [] then .ok []
    else .ok [(key, .string (String.ofList (trim value.toList)))]

def kindField (m : PageWriteMetadata) := textField "kind" m.kind maxPageKindLen

def abstractField (m : PageWriteMetadata) := textField "abstract" m.abstractText maxPageAbstractLen

def enforcedByField (m : PageWriteMetadata) :=
  textField "enforced_by" m.enforcedBy maxPageEnforcedByLen

def entitiesField (U : CharTables) (m : PageWriteMetadata) :
    Except MalformedRecord (List (String × Value)) :=
  if decide (maxEntitiesPerPage < m.entities.length) || m.entities.any fun e =>
      !validText e maxEntityLen || (normalizeEntity U.lowercase e).isNone then
    .error (.invalid "entities")
  else if m.entities = [] then .ok []
  else .ok [("entities", .array ((normalizeEntities U.lowercase m.entities).map .string))]

/-! ### Relation targets -/

def isScopeChar (U : CharTables) (c : Char) : Bool :=
  U.isAlphanumeric c || c = '-' || c = '_' || c = '/' || c = '.'

def badScopePart (part : Text) : Bool :=
  trim part = [] || part ≠ trim part || part = ['.'] || part = ['.', '.']

def scopeAccepted (U : CharTables) (scope : Text) : Bool :=
  decide ((scope.splitOn '/').length ≤ 2) && scope.all (isScopeChar U) &&
    !(scope.splitOn '/').any badScopePart

variable (path : Text)

def lastSegment : Text := afterLast '/' path

/-- The last segment names a page: it is not empty, not only the extension, and has no
other extension. -/
def namesPage : Bool :=
  lastSegment path ≠ [] && lastSegment path ≠ ['.', 'm', 'd'] &&
    (!(lastSegment path).contains '.' || ['.', 'm', 'd'].isSuffixOf path)

def withExtension : Text :=
  if (lastSegment path).contains '.' then path else path ++ ['.', 'm', 'd']

def checkTarget (U : CharTables) (target : String) : Except MalformedRecord Unit :=
  if !validText target maxPageRelationTargetLen || target.toList.any isControl then
    .error (.invalid "relations")
  else
    let parts := splitOnce [':'] target.toList
    if !(parts.elim true fun parts => scopeAccepted U parts.1) then .error (.invalid "relations")
    else
      let path := trim (parts.elim target.toList Prod.snd)
      if !namesPage path then .error (.invalid "relations")
      else match portablePath (withExtension path) with
        | .error _ => .error (.invalid "relations")
        | .ok _ => .ok ()

def relationEntry (m : PageWriteMetadata) (rel : Relation) : Option (String × Value) :=
  (m.relations rel).map fun targets => (Relation.asStr rel, .array (targets.map .string))

def relationsField (U : CharTables) (m : PageWriteMetadata) :
    Except MalformedRecord (List (String × Value)) :=
  if maxPageRelations < (Relation.all.map fun rel => (m.targets rel).length).sum then
    .error (.invalid "relations")
  else do
    (Relation.all.flatMap m.targets).forM (checkTarget U)
    if Relation.all.filterMap (relationEntry m) = [] then return []
    else return [("relations", .object (Relation.all.filterMap (relationEntry m)))]

def stackTags : List String :=
  ["rust", "javascript", "typescript", "pnpm", "yarn", "bun", "npm", "deno", "python", "uv",
    "poetry", "go", "ruby", "java", "kotlin", "elixir", "php", "swift", "dart", "docker", "nix",
    "csharp"]

/-- A `BTreeSet` of strings, as the sorted list of its members. -/
def insertSorted (tag : String) : List String → List String
  | [] => [tag]
  | head :: rest =>
    if tag < head then tag :: head :: rest
    else if tag = head then head :: rest
    else head :: insertSorted tag rest

def detectableStackTags : List String := stackTags.foldl (fun out tag => insertSorted tag out) []

def collectTags : List String → List String → Except MalformedRecord (List String)
  | [], out => .ok out
  | raw :: rest, out =>
    let tag := String.ofList ((trim raw.toList).map Char.toLower)
    if tag.toList = [] then collectTags rest out
    else if tag ∈ detectableStackTags then collectTags rest (insertSorted tag out)
    else .error (.unknownTag tag detectableStackTags)

def appliesToField (m : PageWriteMetadata) : Except MalformedRecord (List (String × Value)) :=
  if decide (maxPageAppliesTo < m.appliesTo.length) ||
      m.appliesTo.any fun tag => !validText tag maxPageAppliesToTagLen then
    .error (.invalid "applies_to")
  else do
    let tags ← collectTags m.appliesTo []
    if tags = [] then return [] else return [("applies_to", .array (tags.map .string))]

def checkSource (source : PageSource) : Except MalformedRecord Value :=
  let path := trim source.path.toList
  let commit := (trim source.commit.toList).map Char.toLower
  if !validText source.path maxPageSourcePathLen || path.any isControl || path.contains '\\' ||
      (path.splitOn '/').any isDotSegment || !decide (7 ≤ byteLen commit ∧ byteLen commit ≤ 64) ||
      !commit.all isAsciiHexdigit then
    .error (.invalid "source_files")
  else .ok (.object [("path", .string (String.ofList path)), ("commit", .string (String.ofList commit))])

def sourceFilesField (m : PageWriteMetadata) : Except MalformedRecord (List (String × Value)) :=
  if maxPageSources < m.sourceFiles.length then .error (.invalid "source_files")
  else do
    let sources ← m.sourceFiles.mapM checkSource
    if sources = [] then return [] else return [("source_files", .array sources)]

/-! ### The frontmatter -/

def intoFrontmatter (U : CharTables) (m : PageWriteMetadata) :
    Except MalformedRecord (List (String × Value)) := do
  let kind ← kindField m
  let abstractText ← abstractField m
  let enforcedBy ← enforcedByField m
  let entities ← entitiesField U m
  let relations ← relationsField U m
  let appliesTo ← appliesToField m
  let sources ← sourceFilesField m
  return kind ++ abstractText ++ enforcedBy ++ entities ++ relations ++ appliesTo ++ sources

def Keyed (keys : List String) (fields : List (String × Value)) : Prop :=
  ∀ field ∈ fields, field.1 ∈ keys

variable {fields : List (String × Value)} {m : PageWriteMetadata} {U : CharTables}

lemma Keyed.lookup {keys : List String} (h : Keyed keys fields)
    (key : String) (hkey : key ∉ keys) : fields.lookup key = none := by
  rw [List.lookup_eq_none_iff]
  rintro ⟨key', value⟩ hmem
  have hne : key ≠ key' := fun heq => hkey (heq ▸ h _ hmem)
  simpa using hne

lemma keyed_nil (keys : List String) : Keyed keys [] := fun _ h => nomatch h

lemma keyed_singleton (key : String) (value : Value) : Keyed [key] [(key, value)] := by
  intro field h
  rw [List.mem_singleton.mp h]
  exact List.mem_singleton.mpr rfl

lemma textField_keyed {key : String} {value : Option String} {max : ℕ}
    (h : textField key value max = .ok fields) :
    Keyed [key] fields := by
  unfold textField at h
  cases value with
  | none => exact ok.inj h ▸ keyed_nil _
  | some value =>
    simp only at h
    split at h
    · cases h
    · split at h
      · exact ok.inj h ▸ keyed_nil _
      · exact ok.inj h ▸ keyed_singleton _ _

lemma entitiesField_keyed (h : entitiesField U m = .ok fields) :
    Keyed ["entities"] fields := by
  unfold entitiesField at h
  split at h
  · cases h
  · split at h
    · exact ok.inj h ▸ keyed_nil _
    · exact ok.inj h ▸ keyed_singleton _ _

lemma appliesToField_keyed (h : appliesToField m = .ok fields) : Keyed ["applies_to"] fields := by
  unfold appliesToField at h
  split at h
  · cases h
  · obtain ⟨tags, -, h⟩ := bind_eq_ok.mp h
    split at h
    · exact ok.inj h ▸ keyed_nil _
    · exact ok.inj h ▸ keyed_singleton _ _

lemma sourceFilesField_keyed
    (h : sourceFilesField m = .ok fields) : Keyed ["source_files"] fields := by
  unfold sourceFilesField at h
  split at h
  · cases h
  · obtain ⟨sources, -, h⟩ := bind_eq_ok.mp h
    split at h
    · exact ok.inj h ▸ keyed_nil _
    · exact ok.inj h ▸ keyed_singleton _ _

lemma relationsField_ok (h : relationsField U m = .ok fields) :
    (∀ rel, ∀ target ∈ m.targets rel, checkTarget U target = .ok ()) ∧
      fields = if Relation.all.filterMap (relationEntry m) = [] then []
        else [("relations", .object (Relation.all.filterMap (relationEntry m)))] := by
  unfold relationsField at h
  split at h
  · cases h
  · obtain ⟨⟨⟩, hchecks, h⟩ := bind_eq_ok.mp h
    constructor
    · intro rel target htarget
      refine forM_eq_ok.mp hchecks target (List.mem_flatMap.mpr ⟨rel, ?_, htarget⟩)
      cases rel <;> decide
    · split at h
      · rename_i hempty
        rw [if_pos hempty, ← ok.inj h]
      · rename_i hentries
        rw [if_neg hentries, ← ok.inj h]

/-- A successful write has the written relations under `relations`. -/
theorem intoFrontmatter_relations {fm : List (String × Value)} (h : intoFrontmatter U m = .ok fm) :
    (∀ rel, ∀ target ∈ m.targets rel, checkTarget U target = .ok ()) ∧
      fm.lookup "relations" = if Relation.all.filterMap (relationEntry m) = [] then none
        else some (.object (Relation.all.filterMap (relationEntry m))) := by
  unfold intoFrontmatter at h
  obtain ⟨kind, hkind, h⟩ := bind_eq_ok.mp h
  obtain ⟨abstractText, habstract, h⟩ := bind_eq_ok.mp h
  obtain ⟨enforcedBy, henforced, h⟩ := bind_eq_ok.mp h
  obtain ⟨entities, hentities, h⟩ := bind_eq_ok.mp h
  obtain ⟨relations, hrelations, h⟩ := bind_eq_ok.mp h
  obtain ⟨appliesTo, happlies, h⟩ := bind_eq_ok.mp h
  obtain ⟨sources, hsources, h⟩ := bind_eq_ok.mp h
  obtain ⟨hchecked, hfields⟩ := relationsField_ok hrelations
  refine ⟨hchecked, ?_⟩
  rw [← ok.inj h]
  simp only [List.lookup_append, (textField_keyed hkind).lookup "relations" (by decide),
    (textField_keyed habstract).lookup "relations" (by decide),
    (textField_keyed henforced).lookup "relations" (by decide),
    (entitiesField_keyed hentities).lookup "relations" (by decide),
    (appliesToField_keyed happlies).lookup "relations" (by decide),
    (sourceFilesField_keyed hsources).lookup "relations" (by decide),
    Option.none_or, Option.or_none, hfields]
  split <;> rfl

end Wiki
