/-
Relation edges, read back from a page's frontmatter (`ai-memory-wiki`, `markdown.rs`).

The write boundary and the reader take a target apart on their own.  They agree on every
target the boundary accepts, but for a scope that reads like the scheme of a URL.
-/
import AiMemory.Core.PageMetadata

open Strings Fallible List

namespace Wiki

open Store
open Json (Value)

/-! ### The reader -/

def schemePrefixes : List String :=
  ["mailto:", "data:", "javascript:", "vbscript:", "tel:", "file:"]

variable (target : Text)

def schemed : Bool :=
  schemePrefixes.any fun scheme => scheme.toList.isPrefixOf (target.map Char.toLower)

/-- `LinkKey`: a workspace, a project and the rest of the target. -/
structure LinkKey where
  workspace : Option Text
  project : Option Text
  path : Text
  deriving DecidableEq

def splitScope (U : CharTables) (target : Text) : LinkKey :=
  if (splitOnce [':', '/', '/'] target).isSome || schemed target then ⟨none, none, target⟩
  else match splitOnce [':'] target with
  | none => ⟨none, none, target⟩
  | some (scope, rest) =>
    let scope := trim scope
    if scope ≠ [] && scope.all (isScopeChar U) then
      let parts := splitOnce ['/'] scope
      let workspace := parts.map fun parts => trim parts.1
      let project := parts.elim scope fun parts => trim parts.2
      if project ≠ [] then
        -- the reserved project is in the default workspace
        if workspace = none ∧ project = globalScopeProject.toList then
          ⟨some defaultWorkspaceName.toList, some project, trim rest⟩
        else ⟨workspace, some project, trim rest⟩
      else ⟨none, none, target⟩
    else ⟨none, none, target⟩

def lastSegmentNamesAPage : Bool :=
  lastSegment target ≠ [] && lastSegment target ≠ ['.', 'm', 'd']

def relationLink (U : CharTables) (relation : Relation) (target : String) : Option LinkTarget :=
  let key := splitScope U target.toList
  let rawPath := trim key.path
  let last := lastSegment rawPath
  if !(lastSegmentNamesAPage rawPath &&
      (!last.contains '.' || ['.', 'm', 'd'].isSuffixOf rawPath)) then none
  else
    let normalized := if last.contains '.' then rawPath else rawPath ++ ['.', 'm', 'd']
    match PagePath.new normalized with
    | .error _ => none
    | .ok path => some {
        workspace := key.workspace.map String.ofList
        project := key.project.map String.ofList
        path := path.str
        relation := some relation }

def entryLinks (U : CharTables) (entry : String × Value) : List LinkTarget :=
  match Relation.parse entry.1 with
  | none => []
  | some relation =>
    (entry.2.asArray?.getD []).filterMap fun v => v.asStr?.bind (relationLink U relation)

def extractRelationLinks (U : CharTables) (frontmatter : Value) : List LinkTarget :=
  (((frontmatter.get? "relations").bind Value.asObject?).getD []).flatMap (entryLinks U)

/-- `path`, `project:path` or `workspace/project:path`. -/
def spell : LinkKey :=
  match splitOnce [':'] target with
  | none => ⟨none, none, trim target⟩
  | some (scope, path) =>
    match splitOnce ['/'] scope with
    | none => ⟨none, some scope, trim path⟩
    | some (workspace, project) => ⟨some workspace, some project, trim path⟩

variable (key : LinkKey)

def LinkKey.homed : LinkKey :=
  if key.workspace = none ∧ key.project = some globalScopeProject.toList then
    { key with workspace := some defaultWorkspaceName.toList }
  else key

def LinkKey.link (relation : Relation) : LinkTarget where
  workspace := key.workspace.map String.ofList
  project := key.project.map String.ofList
  path := String.ofList (withExtension key.path)
  relation := some relation

lemma LinkKey.homed_path : key.homed.path = key.path := by
  unfold homed
  split <;> rfl

variable {U : CharTables}

lemma not_badScopePart {part : Text} (h : badScopePart part = false) :
    part ≠ [] ∧ trim part = part := by
  simp only [badScopePart, Bool.or_eq_false_iff, decide_eq_false_iff_not] at h
  obtain ⟨⟨⟨hblank, htrim⟩, -⟩, -⟩ := h
  have htrim' : part = trim part := by simpa using htrim
  exact ⟨fun hnil => hblank (htrim' ▸ hnil), htrim'.symm⟩

lemma trim_append {before after : Text} {c : Char} (hbefore : before ≠ [])
    (hbt : trim before = before) (hafter : after ≠ []) (hat : trim after = after) :
    trim (before ++ c :: after) = before ++ c :: after := by
  refine trimBy_eq_self ?_ ?_
  · intro d hd
    refine head?_trimBy (p := isWhitespace) (s := before) d ?_
    change d ∈ (trim before).head?
    rw [hbt]
    cases before with
    | nil => exact absurd rfl hbefore
    | cons a before => exact hd
  · intro d hd
    refine getLast?_trimBy (p := isWhitespace) (s := after) d ?_
    change d ∈ (trim after).getLast?
    rw [hat]
    rw [getLast?_append] at hd
    cases after with
    | nil => exact absurd rfl hafter
    | cons a after => simpa [getLast?_cons] using hd

lemma scopeAccepted_cases {scope : Text} (h : scopeAccepted U scope) :
    scope ≠ [] ∧ trim scope = scope ∧ scope.all (isScopeChar U) ∧
      ∀ workspace project, splitOnce ['/'] scope = some (workspace, project) →
        trim workspace = workspace ∧ trim project = project ∧ project ≠ [] := by
  simp only [scopeAccepted, Bool.and_eq_true, Bool.not_eq_true', decide_eq_true_eq] at h
  obtain ⟨⟨hlen, hchars⟩, hparts⟩ := h
  rw [any_eq_false] at hparts
  have hgood : ∀ part ∈ scope.splitOn '/', part ≠ [] ∧ trim part = part := by
    intro part hpart
    exact not_badScopePart (by simpa using hparts part hpart)
  cases hsplit : splitOnce ['/'] scope with
  | none =>
    rw [splitOn_eq_singleton (splitOnce_eq_none.mp hsplit)] at hgood
    obtain ⟨hne, htrim⟩ := hgood scope (mem_singleton.mpr rfl)
    exact ⟨hne, htrim, hchars, fun _ _ h => nomatch h⟩
  | some parts =>
    obtain ⟨workspace, project⟩ := parts
    have hscope : scope = workspace ++ '/' :: project := by
      rw [splitOnce_some hsplit, append_assoc]
      rfl
    rw [hscope, splitOn_append_cons_self_of_not_mem (splitOnce_notMem hsplit)] at hgood hlen
    -- two parts at most, so the project has no slash of its own
    have hproject : '/' ∉ project := by
      intro hmem
      obtain ⟨⟨before, after⟩, hagain⟩ := Option.ne_none_iff_exists'.mp
        (fun hnone => splitOnce_eq_none.mp hnone hmem : splitOnce ['/'] project ≠ none)
      have hlong : project = before ++ '/' :: after := by
        rw [splitOnce_some hagain, append_assoc]
        rfl
      obtain ⟨first, rest, heq⟩ := exists_splitOn '/' after
      rw [hlong, splitOn_append_cons_self_of_not_mem (splitOnce_notMem hagain), heq] at hlen
      simp at hlen
    rw [splitOn_eq_singleton hproject] at hgood
    obtain ⟨hwne, hwtrim⟩ := hgood workspace (by simp)
    obtain ⟨hpne, hptrim⟩ := hgood project (by simp)
    refine ⟨?_, ?_, hchars, ?_⟩
    · rw [hscope]; simp
    · rw [hscope]
      exact trim_append hwne hwtrim hpne hptrim
    · intro workspace' project' heq
      cases heq
      exact ⟨hwtrim, hptrim, hpne⟩

/-! ### Accepted paths -/

theorem portablePath_ok {raw : Text} {path : PagePath} (h : portablePath raw = .ok path) :
    PagePath.new raw = .ok path ∧ path.ensurePortable = .ok () := by
  obtain ⟨path', hnew, h⟩ := bind_eq_ok.mp h
  obtain ⟨⟨⟩, hportable, h⟩ := bind_eq_ok.mp h
  cases h
  exact ⟨hnew, hportable⟩

structure Checked (U : CharTables) (target : Text) (key : LinkKey) (page : PagePath) :
    Prop where
  scope : ∀ parts, splitOnce [':'] target = some parts → scopeAccepted U parts.1 = true
  names : namesPage key.path = true
  new : PagePath.new (withExtension key.path) = .ok page
  portable : page.ensurePortable = .ok ()

lemma spell_path :
    (spell target).path = trim ((splitOnce [':'] target).elim target Prod.snd) := by
  unfold spell
  cases splitOnce [':'] target with
  | none => rfl
  | some parts =>
    cases hscope : splitOnce ['/'] parts.1 with
    | none | some _ => simp only [hscope, Option.elim]

lemma checkTarget_ok {target : String} (h : checkTarget U target = .ok ()) :
    ∃ page, Checked U target.toList (spell target.toList) page := by
  unfold checkTarget at h
  split at h
  · cases h
  · simp only at h
    split at h
    · cases h
    · rename_i hscope
      split at h
      · cases h
      · rename_i hnames
        rw [← spell_path] at hnames h
        cases hpath : portablePath (withExtension (spell target.toList).path) with
        | error e =>
          rw [hpath] at h
          cases h
        | ok page =>
          obtain ⟨hnew, hportable⟩ := portablePath_ok hpath
          refine ⟨page, ?_, by simpa using hnames, hnew, hportable⟩
          intro parts hparts
          rw [hparts] at hscope
          simpa using hscope

lemma PagePath.colon_notMem {page : PagePath} (h : page.ensurePortable = .ok ()) :
    ':' ∉ page.chars := by
  intro hcolon
  obtain ⟨segment, hsegment, hmem⟩ := mem_segment (c := '/') hcolon (by decide)
  have hnone : (page.chars.splitOn '/').findSome? componentFault = none := by
    unfold ensurePortable at h
    cases hfault : (page.chars.splitOn '/').findSome? componentFault with
    | none => rfl
    | some fault =>
      rw [hfault] at h
      cases h
  have hclean := findSome?_eq_none_iff.mp hnone segment hsegment
  unfold componentFault at hclean
  split at hclean
  · cases hclean
  · split at hclean
    · cases hclean
    · rename_i hfind
      exact find?_eq_none.mp hfind ':' hmem (by decide)

lemma mem_withExtension {path : Text} {c : Char} (h : c ∈ path) : c ∈ withExtension path := by
  unfold withExtension
  split
  · exact h
  · exact mem_append_left _ h

lemma PagePath.new_head {raw : Text} {page : PagePath} (h : PagePath.new raw = .ok page) :
    raw.head? ≠ some '/' := by
  intro hhead
  unfold PagePath.new at h
  have hne : raw ≠ [] := by
    intro hnil
    rw [hnil] at hhead
    cases hhead
  rw [if_neg hne, if_pos hhead] at h
  cases h

lemma Checked.not_url {target : Text} {page : PagePath}
    (h : Checked U target (spell target) page) : splitOnce [':', '/', '/'] target = none := by
  rw [← Option.not_isSome_iff_eq_none, Option.isSome_iff_exists]
  rintro ⟨⟨before, after⟩, hurl⟩
  have htarget := splitOnce_some hurl
  have hpath := spell_path target
  cases hsplit : splitOnce [':'] target with
  | none =>
    refine splitOnce_eq_none.mp hsplit ?_
    rw [htarget]
    simp
  | some parts =>
    obtain ⟨scope, path⟩ := parts
    rw [hsplit, Option.elim] at hpath
    have hcolon : ':' ∉ path := by
      intro hmem
      refine PagePath.colon_notMem h.portable ?_
      rw [PagePath.new_ok h.new, hpath]
      exact mem_withExtension (mem_trimBy hmem (by decide))
    have hslash : path.head? ≠ some '/' := by
      intro hhead
      have htrim := head?_trimBy_of_head? hhead (show isWhitespace '/' = false by decide)
      refine PagePath.new_head h.new ?_
      rw [hpath]
      change (withExtension (trimBy isWhitespace path)).head? = some '/'
      unfold withExtension
      split
      · exact htrim
      · rw [head?_append, htrim]
        rfl
    have hscope := splitOnce_notMem hsplit
    rw [splitOnce_some hsplit, append_assoc, append_assoc] at htarget
    rcases append_eq_append_iff.mp htarget with ⟨mid, hbefore, hrest⟩ | ⟨mid, hscope', hrest⟩
    · cases mid with
      | nil =>
        obtain ⟨-, hpath'⟩ := List.cons.inj hrest
        exact hslash (by rw [show path = '/' :: ('/' :: after) from hpath']; rfl)
      | cons d mid =>
        obtain ⟨-, hpath'⟩ := List.cons.inj hrest
        exact hcolon (by rw [show path = mid ++ _ from hpath']; simp)
    · cases mid with
      | nil =>
        obtain ⟨-, hpath'⟩ := List.cons.inj hrest
        exact hslash (by rw [show path = '/' :: ('/' :: after) from hpath'.symm]; rfl)
      | cons d mid =>
        obtain ⟨hd, -⟩ := List.cons.inj hrest
        exact hscope (by rw [hscope', ← hd]; simp)

lemma Checked.splitScope {target : Text} {page : PagePath}
    (h : Checked U target (spell target) page) (hscheme : schemed target = false) :
    ∃ path, splitScope U target = { (spell target).homed with path := path } ∧
      trim path = (spell target).path := by
  unfold Wiki.splitScope
  rw [h.not_url, hscheme]
  cases hsplit : splitOnce [':'] target with
  | none =>
    refine ⟨target, ?_, ?_⟩
    · simp [spell, hsplit, LinkKey.homed]
    · simp [spell, hsplit]
  | some parts =>
    obtain ⟨scope, rest⟩ := parts
    obtain ⟨hne, htrim, hchars, hparts⟩ := scopeAccepted_cases (h.scope _ hsplit)
    refine ⟨trim rest, ?_, ?_⟩
    · simp only [Option.isSome_none, Bool.or_self, Bool.false_eq_true, if_false, htrim, hchars]
      cases hslash : splitOnce ['/'] scope with
      | none =>
        simp only [spell, hsplit, hslash, Option.map_none, Option.elim, LinkKey.homed]
        rw [if_pos (by simpa using hne), if_pos hne]
        by_cases hglobal : scope = globalScopeProject.toList
        · rw [if_pos ⟨trivial, hglobal⟩, if_pos ⟨trivial, congrArg some hglobal⟩]
        · rw [if_neg (fun h => hglobal h.2), if_neg (fun h => hglobal (Option.some.inj h.2))]
      | some names =>
        obtain ⟨hworkspace, hproject, hpne⟩ := hparts names.1 names.2 hslash
        simp [spell, hsplit, hslash, LinkKey.homed, hne, hworkspace, hproject, hpne]
    · have hpath := spell_path target
      rw [hsplit, Option.elim] at hpath
      rw [hpath]
      exact trimBy_trimBy _ _

lemma Checked.relationLink {target : String} {page : PagePath} (relation : Relation)
    (h : Checked U target.toList (spell target.toList) page)
    (hscheme : schemed target.toList = false) :
    relationLink U relation target = some ((spell target.toList).homed.link relation) := by
  obtain ⟨path, hkey, hpath⟩ := h.splitScope hscheme
  have hnames := h.names
  have hnew := h.new
  unfold Wiki.relationLink
  simp only [hkey, hpath]
  unfold namesPage at hnames
  unfold withExtension at hnew
  rw [lastSegmentNamesAPage, hnames, Bool.not_true, if_neg Bool.false_ne_true, hnew]
  simp only [LinkKey.link, LinkKey.homed_path, PagePath.str, PagePath.new_ok hnew, withExtension]

lemma flatMap_filterMap_entries (m : PageWriteMetadata) (rels : List Relation)
    {f : Relation → String → LinkTarget}
    (h : ∀ rel ∈ rels, ∀ target ∈ m.targets rel, relationLink U rel target = some (f rel target)) :
    (rels.filterMap (relationEntry m)).flatMap (entryLinks U) =
      rels.flatMap fun rel => (m.targets rel).map (f rel) := by
  induction rels with
  | nil => rfl
  | cons rel rels ih =>
    have hrest := ih fun rel' hrel' => h rel' (mem_cons_of_mem _ hrel')
    have hrel := h rel mem_cons_self
    rw [flatMap_cons, filterMap_cons]
    cases htargets : m.relations rel with
    | none =>
      rw [PageWriteMetadata.targets, htargets, relationEntry, htargets]
      exact hrest
    | some targets =>
      rw [PageWriteMetadata.targets, htargets, Option.getD_some] at hrel
      rw [PageWriteMetadata.targets, htargets, relationEntry, htargets, Option.map_some,
        flatMap_cons, hrest, Option.getD_some]
      congr 1
      simp only [entryLinks, Relation.parse_asStr, Value.asArray?, Option.getD_some, filterMap_map]
      rw [← filterMap_eq_map]
      refine filterMap_congr fun target htarget => ?_
      exact hrel target htarget

/-- Every relation target of an accepted write is read as one edge of its kind, in the
order listed, in the scope it spells — the reserved project alone is the default
workspace's — and to a portable path.  A scope that is the scheme of a URL is left out. -/
theorem relation_links_law (U : CharTables) (m : PageWriteMetadata) (fm : List (String × Value))
    (h : intoFrontmatter U m = .ok fm)
    (hscheme : ∀ rel, ∀ target ∈ m.targets rel, schemed target.toList = false) :
    (extractRelationLinks U (.object fm) = Relation.all.flatMap fun rel =>
        (m.targets rel).map fun target => (spell target.toList).homed.link rel) ∧
      ∀ link ∈ extractRelationLinks U (.object fm),
        ∃ page : PagePath, page.str = link.path ∧ page.ensurePortable = .ok () := by
  obtain ⟨hchecked, hlookup⟩ := intoFrontmatter_relations h
  have hlinks : extractRelationLinks U (.object fm) = Relation.all.flatMap fun rel =>
      (m.targets rel).map fun target => (spell target.toList).homed.link rel := by
    have hentries := flatMap_filterMap_entries (U := U) m Relation.all
      (f := fun rel target => (spell target.toList).homed.link rel) fun rel _ target htarget => by
        obtain ⟨page, hpage⟩ := checkTarget_ok (hchecked rel target htarget)
        exact hpage.relationLink rel (hscheme rel target htarget)
    rw [← hentries, extractRelationLinks, Value.get?, hlookup]
    split
    · rename_i hempty
      rw [hempty]
      rfl
    · rfl
  refine ⟨hlinks, ?_⟩
  intro link hlink
  rw [hlinks] at hlink
  obtain ⟨rel, -, hlink⟩ := mem_flatMap.mp hlink
  obtain ⟨target, htarget, rfl⟩ := mem_map.mp hlink
  obtain ⟨page, hpage⟩ := checkTarget_ok (hchecked rel target htarget)
  refine ⟨page, ?_, hpage.portable⟩
  rw [PagePath.str, PagePath.new_ok hpage.new, LinkKey.link, LinkKey.homed_path]

def asciiTables : CharTables where
  isAlphanumeric := Char.isAlphanum
  lowercase := fun s => String.ofList (s.toList.map Char.toLower)

def fixing (targets : List String) : PageWriteMetadata where
  kind := none
  entities := []
  abstractText := none
  relations
    | .fixes => some targets
    | _ => none
  appliesTo := []
  enforcedBy := none
  sourceFiles := []

theorem relation_links_law_scoped :
    ∃ fm, intoFrontmatter asciiTables (fixing ["notes/x", "team/web:a/b.md"]) = .ok fm ∧
      extractRelationLinks asciiTables (.object fm) =
        [⟨none, none, "notes/x.md", some .fixes⟩, ⟨some "team", some "web", "a/b.md", some .fixes⟩] := by
  refine ⟨_, rfl, ?_⟩
  rw [(relation_links_law asciiTables (fixing ["notes/x", "team/web:a/b.md"]) _ rfl ?_).1]
  · decide +kernel
  · intro rel target htarget
    cases rel with
    | fixes =>
      rcases mem_cons.mp htarget with rfl | htarget
      · decide +kernel
      · rw [mem_singleton.mp htarget]
        decide +kernel
    | _ => cases htarget

/-- `_global:notes/x.md` names no workspace and is read in the default one; a target listed
twice is read twice. -/
theorem rehomes_global_and_repeats :
    (∃ fm, intoFrontmatter asciiTables (fixing ["_global:notes/x.md"]) = .ok fm ∧
      (spell "_global:notes/x.md".toList).workspace = none ∧
      extractRelationLinks asciiTables (.object fm) =
        [⟨some "default", some "_global", "notes/x.md", some .fixes⟩]) ∧
    ∃ fm, intoFrontmatter asciiTables (fixing ["notes/x.md", "notes/x.md"]) = .ok fm ∧
      (extractRelationLinks asciiTables (.object fm)).length = 2 := by
  refine ⟨⟨_, rfl, ?_, ?_⟩, ⟨_, rfl, ?_⟩⟩
  · decide +kernel
  · decide +kernel
  · decide +kernel

end Wiki
