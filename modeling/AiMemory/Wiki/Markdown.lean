/-
Pages with their frontmatter (`ai-memory-wiki`, `markdown.rs`): `parse` and `emit`.

A block of YAML between two fence lines stands on top of the body.  The YAML codec is a
parameter; between the fences its text stands without its last line break.
-/
import AiMemory.Lib.Strings
import AiMemory.Lib.Json
import Mathlib.Data.List.Lemmas

open Strings List

namespace Wiki

structure Markdown where
  frontmatter : Json.Value
  body : Text

namespace Markdown

def fence : Text := ['-', '-', '-']

/-- The header of the `yaml_12` serializer, which a frontmatter block does not carry. -/
def yaml12Header : Text := "%YAML 1.2\n---\n".toList

/-- The YAML between the fences and the body behind them, for one line ending. -/
def closeBlock (newline rest : Text) : Option (Text × Text) :=
  match rest.dropPrefix? (fence ++ newline) with
  -- an empty block puts the closing fence first
  | some body => some ([], body)
  | none =>
    if rest = fence then some ([], [])
    else match splitOnce ('\n' :: fence ++ newline) rest with
      | some parts => some parts
      -- the closing fence may end the file without a line ending
      | none => (rest.dropSuffix? ('\n' :: fence)).map fun yaml => (yaml, [])

def splitBlock (trimmed : Text) : Option (Text × Text) :=
  match trimmed.dropPrefix? (fence ++ ['\r', '\n']) with
  | some rest => closeBlock ['\r', '\n'] rest
  | none => (trimmed.dropPrefix? (fence ++ ['\n'])).bind (closeBlock ['\n'])

section

variable {ε : Type} (fromYaml : Text → Except ε Json.Value) (toYaml : Json.Value → Except ε Text)

def parse (input : Text) : Except ε Markdown :=
  match splitBlock (stripBom input) with
  | some (yaml, body) =>
    (fromYaml (trimEndBy (· = '\r') yaml)).map fun frontmatter => ⟨frontmatter, body⟩
  | none => .ok ⟨.null, stripBom input⟩

def hasFrontmatter : Json.Value → Bool
  | .null => false
  | .object fields => fields ≠ []
  | _ => true

def yamlLines (yaml : Text) : Text :=
  let yaml := (yaml.dropPrefix? yaml12Header).getD yaml
  if yaml.getLast? = some '\n' then yaml else yaml ++ ['\n']

def emit (md : Markdown) : Except ε Text :=
  if hasFrontmatter md.frontmatter then
    (toYaml md.frontmatter).map fun yaml =>
      fence ++ ['\n'] ++ yamlLines yaml ++ fence ++ ['\n'] ++ md.body
  else .ok md.body

end

/-- A closing fence on a line of its own, at the end or before a body. -/
def Closes (newline rest : Text) : Prop :=
  ∃ front : Text, (∀ c ∈ front.getLast?, c = '\n') ∧
    (rest = front ++ fence ∨ ∃ body, rest = front ++ fence ++ newline ++ body)

/-- A text that opens with a frontmatter block: two fence lines with one kind of line ending. -/
def OpensBlock (s : Text) : Prop :=
  ∃ newline ∈ [['\n'], ['\r', '\n']], ∃ rest, s = fence ++ newline ++ rest ∧ Closes newline rest

variable {s rest newline yaml body : Text}

lemma dropPrefix?_eq_some {p s rest : Text} : s.dropPrefix? p = some rest ↔ s = p ++ rest := by
  rw [dropPrefix?_eq_some_iff]
  simp

lemma dropSuffix?_eq_some {p s front : Text} :
    s.dropSuffix? p = some front ↔ s = front ++ p := by
  rw [dropSuffix?_eq_some_iff]
  simp

lemma closeBlock_some (h : closeBlock newline rest = some (yaml, body)) :
    Closes newline rest ∧ body.length ≤ rest.length := by
  rw [closeBlock] at h
  split at h
  · rename_i body' hfirst
    rw [dropPrefix?_eq_some] at hfirst
    obtain ⟨rfl, rfl⟩ := Prod.mk.inj (Option.some.inj h)
    refine ⟨⟨[], by simp, .inr ⟨body', by rw [hfirst]; simp⟩⟩, ?_⟩
    rw [hfirst, length_append]
    omega
  split at h
  · rename_i hfence
    cases h
    exact ⟨⟨[], by simp, .inl hfence⟩, Nat.zero_le _⟩
  split at h
  · rename_i parts hsplit
    cases h
    have hrest := splitOnce_some hsplit
    refine ⟨⟨yaml ++ ['\n'], by simp, .inr ⟨body, by rw [hrest]; simp⟩⟩, ?_⟩
    rw [hrest, length_append]
    omega
  · obtain ⟨front, hlast, heq⟩ := Option.map_eq_some_iff.mp h
    obtain ⟨rfl, rfl⟩ := Prod.mk.inj heq
    rw [dropSuffix?_eq_some] at hlast
    exact ⟨⟨front ++ ['\n'], by simp, .inl (by rw [hlast]; simp)⟩, Nat.zero_le _⟩

lemma closeBlock_isSome (newline rest : Text) :
    (closeBlock newline rest).isSome ↔ Closes newline rest := by
  constructor
  · intro h
    obtain ⟨⟨yaml, body⟩, hsome⟩ := Option.isSome_iff_exists.mp h
    exact (closeBlock_some hsome).1
  rintro ⟨front, hfront, hrest⟩
  rw [closeBlock]
  split
  · rfl
  rename_i hfirst
  split
  · rfl
  rename_i hfence
  -- the fence that closes is not the first line, so a line break is before it
  have hne : front ≠ [] := by
    rintro rfl
    rcases hrest with hrest | ⟨body, hrest⟩
    · exact hfence hrest
    · rw [dropPrefix?_eq_some.mpr (by simpa using hrest)] at hfirst
      cases hfirst
  obtain ⟨before, rfl⟩ : ∃ before, front = before ++ ['\n'] := by
    refine ⟨front.dropLast, ?_⟩
    have hlast := hfront _ (getLast?_eq_some_getLast hne)
    rw [← hlast, dropLast_append_getLast]
  split
  · rfl
  rename_i hfind
  rcases hrest with hrest | ⟨body, hrest⟩
  · rw [dropSuffix?_eq_some.mpr (by simpa using hrest)]
    rfl
  · obtain ⟨first, behind, hsplit, -⟩ := splitOnce_first ('\n' :: fence ++ newline) before body
    have hword : rest = before ++ ('\n' :: fence ++ newline ++ body) := by simpa using hrest
    rw [← hword, hfind] at hsplit
    cases hsplit

lemma splitBlock_some (h : splitBlock s = some (yaml, body)) :
    OpensBlock s ∧ body.length < s.length := by
  rw [splitBlock] at h
  split at h
  · rename_i rest hopen
    rw [dropPrefix?_eq_some] at hopen
    obtain ⟨hcloses, hlength⟩ := closeBlock_some h
    refine ⟨⟨['\r', '\n'], by simp, rest, hopen, hcloses⟩, ?_⟩
    rw [hopen, length_append, fence]
    simp only [length_append, length_cons, length_nil]
    omega
  · obtain ⟨rest, hopen, h⟩ := Option.bind_eq_some_iff.mp h
    rw [dropPrefix?_eq_some] at hopen
    obtain ⟨hcloses, hlength⟩ := closeBlock_some h
    refine ⟨⟨['\n'], by simp, rest, hopen, hcloses⟩, ?_⟩
    rw [hopen, length_append, fence]
    simp only [length_append, length_cons, length_nil]
    omega

lemma splitBlock_isSome (s : Text) : (splitBlock s).isSome ↔ OpensBlock s := by
  constructor
  · intro h
    obtain ⟨⟨yaml, body⟩, hsome⟩ := Option.isSome_iff_exists.mp h
    exact (splitBlock_some hsome).1
  rintro ⟨newline, hnewline, rest, rfl, hcloses⟩
  have hclose := (closeBlock_isSome newline rest).mpr hcloses
  rcases mem_pair.mp hnewline with rfl | rfl
  · have hcrlf : (fence ++ ['\n'] ++ rest).dropPrefix? (fence ++ ['\r', '\n']) = none := rfl
    rw [splitBlock, hcrlf, dropPrefix?_eq_some.mpr rfl]
    exact hclose
  · rw [splitBlock, dropPrefix?_eq_some.mpr rfl]
    exact hclose

/-! ### Round trips -/

theorem fence_mem_of_eq {front behind : Text}
    (h : front ++ '\n' :: behind = fence ++ '\n' :: body) : fence ∈ front.splitOn '\n' := by
  have hsplit := congrArg (List.splitOn '\n') h
  have hfence : fence.splitOn '\n' = [fence] := splitOn_eq_singleton (by decide)
  rw [splitOn_append_cons_self, splitOn_append_cons_self, hfence] at hsplit
  obtain ⟨first, rest, hfront⟩ := exists_splitOn '\n' front
  rw [hfront] at hsplit ⊢
  rw [(List.cons.inj hsplit).1]
  exact mem_cons_self

lemma splitBlock_fenced (h : fence ∉ yaml.splitOn '\n') (body : Text) :
    splitBlock (fence ++ ['\n'] ++ (yaml ++ ['\n']) ++ fence ++ ['\n'] ++ body) =
      some (yaml, body) := by
  have hword : fence ++ ['\n'] ++ (yaml ++ ['\n']) ++ fence ++ ['\n'] ++ body =
      fence ++ ['\n'] ++ (yaml ++ ('\n' :: fence ++ ['\n'] ++ body)) := by simp
  have hcrlf : (fence ++ ['\n'] ++ (yaml ++ ('\n' :: fence ++ ['\n'] ++ body))).dropPrefix?
      (fence ++ ['\r', '\n']) = none := rfl
  rw [hword, splitBlock, hcrlf, dropPrefix?_eq_some.mpr rfl]
  show closeBlock ['\n'] (yaml ++ ('\n' :: fence ++ ['\n'] ++ body)) = some (yaml, body)
  rw [closeBlock]
  split
  · -- the first line would be a fence
    rename_i body' hfirst
    rw [dropPrefix?_eq_some] at hfirst
    exact absurd (fence_mem_of_eq (by simpa using hfirst)) h
  split
  · rename_i hfence
    have hmem : '\n' ∈ fence := by rw [← hfence]; simp
    exact absurd hmem (by decide)
  obtain ⟨first, behind, hsplit, t, rfl⟩ := splitOnce_first ('\n' :: fence ++ ['\n']) yaml body
  rw [hsplit]
  have hcut := splitOnce_some hsplit
  have hrest : t ++ ('\n' :: fence ++ ['\n'] ++ body) = '\n' :: fence ++ ['\n'] ++ behind := by
    rw [append_assoc, append_assoc first] at hcut
    exact append_cancel_left hcut
  cases t with
  | nil =>
    rw [nil_append] at hrest
    rw [append_nil, append_cancel_left hrest]
  | cons c t =>
    -- an earlier fence is a line of the block
    obtain ⟨rfl, ht⟩ := List.cons.inj hrest
    have hmem : fence ∈ t.splitOn '\n' := fence_mem_of_eq (by simpa using ht)
    rw [splitOn_append_cons_self] at h
    exact absurd (mem_append_right _ hmem) h

/-- The text of a block that is read: what `emit` writes, without its last line break. -/
def blockText (yaml : Text) : Text :=
  trimEndBy (· = '\r') (yamlLines yaml).dropLast

lemma yamlLines_eq (yaml : Text) : yamlLines yaml = (yamlLines yaml).dropLast ++ ['\n'] := by
  have hlast : (yamlLines yaml).getLast? = some '\n' := by
    rw [yamlLines]
    split
    · assumption
    · simp
  exact (dropLast_append_getLast? _ hlast).symm

/-- No line of the YAML is a fence. -/
def FenceFree (yaml : Text) : Prop := fence ∉ (yamlLines yaml).splitOn '\n'

lemma FenceFree.dropLast (h : FenceFree yaml) :
    fence ∉ (yamlLines yaml).dropLast.splitOn '\n' := by
  rw [FenceFree, yamlLines_eq, splitOn_append_cons_self] at h
  exact fun hmem => h (mem_append_left _ hmem)

section

variable {ε : Type} {fromYaml : Text → Except ε Json.Value} {toYaml : Json.Value → Except ε Text}

lemma emit_block {md : Markdown} (hsome : hasFrontmatter md.frontmatter)
    (hyaml : toYaml md.frontmatter = .ok yaml) (hfree : FenceFree yaml) :
    ∃ text, emit toYaml md = .ok text ∧ parse fromYaml text =
      (fromYaml (blockText yaml)).map fun frontmatter => ⟨frontmatter, md.body⟩ := by
  refine ⟨fence ++ ['\n'] ++ yamlLines yaml ++ fence ++ ['\n'] ++ md.body, ?_, ?_⟩
  · rw [emit, if_pos hsome, hyaml]
    rfl
  · rw [yamlLines_eq, parse]
    have hbom : stripBom (fence ++ ['\n'] ++ ((yamlLines yaml).dropLast ++ ['\n']) ++ fence ++
        ['\n'] ++ md.body) = fence ++ ['\n'] ++ ((yamlLines yaml).dropLast ++ ['\n']) ++ fence ++
        ['\n'] ++ md.body := rfl
    rw [hbom, splitBlock_fenced hfree.dropLast]
    rfl

lemma parse_body (body : Text) : parse fromYaml body = .ok ⟨.null, body⟩ ↔
    body.head? ≠ some bom ∧ ¬ OpensBlock body := by
  have hshort : (stripBom body).length ≤ body.length ∧
      (body.head? = some bom → (stripBom body).length < body.length) := by
    cases body with
    | nil => exact ⟨le_refl _, nofun⟩
    | cons c body =>
      rw [stripBom]
      by_cases hc : c = bom
      · rw [if_pos hc]
        exact ⟨Nat.le_succ _, fun _ => Nat.lt_succ_self _⟩
      · rw [if_neg hc]
        exact ⟨le_refl _, fun hhead => absurd (Option.some.inj hhead) hc⟩
  have hsame : body.head? ≠ some bom → stripBom body = body := by
    intro hhead
    cases body with
    | nil => rfl
    | cons c body => rw [stripBom, if_neg fun hc => hhead (congrArg some hc)]
  rw [parse]
  cases hsplit : splitBlock (stripBom body) with
  | none =>
    constructor
    · intro heq
      have hbody : stripBom body = body := congrArg Markdown.body (Except.ok.inj heq)
      refine ⟨fun hhead => ?_, fun hopens => ?_⟩
      · have hlt := hshort.2 hhead
        rw [hbody] at hlt
        exact absurd hlt (lt_irrefl _)
      · rw [hbody] at hsplit
        have hsome := (splitBlock_isSome body).mpr hopens
        rw [hsplit] at hsome
        cases hsome
    · rintro ⟨hhead, -⟩
      rw [hsame hhead]
  | some parts =>
    obtain ⟨yaml, rest⟩ := parts
    obtain ⟨hopens, hlt⟩ := splitBlock_some hsplit
    refine iff_of_false (fun heq => ?_) fun hnone => ?_
    · -- the body behind a block is shorter
      dsimp only at heq
      cases hread : fromYaml (trimEndBy (· = '\r') yaml) with
      | error e => rw [hread] at heq; cases heq
      | ok frontmatter =>
        rw [hread] at heq
        have hbody : rest = body := congrArg Markdown.body (Except.ok.inj heq)
        rw [hbody] at hlt
        omega
    · rw [hsame hnone.1] at hopens
      exact hnone.2 hopens

end

/-- A page that is written and read: with frontmatter, the body comes back whatever it is, and
the frontmatter when the codec reads back the text that it wrote, as it stands between the
fences; without frontmatter, the page comes back when its body starts with no byte-order mark
and with no block. -/
theorem parse_emit {ε : Type} (fromYaml : Text → Except ε Json.Value)
    (toYaml : Json.Value → Except ε Text) :
    (∀ fields yaml body, fields ≠ [] → toYaml (.object fields) = .ok yaml → FenceFree yaml →
      (emit toYaml ⟨.object fields, body⟩ >>= parse fromYaml =
          (fromYaml (blockText yaml)).map fun frontmatter => ⟨frontmatter, body⟩) ∧
        (emit toYaml ⟨.object fields, body⟩ >>= parse fromYaml = .ok ⟨.object fields, body⟩ ↔
          fromYaml (blockText yaml) = .ok (.object fields))) ∧
    ∀ body, emit toYaml ⟨.null, body⟩ >>= parse fromYaml = .ok ⟨.null, body⟩ ↔
      body.head? ≠ some bom ∧ ¬ OpensBlock body := by
  constructor
  · intro fields yaml body hne hyaml hfree
    have hsome : hasFrontmatter (.object fields) = true := decide_eq_true hne
    obtain ⟨text, htext, hparse⟩ : ∃ text, emit toYaml ⟨.object fields, body⟩ = .ok text ∧
        parse fromYaml text =
          (fromYaml (blockText yaml)).map fun frontmatter => ⟨frontmatter, body⟩ :=
      emit_block hsome hyaml hfree
    have hround : emit toYaml ⟨.object fields, body⟩ >>= parse fromYaml =
        (fromYaml (blockText yaml)).map fun frontmatter => ⟨frontmatter, body⟩ := by
      rw [htext]
      exact hparse
    refine ⟨hround, ?_⟩
    rw [hround]
    cases fromYaml (blockText yaml) with
    | error e => exact iff_of_false (fun h => nomatch h) fun h => nomatch h
    | ok frontmatter =>
      constructor
      · intro h
        exact congrArg Except.ok (congrArg Markdown.frontmatter (Except.ok.inj h))
      · intro h
        rw [Except.ok.inj h]
        rfl
  · exact fun body => parse_body body

def titleFields : List (String × Json.Value) := [("title", .string "X")]

def writeTitle (_ : Json.Value) : Except String Text :=
  .ok "%YAML 1.2\n---\ntitle: X\n".toList

def readTitle (yaml : Text) : Except String Json.Value :=
  if yaml = "title: X".toList then .ok (.object titleFields) else .error "no title"

/-- A body that starts with a byte-order mark and a block of its own comes back below the
frontmatter of the page. -/
theorem parse_emit_title :
    emit writeTitle ⟨.object titleFields, "\uFEFF---\na: b\n---\n".toList⟩ >>= parse readTitle =
      .ok ⟨.object titleFields, "\uFEFF---\na: b\n---\n".toList⟩ := by
  have hfree : FenceFree "%YAML 1.2\n---\ntitle: X\n".toList := by
    rw [FenceFree]
    decide
  exact ((parse_emit readTitle writeTitle).1 titleFields _ _ (cons_ne_nil _ _) rfl hfree).2.mpr rfl

/-- A byte-order mark at the start of a body without frontmatter is dropped. -/
theorem body_loses_bom : ¬ OpensBlock "\uFEFFText".toList ∧
    ∀ (fromYaml : Text → Except String Json.Value)
      (toYaml : Json.Value → Except String Text),
      emit toYaml ⟨.null, "\uFEFFText".toList⟩ >>= parse fromYaml =
        .ok ⟨.null, "Text".toList⟩ := by
  refine ⟨fun h => ?_, fun fromYaml toYaml => rfl⟩
  exact absurd ((splitBlock_isSome _).mpr h) (by decide)

end Markdown

end Wiki
