/-
Page files, written and read back.
-/
import AiMemory.Lib.Fallible
import AiMemory.Lib.Runs
import AiMemory.Wikisync.PageFile

open Strings Fallible Runs List

namespace Wikisync

open Option (some.inj map_eq_some_iff)

variable {fromStr : String → Option Json.Value} {m : PageMeta} {seen : List String}
  {lines : List Text} {r : PageMeta × String}

/-! ### Lines -/

theorem trimEol_line {line : Text} (h : line.getLast? ≠ some '\r') :
    trimEol (line ++ ['\n']) = line := by
  rw [trimEol, reverse_append, reverse_singleton, singleton_append]
  split
  · rename_i rest heq
    rw [getLast?_eq_head?_reverse, (List.cons.inj heq).2] at h
    exact absurd rfl h
  · rename_i rest hno heq
    rw [← (List.cons.inj heq).2, reverse_reverse]
  · rename_i hno
    exact absurd rfl (hno line.reverse)

/-- One of the keys, with a value that starts and ends with a visible character. -/
structure FieldLine (key value : String) : Prop where
  key : key ∈ ["title", "tags", "pinned", "tier"]
  newline : '\n' ∉ value.toList
  first : ∃ c s, value.toList = c :: s ∧ isWhitespace c = false
  last : ∀ c ∈ value.toList.getLast?, isWhitespace c = false

def fieldLine (key value : String) : Text := key.toList ++ ':' :: ' ' :: value.toList

variable {key value : String} {l : List String}

lemma FieldLine.line (h : FieldLine key value) :
    '\n' ∉ fieldLine key value ∧ (fieldLine key value).getLast? = value.toList.getLast? := by
  obtain ⟨c, s, hvalue, -⟩ := h.first
  have hkey : '\n' ∉ key.toList := by
    have := h.key
    simp only [mem_cons, not_mem_nil, or_false] at this
    rcases this with rfl | rfl | rfl | rfl <;> decide
  refine ⟨?_, ?_⟩
  · rw [fieldLine, mem_append, mem_cons, mem_cons]
    rintro (h' | h' | h' | h')
    · exact hkey h'
    · cases h'
    · cases h'
    · exact h.newline h'
  · rw [fieldLine, hvalue, getLast?_append]
    simp [getLast?_cons]

lemma FieldLine.parse (h : FieldLine key value) (hseen : key ∉ seen) :
    parseLines fromStr m seen ((fieldLine key value ++ ['\n']) :: lines) = .ok r ↔
      ∃ m', setField fromStr m key value = .ok m' ∧
        parseLines fromStr m' (key :: seen) lines = .ok r := by
  obtain ⟨c, s, hvalue, hc⟩ := h.first
  have heol : trimEol (fieldLine key value ++ ['\n']) = fieldLine key value := by
    refine trimEol_line fun hr => ?_
    rw [h.line.2] at hr
    exact absurd (h.last _ hr) (by decide)
  have hvtrim : trim (' ' :: value.toList) = value.toList := by
    have hself := trimBy_eq_self (fun d hd => by rw [hvalue] at hd; exact some.inj hd ▸ hc) h.last
    rw [trim, trimBy, dropWhile_cons_of_pos (by decide)]
    exact hself
  have hkey : key.toList ≠ [] ∧ trim key.toList = key.toList ∧ ':' ∉ key.toList ∧
      fieldLine key value ≠ fence.toList ∧ trim (fieldLine key value) ≠ [] := by
    have hmem := h.key
    simp only [mem_cons, not_mem_nil, or_false] at hmem
    have hline : ∀ d rest, key.toList = d :: rest → isWhitespace d = false →
        trim (fieldLine key value) ≠ [] := by
      intro d rest hd hblank
      rw [trim, trimBy_eq_self]
      · rw [fieldLine, hd]; exact cons_ne_nil _ _
      · intro x hx
        rw [fieldLine, hd] at hx
        exact some.inj hx ▸ hblank
      · rw [h.line.2]; exact h.last
    rcases hmem with rfl | rfl | rfl | rfl <;>
      exact ⟨by decide, by decide, by decide, fun heq => absurd (List.cons.inj heq).1 (by decide),
        hline _ _ rfl (by decide)⟩
  obtain ⟨-, hktrim, hcolon, hfence, hblank⟩ := hkey
  rw [parseLines]
  simp only [heol, if_neg hfence, if_neg hblank]
  rw [fieldLine, splitOnce_singleton_eq_some.mpr ⟨rfl, hcolon⟩]
  simp only [hktrim, hvtrim, String.ofList_toList, if_neg hseen]
  cases setField fromStr m key value with
  | error e => simp
  | ok m' => simp

/-! ### Values -/

structure ReadsBack (fromStr : String → Option Json.Value) : Prop where
  string : ∀ s, fromStr (Json.stringLit s) = some (.string s)
  strings : ∀ l ≠ [], fromStr ("[" ++ ", ".intercalate (l.map Json.stringLit) ++ "]") =
    some (.array (l.map .string))

/-- Not blank, and on one line. -/
def OneLine (text : String) : Prop := trim text.toList ≠ [] ∧ '\n' ∉ text.toList ∧ '\r' ∉ text.toList

/-- Metadata that a page file can carry. -/
structure PageMeta.Clean (m : PageMeta) : Prop where
  title : ∀ title, m.title = some title → OneLine title
  tags : ∀ tag ∈ m.tags, trim tag.toList ≠ []
  tier : ∀ tier, m.tier = some tier → OneLine tier ∧ tier ≠ defaultTier

lemma checkOneLine_ok {text parsed : String} :
    checkOneLine key text = .ok parsed ↔ OneLine text ∧ parsed = text := by
  rw [checkOneLine, OneLine]
  split
  · rename_i h
    refine iff_of_false (by simp) fun hboth => ?_
    obtain ⟨hblank, hn, hr⟩ := hboth.1
    rcases h with h | h | h
    · exact hblank h
    · exact hn h
    · exact hr h
  · rename_i h
    rw [not_or, not_or] at h
    rw [Except.ok.injEq, eq_comm]
    exact ⟨fun heq => ⟨h, heq⟩, fun hboth => hboth.2⟩

lemma scalar_ok {parsed : String} (h : scalar fromStr key value = .ok parsed) :
    OneLine parsed := by
  have hcheck : ∀ text, checkOneLine key text = .ok parsed → OneLine parsed := by
    intro text htext
    obtain ⟨hline, rfl⟩ := checkOneLine_ok.mp htext
    exact hline
  rw [scalar] at h
  split at h
  · split at h
    · exact hcheck _ h
    · cases h
  · split at h
    · cases h
    · exact hcheck _ h
  · exact hcheck _ h

lemma scalar_stringLit (hf : ReadsBack fromStr) (key text : String) :
    scalar fromStr key (Json.stringLit text) = checkOneLine key text := by
  have hhead : (Json.stringLit text).toList.head? = some '"' := by
    rw [Json.stringLit, String.toList_ofList]
    rfl
  rw [scalar, hhead, hf.string]
  rfl

lemma tags_ok (h : tags fromStr value = .ok l) : ∀ tag ∈ l, trim tag.toList ≠ [] := by
  rw [tags] at h
  split at h
  · rename_i items _
    intro tag htag
    obtain ⟨item, -, hitem⟩ := of_mem_mapM_eq_ok h htag
    split at hitem
    · split at hitem
      · cases hitem
      · rename_i hblank
        exact Except.ok.inj hitem ▸ hblank
    · cases hitem
  · cases h

lemma mapM_strings {f : Json.Value → Except ParseError String}
    (hf : ∀ tag, f (.string tag) = if trim tag.toList = [] then .error .tagNotString else .ok tag)
    {l' : List String} :
    (l.map .string).mapM f = .ok l' ↔ (∀ tag ∈ l, trim tag.toList ≠ []) ∧ l' = l := by
  induction l generalizing l' with
  | nil =>
    constructor
    · exact fun h => ⟨forall_mem_nil _, (pure_ok.mp h).symm⟩
    · rintro ⟨-, rfl⟩
      rfl
  | cons tag l ih =>
    rw [map_cons, mapM_cons, bind_ok, hf]
    by_cases hblank : trim tag.toList = []
    · rw [if_pos hblank]
      refine iff_of_false ?_ fun h => (forall_mem_cons.mp h.1).1 hblank
      rintro ⟨_, h, -⟩
      cases h
    · rw [if_neg hblank]
      constructor
      · rintro ⟨_, h, hrest⟩
        cases h
        obtain ⟨rest, hrest, h⟩ := bind_ok.mp hrest
        obtain ⟨hall, rfl⟩ := ih.mp hrest
        exact ⟨forall_mem_cons.mpr ⟨hblank, hall⟩, (pure_ok.mp h).symm⟩
      · rintro ⟨hall, rfl⟩
        exact ⟨tag, rfl, bind_ok.mpr ⟨l, ih.mpr ⟨(forall_mem_cons.mp hall).2, rfl⟩, rfl⟩⟩

lemma tags_strings {l' : List String} (hvalue : fromStr value = some (.array (l.map .string))) :
    tags fromStr value = .ok l' ↔ (∀ tag ∈ l, trim tag.toList ≠ []) ∧ l' = l := by
  rw [tags, hvalue]
  exact mapM_strings fun tag => rfl

/-! ### Rendered fields -/


theorem newline_notMem_escape (s : Text) : '\n' ∉ Json.escape s := by
  have hchar : ∀ c, '\n' ∉ Json.escapeChar c := by
    intro c
    by_cases hlow : c.toNat < 32
    · obtain ⟨n, hn⟩ : ∃ n, c.toNat = n := ⟨_, rfl⟩
      obtain rfl := Json.char_eq_of_toNat hn
      rw [hn] at hlow
      interval_cases n <;> decide
    · have hne : '\n' ≠ c := fun heq => hlow (heq ▸ by decide)
      unfold Json.escapeChar
      repeat' split
      all_goals first | decide | simpa using hne
  intro hmem
  obtain ⟨c, -, hc⟩ := mem_flatMap.mp hmem
  exact hchar c hc

lemma fieldLine_stringLit (hkey : key ∈ ["title", "tags", "pinned", "tier"]) (text : String) :
    FieldLine key (Json.stringLit text) := by
  have hchars : (Json.stringLit text).toList = '"' :: (Json.escape text.toList ++ ['"']) := by
    rw [Json.stringLit, String.toList_ofList, Json.litChars]
  refine ⟨hkey, ?_, ⟨_, _, hchars, by decide⟩, ?_⟩
  · rw [hchars]
    simp [newline_notMem_escape]
  · rw [hchars, ← cons_append, getLast?_concat]
    rintro c hc
    exact some.inj hc ▸ by decide

variable (tags : List String)

def listLit : String :=
  "[" ++ ", ".intercalate (tags.map Json.stringLit) ++ "]"

lemma newline_notMem_listChars :
    '\n' ∉ [',', ' '].intercalate (tags.map Json.litChars) := by
  have hlit : ∀ tag, '\n' ∉ Json.litChars tag := by
    intro tag
    simp [Json.litChars, newline_notMem_escape]
  induction tags with
  | nil => exact not_mem_nil
  | cons tag tags ih =>
    cases tags with
    | nil =>
      rw [map_singleton, intercalate_singleton]
      exact hlit tag
    | cons next tags =>
      rw [map_cons] at ih
      rw [map_cons, map_cons, intercalate_cons_cons]
      simp [hlit, ih]

lemma listLit_toList : (listLit tags).toList =
    '[' :: ([',', ' '].intercalate (tags.map Json.litChars) ++ [']']) := by
  have hlit : tags.map (String.toList ∘ Json.stringLit) = tags.map Json.litChars := by
    refine map_congr_left fun tag _ => ?_
    rw [Function.comp_apply, Json.stringLit, String.toList_ofList]
  rw [listLit, String.toList_append, String.toList_append, String.toList_intercalate, map_map, hlit]
  rfl

lemma fieldLine_listLit : FieldLine "tags" (listLit tags) := by
  have hchars := listLit_toList tags
  refine ⟨by decide, ?_, ⟨_, _, hchars, by decide⟩, ?_⟩
  · rw [hchars]
    simp [newline_notMem_listChars]
  · rw [hchars, ← cons_append, getLast?_concat]
    rintro c hc
    exact some.inj hc ▸ by decide

def optionalLine (key : String) (value : Option String) : List Text :=
  (value.map (fieldLine key)).toList

lemma parse_optional {value : Option String} (P : Prop) (m₁ : PageMeta)
    (hline : ∀ v, value = some v → FieldLine key v) (hseen : key ∉ seen)
    (hset : ∀ v, value = some v → ∀ m', setField fromStr m key v = .ok m' ↔ P ∧ m' = m₁)
    (hnone : value = none → P ∧ m₁ = m) :
    parseLines fromStr m seen ((optionalLine key value).map (· ++ ['\n']) ++ lines) = .ok r ↔
      P ∧ parseLines fromStr m₁ (if value.isSome then key :: seen else seen) lines = .ok r := by
  cases value with
  | none =>
    obtain ⟨hP, rfl⟩ := hnone rfl
    exact ⟨fun h => ⟨hP, h⟩, fun h => h.2⟩
  | some v =>
    refine ((hline v rfl).parse hseen).trans ⟨?_, ?_⟩
    · rintro ⟨m', hm', h⟩
      obtain ⟨hP, rfl⟩ := (hset v rfl m').mp hm'
      exact ⟨hP, h⟩
    · exact fun h => ⟨m₁, (hset v rfl m₁).mpr ⟨h.1, rfl⟩, h.2⟩

def fieldLines (m : PageMeta) : List Text :=
  optionalLine "title" (m.title.map Json.stringLit) ++
    optionalLine "tags" (if m.tags = [] then none else some (listLit m.tags)) ++
    optionalLine "pinned" (if m.pinned then some "true" else none) ++
    optionalLine "tier" (m.tier.map Json.stringLit)

lemma render_toList (m : PageMeta) (body : String) : (render m body).toList =
    fence.toList ++ '\n' :: ((fieldLines m).flatMap (· ++ ['\n']) ++
      (fence.toList ++ '\n' :: body.toList)) := by
  obtain ⟨title, tags, pinned, tier⟩ := m
  cases title <;> cases tags <;> cases pinned <;> cases tier <;>
    simp [render, titleLine, tagsLine, tierLine, fieldLines, optionalLine, fieldLine, listLit, fence]

/-! ### Files read back -/

theorem splitInclusive_lines {ls : List Text} (h : ∀ line ∈ ls, '\n' ∉ line)
    (rest : Text) : splitInclusive (ls.flatMap (· ++ ['\n']) ++ rest) =
      ls.map (· ++ ['\n']) ++ splitInclusive rest := by
  induction ls with
  | nil => rfl
  | cons line ls ih =>
    rw [forall_mem_cons] at h
    rw [flatMap_cons, append_assoc, append_assoc, singleton_append, splitInclusive_cons h.1, ih h.2]
    rfl

lemma newline_notMem_optionalLine {value : Option String}
    (h : ∀ v, value = some v → FieldLine key v) : ∀ line ∈ optionalLine key value, '\n' ∉ line := by
  intro line hline
  cases value with
  | none => cases hline
  | some v =>
    obtain rfl := mem_singleton.mp hline
    exact (h v rfl).line.1

section fields

variable (m)

lemma titleField : ∀ v, m.title.map Json.stringLit = some v → FieldLine "title" v := by
  intro v hv
  obtain ⟨title, -, rfl⟩ := map_eq_some_iff.mp hv
  exact fieldLine_stringLit (by decide) title

lemma tagsField :
    ∀ v, (if m.tags = [] then none else some (listLit m.tags)) = some v → FieldLine "tags" v := by
  intro v hv
  split at hv
  · cases hv
  · exact some.inj hv ▸ fieldLine_listLit m.tags

lemma pinnedField :
    ∀ v, (if m.pinned then some "true" else none) = some v → FieldLine "pinned" v := by
  intro v hv
  split at hv
  · cases hv
    refine ⟨by decide, by decide, ⟨_, _, rfl, by decide⟩, fun c hc => ?_⟩
    have hlast : c = 'e' := (some.inj hc).symm
    exact hlast ▸ by decide
  · cases hv

lemma tierField : ∀ v, m.tier.map Json.stringLit = some v → FieldLine "tier" v := by
  intro v hv
  obtain ⟨tier, -, rfl⟩ := map_eq_some_iff.mp hv
  exact fieldLine_stringLit (by decide) tier

end fields

lemma map_scalar_ok (hf : ReadsBack fromStr) {text : String} {f : String → PageMeta} :
    (scalar fromStr key (Json.stringLit text)).map f = .ok m ↔ OneLine text ∧ m = f text := by
  rw [scalar_stringLit hf, map_ok]
  constructor
  · rintro ⟨parsed, h, rfl⟩
    obtain ⟨hline, rfl⟩ := checkOneLine_ok.mp h
    exact ⟨hline, rfl⟩
  · rintro ⟨hline, rfl⟩
    exact ⟨text, checkOneLine_ok.mpr ⟨hline, rfl⟩, rfl⟩

lemma parseLines_fieldLines (hf : ReadsBack fromStr) (htier : m.tier ≠ some defaultTier)
    (closing : List Text) (body : String)
    (hclose : ∀ m seen, parseLines fromStr m seen closing = .ok (m, body)) :
    parseLines fromStr {} [] ((fieldLines m).map (· ++ ['\n']) ++ closing) = .ok r ↔
      m.Clean ∧ r = (m, body) := by
  obtain ⟨title, l, pinned, tier⟩ := m
  have hsome : ∀ {t : String}, (∀ u, some t = some u → OneLine u) ↔ OneLine t :=
    ⟨fun h => h _ rfl, fun h u hu => some.inj hu ▸ h⟩
  have hseen : ∀ {key other : String} {seen : List String} {b : Bool}, key ≠ other →
      key ∉ seen → key ∉ if b then other :: seen else seen := by
    intro key other seen b hne h
    split
    · exact not_mem_cons_of_ne_of_not_mem hne h
    · exact h
  have htitle : ∀ v, title.map Json.stringLit = some v → ∀ m', setField fromStr {} "title" v = .ok m' ↔
      (∀ t, title = some t → OneLine t) ∧ m' = { title := title } := by
    intro v hv m'
    obtain ⟨t, rfl, rfl⟩ := map_eq_some_iff.mp hv
    rw [hsome]
    exact map_scalar_ok hf
  have htags : ∀ v, (if l = [] then none else some (listLit l)) = some v →
      ∀ m', setField fromStr { title := title } "tags" v = .ok m' ↔
        (∀ tag ∈ l, trim tag.toList ≠ []) ∧ m' = { title := title, tags := l } := by
    intro v hv m'
    split at hv
    · cases hv
    · rename_i hne
      cases hv
      refine map_ok.trans ⟨?_, ?_⟩
      · rintro ⟨l', h, rfl⟩
        obtain ⟨hblank, rfl⟩ := (tags_strings (hf.strings l hne)).mp h
        exact ⟨hblank, rfl⟩
      · rintro ⟨hblank, rfl⟩
        exact ⟨l, (tags_strings (hf.strings l hne)).mpr ⟨hblank, rfl⟩, rfl⟩
  have hpinned : ∀ v, (if pinned then some "true" else none) = some v →
      ∀ m', setField fromStr { title := title, tags := l } "pinned" v = .ok m' ↔
        True ∧ m' = { title := title, tags := l, pinned := pinned } := by
    intro v hv m'
    split at hv
    · rename_i hp
      cases hv
      subst hp
      exact ⟨fun h => ⟨trivial, (Except.ok.inj h).symm⟩, fun h => congrArg Except.ok h.2.symm⟩
    · cases hv
  have htierset : ∀ v, tier.map Json.stringLit = some v →
      ∀ m', setField fromStr { title := title, tags := l, pinned := pinned } "tier" v = .ok m' ↔
        (∀ t, tier = some t → OneLine t) ∧ m' = ⟨title, l, pinned, tier⟩ := by
    intro v hv m'
    obtain ⟨t, rfl, rfl⟩ := map_eq_some_iff.mp hv
    have hne : t ≠ defaultTier := fun heq => htier (congrArg some heq)
    refine (map_scalar_ok hf).trans ?_
    rw [if_neg hne, hsome]
  rw [fieldLines, map_append, map_append, map_append, append_assoc, append_assoc, append_assoc,
    parse_optional _ _ (titleField _) not_mem_nil htitle (fun h => by simp_all),
    parse_optional _ _ (tagsField _) (hseen (by decide) not_mem_nil) htags (fun h => by simp_all),
    parse_optional _ _ (pinnedField _) (hseen (by decide) (hseen (by decide) not_mem_nil))
      hpinned (fun h => by simp_all),
    parse_optional _ _ (tierField _)
      (hseen (by decide) (hseen (by decide) (hseen (by decide) not_mem_nil))) htierset
      (fun h => by simp_all),
    hclose]
  constructor
  · rintro ⟨htitle, htags, -, htier', hr⟩
    exact ⟨⟨htitle, htags, fun t ht => ⟨htier' t ht, fun heq => htier (ht.trans (congrArg some heq))⟩⟩,
      (Except.ok.inj hr).symm⟩
  · rintro ⟨hclean, rfl⟩
    exact ⟨hclean.title, hclean.tags, trivial, fun t ht => (hclean.tier t ht).1, rfl⟩

lemma parse_render (hf : ReadsBack fromStr) (htier : m.tier ≠ some defaultTier) (body : String) :
    parse fromStr (render m body).toUTF8 = .ok r ↔ m.Clean ∧ r = (m, body) := by
  have hutf8 : String.fromUTF8? (render m body).toUTF8 = some (render m body) :=
    dif_pos (render m body).isValidUTF8
  have hbom : stripBom (render m body).toList = (render m body).toList := by
    rw [render_toList]
    rfl
  have hlines : ∀ line ∈ fieldLines m, '\n' ∉ line := by
    simp only [fieldLines, forall_mem_append]
    exact ⟨⟨⟨newline_notMem_optionalLine (titleField m), newline_notMem_optionalLine (tagsField m)⟩,
      newline_notMem_optionalLine (pinnedField m)⟩, newline_notMem_optionalLine (tierField m)⟩
  have heol : trimEol (fence.toList ++ ['\n']) = fence.toList := rfl
  rw [parse, hutf8]
  simp only [hbom]
  rw [render_toList, splitInclusive_cons (by decide), splitInclusive_lines hlines,
    splitInclusive_cons (by decide)]
  simp only [heol, if_true]
  refine parseLines_fieldLines hf htier _ body fun m' seen => ?_
  rw [parseLines]
  simp only [heol, if_true]
  rw [flatten_splitInclusive, String.ofList_toList]

lemma setField_clean {m' : PageMeta} (hm : m.Clean) (h : setField fromStr m key value = .ok m') :
    m'.Clean := by
  rw [setField.eq_def] at h
  split at h
  · obtain ⟨title, htitle, rfl⟩ := map_ok.mp h
    exact { hm with title := fun t ht => some.inj ht ▸ scalar_ok htitle }
  · obtain ⟨tier, htier, rfl⟩ := map_ok.mp h
    refine { hm with tier := fun t ht => ?_ }
    split at ht
    · cases ht
    · rename_i hne
      cases ht
      exact ⟨scalar_ok htier, hne⟩
  · split at h
    · cases h
      exact ⟨hm.title, hm.tags, hm.tier⟩
    · cases h
      exact ⟨hm.title, hm.tags, hm.tier⟩
    · cases h
  · obtain ⟨l, hl, rfl⟩ := map_ok.mp h
    exact { hm with tags := tags_ok hl }
  · cases h

lemma parseLines_clean (hm : m.Clean) (h : parseLines fromStr m seen lines = .ok r) :
    r.1.Clean := by
  induction lines generalizing m seen with
  | nil => cases h
  | cons line lines ih =>
    rw [parseLines] at h
    dsimp only at h
    split at h
    · exact Except.ok.inj h ▸ hm
    split at h
    · exact ih hm h
    split at h
    · cases h
    split at h
    · cases h
    split at h
    · cases h
    · rename_i hset
      exact ih (setField_clean hm hset) h

lemma parse_clean {bytes : ByteArray} (h : parse fromStr bytes = .ok r) : r.1.Clean := by
  rw [parse] at h
  split at h
  · cases h
  split at h
  · cases h
  split at h
  · exact parseLines_clean ⟨by simp, by simp, by simp⟩ h
  · cases h

/-- The file of a server page is never read as anything else, and is read when its
title and tier are single lines and no tag is blank; a file that was read says the
same when it is printed and read again. -/
theorem page_file_codec (hf : ReadsBack fromStr) :
    (∀ title tier pinned frontmatter body,
      let m := PageMeta.fromServer title tier pinned frontmatter
      (∀ r, parse fromStr (render m body).toUTF8 = .ok r → r = (m, body)) ∧
      ((title = "" ∨ OneLine title) → (tier = "" ∨ OneLine tier) →
        (∀ tag ∈ serverTags frontmatter, trim tag.toList ≠ []) →
        parse fromStr (render m body).toUTF8 = .ok (m, body))) ∧
    ∀ bytes m body, parse fromStr bytes = .ok (m, body) →
      parse fromStr (render m body).toUTF8 = .ok (m, body) := by
  refine ⟨fun title tier pinned frontmatter body => ?_, fun bytes m body h => ?_⟩
  · have htier : ∀ t, (PageMeta.fromServer title tier pinned frontmatter).tier = some t →
        t = tier ∧ tier ≠ "" ∧ tier ≠ defaultTier := by
      intro t ht
      rw [PageMeta.fromServer, Option.ite_none_left_eq_some, not_or, Option.some_inj] at ht
      exact ⟨ht.2.symm, ht.1⟩
    have hrender {r} := parse_render (r := r) hf (fun heq => (htier _ heq).2.2 (htier _ heq).1.symm) body
    refine ⟨fun r h => (hrender.mp h).2, fun hline htline htags => ?_⟩
    refine hrender.mpr ⟨⟨fun t ht => ?_, htags, fun t ht => ?_⟩, rfl⟩
    · rw [PageMeta.fromServer, Option.ite_none_left_eq_some, Option.some_inj] at ht
      exact ht.2 ▸ hline.resolve_left ht.1
    · obtain ⟨rfl, hne, hdefault⟩ := htier t ht
      exact ⟨htline.resolve_left hne, hdefault⟩
  · have hclean := parse_clean h
    refine (parse_render hf (fun heq => (hclean.tier _ heq).2 rfl) body).mpr ⟨hclean, rfl⟩

/-- The characters of a string literal after its opening quote, and what follows. -/
def readChars : ℕ → Text → Option (Text × Text)
  | 0, _ => none
  | fuel + 1, text =>
    if text.head? = some '"' then some ([], text.tail)
    else (Json.readChar text).bind fun c =>
      (readChars fuel c.2).map fun s => (c.1 :: s.1, s.2)

lemma readChars_escape (s rest : Text) {fuel : ℕ}
    (h : (Json.escape s ++ '"' :: rest).length ≤ fuel) :
    readChars fuel (Json.escape s ++ '"' :: rest) = some (s, rest) := by
  induction s generalizing fuel with
  | nil =>
    cases fuel with
    | zero => cases h
    | succ fuel => rfl
  | cons c s ih =>
    obtain ⟨d, ds, hchar, hquote⟩ := Json.head_escapeChar_ne_quote c (Json.escape s ++ '"' :: rest)
    have hread := Json.readChar_escapeChar c (Json.escape s ++ '"' :: rest)
    have hlen : 0 < (Json.escapeChar c).length := by
      rcases hnil : Json.escapeChar c with _ | ⟨e, es⟩
      · obtain ⟨e, es, he, hne⟩ := Json.head_escapeChar_ne_quote c ['"']
        rw [hnil] at he
        exact absurd (List.cons.inj he).1.symm hne
      · exact Nat.succ_pos _
    rw [Json.escape, flatMap_cons, append_assoc, ← Json.escape] at h ⊢
    rw [length_append] at h
    cases fuel with
    | zero => omega
    | succ fuel =>
      have hhead : (Json.escapeChar c ++ (Json.escape s ++ '"' :: rest)).head? ≠ some '"' := by
        rw [hchar]
        exact fun heq => hquote (some.inj heq)
      rw [readChars, if_neg hhead, hread, Option.bind_some, ih (by omega)]
      rfl

/-- The strings of an array after its bracket, separated as the files print them. -/
def readItems : ℕ → Text → Option (List Json.Value)
  | fuel + 1, '"' :: text =>
    match readChars text.length text with
    | some (s, [']']) => some [.string (String.ofList s)]
    | some (s, ',' :: ' ' :: rest) => (readItems fuel rest).map (.string (String.ofList s) :: ·)
    | _ => none
  | _, _ => none

lemma readItems_intercalate (hl : l ≠ []) {fuel : ℕ}
    (h : ([',', ' '].intercalate (l.map Json.litChars) ++ [']']).length ≤ fuel) :
    readItems fuel ([',', ' '].intercalate (l.map Json.litChars) ++ [']']) =
      some (l.map .string) := by
  have hchars : ∀ (s : String) (rest : Text), Json.litChars s ++ rest =
      '"' :: (Json.escape s.toList ++ '"' :: rest) := by
    intro s rest
    simp [Json.litChars]
  induction l generalizing fuel with
  | nil => exact absurd rfl hl
  | cons s l ih =>
    cases fuel with
    | zero => exact absurd h (by simp)
    | succ fuel =>
      cases l with
      | nil =>
        rw [map_singleton, intercalate_singleton, hchars, readItems, readChars_escape _ _ le_rfl]
        simp
      | cons t l =>
        rw [map_cons, map_cons, intercalate_cons_cons, ← map_cons,
          append_assoc, append_assoc, hchars] at h ⊢
        rw [readItems, cons_append, cons_append, readChars_escape _ _ le_rfl]
        have hrest := @ih (cons_ne_nil t l) fuel (by simp at h ⊢; omega)
        simp only [nil_append, hrest]
        simp

def readText (s : String) : Option Json.Value :=
  match s.toList with
  | '"' :: text =>
    match readChars text.length text with
    | some (s, []) => some (.string (String.ofList s))
    | _ => none
  | '[' :: text => (readItems text.length text).map .array
  | _ => none

lemma readsBack_readText : ReadsBack readText where
  string s := by
    rw [readText, Json.stringLit, String.toList_ofList, Json.litChars]
    simp only [readChars_escape _ _ le_rfl, String.ofList_toList]
  strings l hl := by
    rw [readText, ← listLit, listLit_toList]
    simp only [readItems_intercalate hl le_rfl]
    rfl

theorem page_file_codec_readText :
    parse readText (render { title := some "A", tags := ["b", "c"], tier := some "core" } "---\n").toUTF8
      = .ok ({ title := some "A", tags := ["b", "c"], tier := some "core" }, "---\n") :=
  ((page_file_codec readsBack_readText).1 "A" "core" false
    (.object [("tags", .array [.string "b", .number "1", .string "c"])]) "---\n").2
    (.inr ⟨by decide, by decide, by decide⟩) (.inr ⟨by decide, by decide, by decide⟩)
    (by decide)

end Wikisync
