/-
Page paths that a model wrote (`ai-memory-consolidate`, `path_sanitize.rs`).

A batch of pages is refused as a whole when one of its paths is no portable path. So a path is
cleaned before it becomes a page path: characters, endings and device names that a file system
refuses are replaced, component by component, and the extension is added.
-/
import AiMemory.Core.PagePath
import Mathlib.Data.List.TakeWhile
import Mathlib.Data.Bool.AllAny

open Strings Utf8 List

namespace Consolidate

open Wiki

/-! ### The code -/

def pathIllegalChars : Text := ['<', '>', ':', '"', '|', '?', '*', '\\']

variable (c : Char)

def cleanChar : Char :=
  if c ∈ pathIllegalChars ∨ c.toNat < 0x20 then '-' else c

def isDotOrSpace : Bool := c = '.' || c = ' '

def stem (segment : Text) : Text := (segment.splitOn '.').headD []

def makeComponentPortable (segment : Text) : Text :=
  let trimmed := trimEndBy isDotOrSpace segment
  let segment := if trimmed = [] then segment else trimmed
  if PagePath.isDosDeviceName (stem segment) then
    stem segment ++ '-' :: segment.drop (stem segment).length
  else segment

def hasMdExtension (name : Text) : Bool := ".md".toList.isSuffixOf (name.map Char.toLower)

/-- The last component gets the extension it lacks; an empty one names no file. -/
def appendExtension (segments : List Text) : List Text :=
  match segments.getLast? with
  | some last =>
    if last ≠ [] ∧ hasMdExtension last = false then segments.dropLast ++ [last ++ ".md".toList]
    else segments
  | none => segments

variable (raw : Text)

def slugSegments : List Text :=
  appendExtension ((raw.splitOn '/').map fun segment => makeComponentPortable (segment.map cleanChar))

def slugifyPagePath : Text := ['/'].intercalate (slugSegments raw)

example : slugifyPagePath "decisions/why? /x".toList = "decisions/why-/x.md".toList := by
  decide +kernel

/-! ### Characters -/

theorem cleanChar_cases : cleanChar c = c ∨ cleanChar c = '-' := by
  rw [cleanChar]
  split
  · exact .inr rfl
  · exact .inl rfl

lemma cleanChar_cleanChar : cleanChar (cleanChar c) = cleanChar c := by
  rcases cleanChar_cases c with h | h
  · rw [h, h]
  · rw [h]
    decide

lemma cleanChar_eq_self {c : Char} :
    cleanChar c = c ↔ c ∉ pathIllegalChars ∧ ¬ c.toNat < 0x20 := by
  rw [cleanChar, ← not_or]
  by_cases h : c ∈ pathIllegalChars ∨ c.toNat < 0x20
  · rw [if_pos h]
    refine ⟨?_, fun hnot => absurd h hnot⟩
    rintro rfl
    revert h
    decide
  · rw [if_neg h]
    exact ⟨fun _ => h, fun _ => rfl⟩

lemma isDotOrSpace_cleanChar : isDotOrSpace (cleanChar c) = isDotOrSpace c := by
  by_cases hkept : cleanChar c = c
  · rw [hkept]
  · rw [(cleanChar_cases c).resolve_left hkept]
    -- dots and spaces are legal
    by_contra hne
    rw [cleanChar_eq_self] at hkept
    have hc : isDotOrSpace c := by
      rw [show isDotOrSpace '-' = false from rfl] at hne
      exact Bool.ne_false_iff.mp fun h => hne h.symm
    rw [isDotOrSpace, Bool.or_eq_true, decide_eq_true_eq, decide_eq_true_eq] at hc
    rcases hc with rfl | rfl
    · exact hkept (by decide)
    · exact hkept (by decide)

/-- Only dots and spaces. -/
def Blank (component : Text) : Prop := ∀ c ∈ component, isDotOrSpace c

instance (component : Text) : Decidable (Blank component) :=
  decidable_of_iff (component.all isDotOrSpace = true) all_eq_true

lemma blank_map_cleanChar (component : Text) :
    Blank (component.map cleanChar) ↔ Blank component := by
  simp only [Blank, mem_map, forall_exists_index, and_imp, forall_apply_eq_imp_iff₂,
    isDotOrSpace_cleanChar]

variable {component name segment : Text} {segments : List Text}

lemma trimEndBy_eq_nil_iff :
    trimEndBy isDotOrSpace component = [] ↔ Blank component := by
  constructor
  · intro h c hc
    obtain ⟨cut, hcut, hall⟩ := trimEndBy_append isDotOrSpace component
    rw [h, nil_append] at hcut
    exact hall c (hcut ▸ hc)
  · intro h
    rw [trimEndBy, dropWhile_eq_nil_iff.mpr fun c hc => h c (mem_reverse.mp hc)]
    rfl

lemma Blank.getLast? (h : Blank component) (hne : component ≠ []) :
    component.getLast? = some '.' ∨ component.getLast? = some ' ' := by
  have hlast := h _ (getLast_mem hne)
  rw [getLast?_eq_some_getLast hne]
  simpa [isDotOrSpace] using hlast

lemma stem_of_notMem {s : Text} (h : '.' ∉ s) : stem s = s := by
  rw [stem, splitOn_eq_singleton h]
  rfl

lemma stem_eq_headD (component : Text) :
    (component.splitOn '.').headD component = stem component := by
  obtain ⟨first, rest, heq⟩ := exists_splitOn '.' component
  rw [stem, heq]
  rfl

lemma stem_append_dot {s : Text} (h : '.' ∉ s) (rest : Text) :
    stem (s ++ '.' :: rest) = s := by
  rw [stem, splitOn_append_cons_self_of_not_mem h]
  rfl

lemma exists_stem (s : Text) : '.' ∉ stem s ∧
    (s = stem s ∨ ∃ rest, s = stem s ++ '.' :: rest) := by
  by_cases h : '.' ∈ s
  · obtain ⟨before, after, rfl, hno⟩ := eq_append_cons_of_mem h
    rw [stem_append_dot hno]
    exact ⟨hno, .inr ⟨after, rfl⟩⟩
  · rw [stem_of_notMem h]
    exact ⟨h, .inl rfl⟩

lemma isDosDeviceName_eq_false (h : ∀ device ∈ PagePath.dosDeviceNames,
      device.toList ≠ (trimEndBy (· = ' ') name).map Char.toLower) :
    PagePath.isDosDeviceName name = false := by
  rw [PagePath.isDosDeviceName, any_eq_false]
  intro device hdevice
  rw [decide_eq_true_eq]
  exact h device hdevice

lemma not_device_hyphen (name : Text) :
    PagePath.isDosDeviceName (name ++ ['-']) = false := by
  refine isDosDeviceName_eq_false fun device hdevice heq => ?_
  have htrim : trimEndBy (· = ' ') (name ++ ['-']) = name ++ ['-'] :=
    trimEndBy_eq_self (by simp)
  have hlast : device.toList.getLast? = some '-' := by
    rw [heq, htrim, map_append, getLast?_append]
    rfl
  have hnone : ∀ device ∈ PagePath.dosDeviceNames, device.toList.getLast? ≠ some '-' := by decide
  exact hnone device hdevice hlast

lemma not_device_of_blank (hdot : '.' ∉ name) (h : Blank name) :
    PagePath.isDosDeviceName name = false := by
  refine isDosDeviceName_eq_false fun device hdevice heq => ?_
  have htrim : trimEndBy (· = ' ') name = [] := by
    rw [trimEndBy, dropWhile_eq_nil_iff.mpr]
    · rfl
    · intro c hc
      have hc := mem_reverse.mp hc
      have hblank := h c hc
      rw [isDotOrSpace, Bool.or_eq_true, decide_eq_true_eq] at hblank
      exact hblank.resolve_left fun hdot' => hdot (hdot' ▸ hc)
  have hnone : ∀ device ∈ PagePath.dosDeviceNames, device.toList ≠ [] := by decide
  rw [htrim] at heq
  exact hnone device hdevice heq

/-! ### Clean components -/

/-- A component that is portable as it stands. -/
structure Clean (component : Text) : Prop where
  legal : ∀ c ∈ component, cleanChar c = c
  ending : Blank component ∨ ∀ c ∈ component.getLast?, isDotOrSpace c = false
  named : PagePath.isDosDeviceName (stem component) = false

lemma Clean.map_cleanChar (h : Clean component) :
    component.map cleanChar = component :=
  (map_congr_left h.legal).trans (map_id' component)

lemma trimmed_cases (segment : Text) :
    (Blank segment ∧
      (if trimEndBy isDotOrSpace segment = [] then segment else trimEndBy isDotOrSpace segment) =
        segment) ∨
    (¬ Blank segment ∧ trimEndBy isDotOrSpace segment ≠ [] ∧
      (if trimEndBy isDotOrSpace segment = [] then segment else trimEndBy isDotOrSpace segment) =
        trimEndBy isDotOrSpace segment) := by
  by_cases h : Blank segment
  · exact .inl ⟨h, if_pos (trimEndBy_eq_nil_iff.mpr h)⟩
  · have hne : trimEndBy isDotOrSpace segment ≠ [] := fun hnil => h (trimEndBy_eq_nil_iff.mp hnil)
    exact .inr ⟨h, hne, if_neg hne⟩

lemma makeComponentPortable_eq_self (h : Clean component) :
    makeComponentPortable component = component := by
  have htrim : (if trimEndBy isDotOrSpace component = [] then component
      else trimEndBy isDotOrSpace component) = component := by
    rcases trimmed_cases component with ⟨_, heq⟩ | ⟨hblank, _, heq⟩
    · exact heq
    · rw [heq, trimEndBy_eq_self (h.ending.resolve_left hblank)]
  simp only [makeComponentPortable, htrim, h.named, Bool.false_eq_true, if_false]

lemma clean_renamed (hlegal : ∀ c ∈ name, cleanChar c = c)
    (hending : Blank name ∨ ∀ c ∈ name.getLast?, isDotOrSpace c = false) :
    Clean (if PagePath.isDosDeviceName (stem name) then
      stem name ++ '-' :: name.drop (stem name).length else name) := by
  by_cases hdevice : PagePath.isDosDeviceName (stem name)
  · rw [if_pos hdevice]
    obtain ⟨hdot, hname⟩ := exists_stem name
    have hbefore : '.' ∉ stem name ++ ['-'] := by
      rw [mem_append, not_or]
      exact ⟨hdot, by decide⟩
    rcases hname with hname | ⟨rest, hname⟩
    · have hdrop : name.drop (stem name).length = [] := by
        rw [← hname, drop_length]
      rw [hdrop]
      constructor
      case legal =>
        intro c hc
        rcases mem_append.mp hc with hc | hc
        · exact hlegal c (hname ▸ hc)
        · rw [mem_singleton.mp hc]
          decide
      case ending =>
        right
        simp [isDotOrSpace]
      case named =>
        rw [stem_of_notMem hbefore]
        exact not_device_hyphen _
    · have hdrop : name.drop (stem name).length = '.' :: rest := by
        conv_lhs => rw [hname]
        rw [stem_append_dot hdot, drop_left]
      rw [hdrop, ← singleton_append, ← append_assoc]
      constructor
      case legal =>
        intro c hc
        rw [append_assoc, mem_append, singleton_append, mem_cons] at hc
        rcases hc with hc | rfl | hc
        · exact hlegal c (by rw [hname]; exact mem_append_left _ hc)
        · decide
        · exact hlegal c (by rw [hname]; exact mem_append_right _ hc)
      case ending =>
        right
        have hlast : (stem name ++ ['-'] ++ '.' :: rest).getLast? = name.getLast? := by
          conv_rhs => rw [hname]
          rw [getLast?_append_of_ne_nil _ (cons_ne_nil _ _),
            getLast?_append_of_ne_nil _ (cons_ne_nil _ _)]
        rw [hlast]
        rcases hending with hblank | hending
        · -- a blank name is no device's
          have hstem : Blank (stem name) :=
            fun c hc => hblank c (by rw [hname]; exact mem_append_left _ hc)
          rw [not_device_of_blank hdot hstem] at hdevice
          cases hdevice
        · exact hending
      case named =>
        rw [stem_append_dot hbefore]
        exact not_device_hyphen _
  · rw [if_neg hdevice]
    exact ⟨hlegal, hending, Bool.eq_false_iff.mpr hdevice⟩

lemma clean_makeComponentPortable (h : ∀ c ∈ segment, cleanChar c = c) :
    Clean (makeComponentPortable segment) := by
  rw [makeComponentPortable]
  rcases trimmed_cases segment with ⟨hblank, heq⟩ | ⟨_, _, heq⟩
  · simp only [heq]
    exact clean_renamed h (.inl hblank)
  · simp only [heq]
    refine clean_renamed (fun c hc => h c ?_) (.inr getLast?_trimEndBy)
    obtain ⟨cut, hcut, _⟩ := trimEndBy_append isDotOrSpace segment
    rw [hcut]
    exact mem_append_left _ hc

lemma blank_makeComponentPortable :
    Blank (makeComponentPortable segment) ↔ Blank segment := by
  constructor
  · intro h
    rcases trimmed_cases segment with ⟨hblank, _⟩ | ⟨_, hne, heq⟩
    · exact hblank
    · rw [makeComponentPortable] at h
      simp only [heq] at h
      split at h
      · have hhyphen : isDotOrSpace '-' :=
          h '-' (mem_append_right _ mem_cons_self)
        cases hhyphen
      · have hlast := getLast?_trimEndBy _ (getLast?_eq_some_getLast hne)
        rw [h _ (getLast_mem hne)] at hlast
        cases hlast
  · intro h
    rw [makeComponentPortable]
    rcases trimmed_cases segment with ⟨_, heq⟩ | ⟨hblank, _⟩
    · have hdot := (exists_stem segment).1
      have hstem : Blank (stem segment) := by
        intro c hc
        rcases (exists_stem segment).2 with hseg | ⟨rest, hseg⟩
        · exact h c (hseg ▸ hc)
        · exact h c (by rw [hseg]; exact mem_append_left _ hc)
      simp only [heq, not_device_of_blank hdot hstem, Bool.false_eq_true, if_false]
      exact h
    · exact absurd h hblank

lemma hasMdExtension_append (name : Text) : hasMdExtension (name ++ ".md".toList) := by
  rw [hasMdExtension, isSuffixOf_iff_suffix, map_append]
  exact suffix_append _ _

lemma not_blank_of_hasMdExtension (h : hasMdExtension name) :
    ¬ Blank name := by
  intro hblank
  rw [hasMdExtension, isSuffixOf_iff_suffix] at h
  obtain ⟨before, hbefore⟩ := h
  have hmem : 'd' ∈ name.map Char.toLower := by
    rw [← hbefore]
    simp
  obtain ⟨c, hc, hlower⟩ := mem_map.mp hmem
  have hcases := hblank c hc
  rw [isDotOrSpace, Bool.or_eq_true, decide_eq_true_eq, decide_eq_true_eq] at hcases
  rcases hcases with rfl | rfl
  · cases hlower
  · cases hlower

lemma clean_append_md (h : Clean component) :
    Clean (component ++ ".md".toList) := by
  constructor
  case legal =>
    intro c hc
    rcases mem_append.mp hc with hc | hc
    · exact h.legal c hc
    · have hmd : ∀ c ∈ ".md".toList, cleanChar c = c :=
        all_iff_forall_prop.mp (by decide)
      exact hmd c hc
  case ending =>
    right
    simp [isDotOrSpace]
  case named =>
    obtain ⟨hdot, hname⟩ := exists_stem component
    have hstem : stem (component ++ ".md".toList) = stem component := by
      rcases hname with hname | ⟨rest, hname⟩
      · have hno : '.' ∉ component := by
          rw [hname]
          exact hdot
        rw [stem_of_notMem hno]
        exact stem_append_dot hno ['m', 'd']
      · have happend : component ++ ".md".toList = stem component ++ '.' :: (rest ++ ".md".toList) := by
          conv_lhs => rw [hname]
          rw [append_assoc, cons_append]
        rw [happend, stem_append_dot hdot]
    rw [hstem]
    exact h.named

/-! ### The segments of a path -/

theorem appendExtension_dropLast (segments : List Text) :
    (appendExtension segments).dropLast = segments.dropLast := by
  rw [appendExtension]
  split
  · split
    · rw [dropLast_concat]
    · rfl
  · rfl

structure Settled (segments : List Text) : Prop where
  clean : ∀ segment ∈ segments, Clean segment
  extended : ∀ last ∈ segments.getLast?, last = [] ∨ hasMdExtension last = true

lemma appendExtension_eq_self
    (h : ∀ last ∈ segments.getLast?, last = [] ∨ hasMdExtension last) :
    appendExtension segments = segments := by
  rw [appendExtension]
  split
  · rename_i last hlast
    rw [if_neg]
    rintro ⟨hne, hmd⟩
    rcases h last hlast with hnil | hext
    · exact hne hnil
    · rw [hmd] at hext
      cases hext
  · rfl

lemma settled_appendExtension
    (h : ∀ segment ∈ segments, Clean segment) : Settled (appendExtension segments) := by
  rw [appendExtension]
  split
  · rename_i last hlast
    split
    · constructor
      case clean =>
        intro segment hsegment
        rcases mem_append.mp hsegment with hsegment | hsegment
        · exact h segment (dropLast_subset _ hsegment)
        · rw [mem_singleton.mp hsegment]
          exact clean_append_md (h last (mem_of_getLast? hlast))
      case extended =>
        intro last' hlast'
        rw [getLast?_concat, Option.mem_some_iff] at hlast'
        rw [← hlast']
        exact .inr (hasMdExtension_append last)
    · rename_i hkept
      refine ⟨h, fun last' hlast' => ?_⟩
      obtain rfl : last = last' := Option.some.inj (hlast.symm.trans hlast')
      by_cases hnil : last = []
      · exact .inl hnil
      · exact .inr (Bool.ne_false_iff.mp fun hmd => hkept ⟨hnil, hmd⟩)
  · rename_i hnone
    refine ⟨h, fun last hlast => ?_⟩
    rw [hnone] at hlast
    cases hlast

lemma settled_slugSegments : Settled (slugSegments raw) := by
  refine settled_appendExtension fun segment hsegment => ?_
  obtain ⟨part, _, rfl⟩ := mem_map.mp hsegment
  refine clean_makeComponentPortable fun c hc => ?_
  obtain ⟨a, _, rfl⟩ := mem_map.mp hc
  exact cleanChar_cleanChar a

lemma slugifyPagePath_eq_self {raw : Text} (h : Settled (raw.splitOn '/')) :
    slugifyPagePath raw = raw := by
  have hmap : (raw.splitOn '/').map (fun segment => makeComponentPortable (segment.map cleanChar)) =
      raw.splitOn '/' := by
    refine (map_congr_left fun segment hsegment => ?_).trans (map_id' _)
    have hclean := h.clean segment hsegment
    rw [hclean.map_cleanChar, makeComponentPortable_eq_self hclean]
  rw [slugifyPagePath, slugSegments, hmap, appendExtension_eq_self h.extended, intercalate_splitOn]

lemma mem_makeComponentPortable {c : Char}
    (h : c ∈ makeComponentPortable segment) : c ∈ segment ∨ c = '-' := by
  have hcut : ∀ c ∈ trimEndBy isDotOrSpace segment, c ∈ segment := by
    intro c hc
    obtain ⟨cut, hcut, _⟩ := trimEndBy_append isDotOrSpace segment
    rw [hcut]
    exact mem_append_left _ hc
  have hrenamed : ∀ name : Text, (∀ c ∈ name, c ∈ segment) →
      c ∈ (if PagePath.isDosDeviceName (stem name) then
        stem name ++ '-' :: name.drop (stem name).length else name) → c ∈ segment ∨ c = '-' := by
    intro name hname hc
    split at hc
    · rw [mem_append, mem_cons] at hc
      rcases hc with hc | hc | hc
      · left
        rcases (exists_stem name).2 with hstem | ⟨rest, hstem⟩
        · exact hname c (hstem ▸ hc)
        · exact hname c (by rw [hstem]; exact mem_append_left _ hc)
      · exact .inr hc
      · exact .inl (hname c (mem_of_mem_drop hc))
    · exact .inl (hname c hc)
  rw [makeComponentPortable] at h
  rcases trimmed_cases segment with ⟨_, heq⟩ | ⟨_, _, heq⟩
  · simp only [heq] at h
    exact hrenamed segment (fun _ hc => hc) h
  · simp only [heq] at h
    exact hrenamed _ hcut h

lemma splitOn_slugifyPagePath :
    (slugifyPagePath raw).splitOn '/' = slugSegments raw := by
  have hparts : ∀ segment ∈ (raw.splitOn '/').map
      (fun segment => makeComponentPortable (segment.map cleanChar)), '/' ∉ segment := by
    intro segment hsegment hslash
    obtain ⟨part, hpart, rfl⟩ := mem_map.mp hsegment
    rcases mem_makeComponentPortable hslash with hslash | hslash
    · obtain ⟨a, ha, heq⟩ := mem_map.mp hslash
      rcases cleanChar_cases a with hkept | hkept
      · rw [hkept] at heq
        exact notMem_segment hpart (heq ▸ ha)
      · rw [hkept] at heq
        cases heq
    · cases hslash
  have hne : (raw.splitOn '/').map
      (fun segment => makeComponentPortable (segment.map cleanChar)) ≠ [] := by
    rw [Ne, map_eq_nil_iff]
    exact splitOn_ne_nil '/' raw
  rw [slugifyPagePath, slugSegments]
  refine splitOn_intercalate '/' ?_ ?_
  · intro segment hsegment
    rw [appendExtension] at hsegment
    split at hsegment
    · rename_i last hlast
      split at hsegment
      · rcases mem_append.mp hsegment with hsegment | hsegment
        · exact hparts segment (dropLast_subset _ hsegment)
        · rw [mem_singleton.mp hsegment, mem_append, not_or]
          exact ⟨hparts last (mem_of_getLast? hlast), by decide⟩
      · exact hparts segment hsegment
    · exact hparts segment hsegment
  · rw [appendExtension]
    split
    · split
      · simp
      · exact hne
    · exact hne

lemma componentFault_eq_none_iff (h : Clean component)
    (hne : component ≠ []) (hlength : byteLen component ≤ PagePath.maxPortableComponentBytes)
    (hgit : PagePath.isGitReservedComponent component = false) :
    PagePath.componentFault component = none ↔ ¬ Blank component := by
  have hreserved : component.find? (PagePath.windowsReservedChars.contains ·) = none := by
    rw [find?_eq_none]
    intro c hc hmem
    refine (cleanChar_eq_self.mp (h.legal c hc)).1 ?_
    have hsub : ∀ c ∈ PagePath.windowsReservedChars, c ∈ pathIllegalChars :=
      all_iff_forall_prop.mp (by decide)
    exact hsub c (contains_iff_mem.mp hmem)
  have hcontrol : component.find? (·.toNat < 0x20) = none := by
    rw [find?_eq_none]
    intro c hc hlow
    exact (cleanChar_eq_self.mp (h.legal c hc)).2 (of_decide_eq_true hlow)
  have hlast : (component.getLast? = some '.' ∨ component.getLast? = some ' ') ↔
      Blank component := by
    constructor
    · intro hlast
      refine h.ending.resolve_right fun hending => ?_
      rcases hlast with hlast | hlast
      · cases hending _ hlast
      · cases hending _ hlast
    · exact fun hblank => hblank.getLast? hne
  simp only [PagePath.componentFault, if_neg (Nat.not_lt.mpr hlength), hreserved, hcontrol, hlast,
    stem_eq_headD, h.named, hgit, Bool.false_eq_true, if_false]
  by_cases hblank : Blank component
  · simp [hblank]
  · simp [hblank]

lemma ensurePortable_iff {path : PagePath} : path.ensurePortable = .ok () ↔
    ∀ component ∈ path.chars.splitOn '/', PagePath.componentFault component = none := by
  rw [PagePath.ensurePortable]
  split
  · rename_i fault hfault
    obtain ⟨component, hcomponent, hsome⟩ := exists_of_findSome?_eq_some hfault
    constructor
    · intro h
      cases h
    · intro h
      rw [h component hcomponent] at hsome
      cases hsome
  · rename_i hnone
    exact ⟨fun _ => findSome?_eq_none_iff.mp hnone, fun _ => rfl⟩

lemma clean_of_portable (hslash : '\\' ∉ component)
    (h : PagePath.componentFault component = none) : Clean component := by
  simp only [PagePath.componentFault, stem_eq_headD] at h
  split at h
  · cases h
  split at h
  · cases h
  rename_i hreserved
  split at h
  · cases h
  rename_i hcontrol
  split at h
  · cases h
  rename_i hlast
  split at h
  · cases h
  rename_i hdevice
  rw [find?_eq_none] at hreserved hcontrol
  constructor
  case legal =>
    intro c hc
    refine cleanChar_eq_self.mpr ⟨fun hillegal => ?_, fun hlow => ?_⟩
    · have hcases : ∀ c ∈ pathIllegalChars, c ∈ PagePath.windowsReservedChars ∨ c = '\\' :=
        all_iff_forall_prop.mp (by decide)
      rcases hcases c hillegal with hmem | rfl
      · exact hreserved c hc (contains_iff_mem.mpr hmem)
      · exact hslash hc
    · exact hcontrol c hc (decide_eq_true hlow)
  case ending =>
    right
    intro c hc
    rw [not_or] at hlast
    rw [isDotOrSpace, Bool.or_eq_false_iff, decide_eq_false_iff_not, decide_eq_false_iff_not]
    exact ⟨fun hdot => hlast.1 (hdot ▸ hc), fun hspace => hlast.2 (hspace ▸ hc)⟩
  case named => exact Bool.eq_false_iff.mpr hdevice

lemma hasMdExtension_last {raw last : Text} (hlast : last ∈ (raw.splitOn '/').getLast?)
    (h : hasMdExtension raw) : hasMdExtension last := by
  rcases last_segment hlast with rfl | hsuffix
  · exact h
  · rw [hasMdExtension, isSuffixOf_iff_suffix] at h ⊢
    have hslash : '/' :: last.map Char.toLower <:+ raw.map Char.toLower :=
      hsuffix.map Char.toLower
    rcases suffix_or_suffix_of_suffix h hslash with hshort | hlong
    · rcases suffix_cons_iff.mp hshort with heq | hshort
      · cases heq
      · exact hshort
    · have hmem : '/' ∈ ".md".toList := hlong.mem mem_cons_self
      exact absurd hmem (by decide)

lemma settled_of_portable {path : PagePath} (hportable : path.ensurePortable = .ok ())
    (hmd : hasMdExtension path.chars) : Settled (path.chars.splitOn '/') := by
  refine ⟨fun segment hsegment => ?_, fun last hlast => .inr (hasMdExtension_last hlast hmd)⟩
  refine clean_of_portable (fun hslash => ?_) (ensurePortable_iff.mp hportable segment hsegment)
  exact path.noBackslash (mem_of_mem_segment hsegment hslash)

def NamedDirectories : Prop :=
  ∀ directory ∈ (raw.splitOn '/').dropLast, ¬ Blank directory

instance (raw : Text) : Decidable (NamedDirectories raw) :=
  inferInstanceAs (Decidable (∀ directory ∈ (raw.splitOn '/').dropLast, ¬ Blank directory))

lemma named_slugSegments (hlast : ∀ last ∈ (slugSegments raw).getLast?, last ≠ []) :
    (∀ component ∈ slugSegments raw, ¬ Blank component) ↔ NamedDirectories raw := by
  have hdirectories : (slugSegments raw).dropLast = ((raw.splitOn '/').dropLast).map
      fun segment => makeComponentPortable (segment.map cleanChar) := by
    rw [slugSegments, appendExtension_dropLast, map_dropLast]
  have hnamed : NamedDirectories raw ↔ ∀ component ∈ (slugSegments raw).dropLast,
      ¬ Blank component := by
    rw [hdirectories, NamedDirectories]
    simp only [mem_map, forall_exists_index, and_imp, forall_apply_eq_imp_iff₂,
      blank_makeComponentPortable, blank_map_cleanChar]
  rw [hnamed]
  constructor
  · exact fun h component hcomponent => h component (dropLast_subset _ hcomponent)
  · intro h component hcomponent
    rcases eq_nil_or_concat (slugSegments raw) with hnil | ⟨init, last, hconcat⟩
    · rw [hnil] at hcomponent
      cases hcomponent
    · rw [concat_eq_append] at hconcat
      have hmem : last ∈ (slugSegments raw).getLast? := by
        rw [hconcat, getLast?_concat]
        rfl
      rw [hconcat, dropLast_concat] at h
      rw [hconcat] at hcomponent
      rcases mem_append.mp hcomponent with hinit | hsingle
      · exact h component hinit
      · rw [mem_singleton.mp hsingle]
        have hext := ((settled_slugSegments raw).extended last hmem).resolve_left (hlast last hmem)
        exact not_blank_of_hasMdExtension hext

/-- Cleaning twice is cleaning once, and a portable path of a page stays as it is. The cleaned
path, when it is a page path whose components no file system or Git refuses for their length or
name, is portable exactly when no directory of the path is made of dots and spaces. -/
theorem slugifyPagePath_portable (raw : Text) :
    slugifyPagePath (slugifyPagePath raw) = slugifyPagePath raw ∧
    (∀ path, PagePath.new raw = .ok path → path.ensurePortable = .ok () →
      hasMdExtension raw = true → slugifyPagePath raw = raw) ∧
    ∀ path, PagePath.new (slugifyPagePath raw) = .ok path →
      (∀ component ∈ path.chars.splitOn '/',
        byteLen component ≤ PagePath.maxPortableComponentBytes ∧
          PagePath.isGitReservedComponent component = false) →
      (path.ensurePortable = .ok () ↔ NamedDirectories raw) := by
  refine ⟨?_, ?_, ?_⟩
  · refine slugifyPagePath_eq_self ?_
    rw [splitOn_slugifyPagePath]
    exact settled_slugSegments raw
  · intro path hnew hportable hmd
    obtain rfl := PagePath.new_ok hnew
    exact slugifyPagePath_eq_self (settled_of_portable hportable hmd)
  · intro path hnew hfits
    have hchars := PagePath.new_ok hnew
    have hsegments : path.chars.splitOn '/' = slugSegments raw := by
      rw [hchars, splitOn_slugifyPagePath]
    have hplain := path.plain
    rw [hsegments] at hfits hplain
    have hne : ∀ component ∈ slugSegments raw, component ≠ [] := by
      rintro component hcomponent rfl
      have hdot := hplain [] hcomponent
      cases hdot
    rw [ensurePortable_iff, hsegments,
      ← named_slugSegments raw fun last hlast => hne last (mem_of_getLast? hlast)]
    refine forall₂_congr fun component hcomponent => ?_
    exact componentFault_eq_none_iff ((settled_slugSegments raw).clean component hcomponent)
      (hne component hcomponent) (hfits component hcomponent).1 (hfits component hcomponent).2

def roadmapPath : PagePath :=
  ⟨"notes/v2/roadmap.md".toList, by decide, by decide +kernel⟩

/-- A directory with a trailing dot is cut, and the new path is left alone. -/
theorem slugifyPagePath_portable_roadmap :
    slugifyPagePath (slugifyPagePath "notes/v2./roadmap.md".toList) =
        slugifyPagePath "notes/v2./roadmap.md".toList ∧
      roadmapPath.ensurePortable = .ok () ∧ slugifyPagePath roadmapPath.chars = roadmapPath.chars := by
  obtain ⟨htwice, -, hportable⟩ := slugifyPagePath_portable "notes/v2./roadmap.md".toList
  have hok : roadmapPath.ensurePortable = .ok () :=
    (hportable roadmapPath (by decide +kernel) (by decide +kernel)).mpr (by decide +kernel)
  refine ⟨htwice, hok, ?_⟩
  exact (slugifyPagePath_portable roadmapPath.chars).2.1 roadmapPath (by decide +kernel) hok
    (by decide +kernel)

/-- A directory of three dots is a page path's, and not portable. -/
theorem dots_directory_not_portable : ¬ ∀ raw path, PagePath.new (slugifyPagePath raw) = .ok path →
    (∀ component ∈ path.chars.splitOn '/',
      byteLen component ≤ PagePath.maxPortableComponentBytes ∧
        PagePath.isGitReservedComponent component = false) →
    path.ensurePortable = .ok () := by
  intro h
  have hportable := h ".../a.md".toList ⟨".../a.md".toList, by decide, by decide +kernel⟩
    (by decide +kernel) (by decide +kernel)
  exact absurd hportable (by decide +kernel)

end Consolidate
