/-
The words of a text (`str::split_whitespace`) and its bounded beginning.

* `takeBytes_append_of_le`, `takeBytes_begins` — what fits in so many bytes.
-/
import AiMemory.Lib.Utf8
import AiMemory.Store.Text

open List
open Strings (isWhitespace)
open Utf8 (byteLen byteLen_cons byteLen_nil)

namespace Store

variable {s t word : Text} {words : List Text}

def Solid (word : Text) : Prop := word ≠ [] ∧ ∀ c ∈ word, isWhitespace c = false

lemma splitWhitespace_append {c : Char} (hc : isWhitespace c) (s t : Text) :
    splitWhitespace (s ++ c :: t) = splitWhitespace s ++ splitWhitespace t := by
  rw [splitWhitespace, splitOnP_append_cons s t hc, filter_append]
  rfl

lemma splitWhitespace_word (h : Solid word) : splitWhitespace word = [word] := by
  rw [splitWhitespace, splitOnP_eq_singleton h.2]
  exact filter_cons_of_pos (by simpa using h.1)

lemma splitWhitespace_intercalate (h : ∀ word ∈ words, Solid word) :
    splitWhitespace ([' '].intercalate words) = words := by
  induction words with
  | nil => rfl
  | cons word words ih =>
    obtain ⟨hword, hwords⟩ := forall_mem_cons.mp h
    cases words with
    | nil =>
      rw [intercalate_singleton]
      exact splitWhitespace_word hword
    | cons next words =>
      have hjoin : [' '].intercalate (word :: next :: words) =
          word ++ ' ' :: [' '].intercalate (next :: words) := by
        rw [intercalate_cons_cons, append_assoc]
        rfl
      rw [hjoin, splitWhitespace_append rfl, splitWhitespace_word hword, ih hwords]
      rfl

lemma mem_splitOnP {p : Char → Bool} (h : word ∈ s.splitOnP p) :
    ∀ c ∈ word, p c = false ∧ c ∈ s := by
  induction s generalizing word with
  | nil =>
    intro c hc
    rw [mem_singleton.mp h] at hc
    cases hc
  | cons a s ih =>
    intro c hc
    rw [splitOnP_cons_eq_if_modifyHead] at h
    obtain ⟨first, rest, hsplit⟩ := exists_cons_of_ne_nil (splitOnP_ne_nil p s)
    have hlater : ∀ part ∈ s.splitOnP p, c ∈ part → p c = false ∧ c ∈ a :: s := by
      intro part hpart hc
      obtain ⟨hsolid, hin⟩ := ih hpart c hc
      exact ⟨hsolid, mem_cons_of_mem _ hin⟩
    split at h
    · rcases mem_cons.mp h with rfl | h
      · cases hc
      · exact hlater word h hc
    · rename_i ha
      rw [hsplit, modifyHead_cons] at h
      rcases mem_cons.mp h with rfl | h
      · rcases mem_cons.mp hc with rfl | hc
        · exact ⟨by simpa using ha, mem_cons_self⟩
        · exact hlater first (by rw [hsplit]; exact mem_cons_self) hc
      · exact hlater word (by rw [hsplit]; exact mem_cons_of_mem _ h) hc

lemma splitOnP_or (p q : Char → Bool) (s : Text) :
    s.splitOnP (fun c => p c || q c) = (s.splitOnP p).flatMap (List.splitOnP q) := by
  induction s with
  | nil => rfl
  | cons a s ih =>
    obtain ⟨first, rest, hsplit⟩ := exists_cons_of_ne_nil (splitOnP_ne_nil p s)
    obtain ⟨part, parts, hparts⟩ := exists_cons_of_ne_nil (splitOnP_ne_nil q first)
    rw [splitOnP_cons_eq_if_modifyHead, ih, splitOnP_cons_eq_if_modifyHead a]
    by_cases hp : p a
    · rw [if_pos (by simp [hp]), if_pos hp, flatMap_cons]
      rfl
    · rw [if_neg hp, hsplit, modifyHead_cons, flatMap_cons, flatMap_cons, hparts,
        splitOnP_cons_eq_if_modifyHead, hparts]
      by_cases hq : q a
      · rw [if_pos (by simp [hq]), if_pos hq]
        rfl
      · rw [if_neg (by simp [hp, hq]), if_neg hq]
        rfl

lemma mem_splitWhitespace (h : word ∈ splitWhitespace s) : Solid word ∧ ∀ c ∈ word, c ∈ s := by
  obtain ⟨hmem, hne⟩ := mem_filter.mp h
  have hpart := mem_splitOnP hmem
  exact ⟨⟨by simpa using hne, fun c hc => (hpart c hc).1⟩, fun c hc => (hpart c hc).2⟩

lemma exists_mem_splitOnP {p : Char → Bool} {c : Char} (hc : c ∈ s) (hp : p c = false) :
    ∃ part ∈ s.splitOnP p, c ∈ part := by
  induction s with
  | nil => cases hc
  | cons a s ih =>
    obtain ⟨first, rest, hsplit⟩ := exists_cons_of_ne_nil (splitOnP_ne_nil p s)
    rw [splitOnP_cons_eq_if_modifyHead, hsplit, modifyHead_cons]
    rw [hsplit] at ih
    rcases mem_cons.mp hc with rfl | hc
    · rw [if_neg (by simp [hp])]
      exact ⟨_, mem_cons_self, mem_cons_self⟩
    · obtain ⟨part, hpart, hc⟩ := ih hc
      split
      · exact ⟨part, mem_cons_of_mem _ hpart, hc⟩
      · rcases mem_cons.mp hpart with rfl | hpart
        · exact ⟨_, mem_cons_self, mem_cons_of_mem _ hc⟩
        · exact ⟨part, mem_cons_of_mem _ hpart, hc⟩

lemma splitOnP_context (p : Char → Bool) (s : Text) : ∃ first rest,
    s.splitOnP p = first :: rest ∧ first <+: s ∧ ∀ part ∈ rest,
      ∃ before sep after, s = (before ++ [sep]) ++ (part ++ after) ∧ p sep := by
  induction s with
  | nil => exact ⟨[], [], rfl, nil_prefix, forall_mem_nil _⟩
  | cons a s ih =>
    obtain ⟨first, rest, hsplit, hfirst, hrest⟩ := ih
    have hlater : ∀ part ∈ rest,
        ∃ before sep after, a :: s = (before ++ [sep]) ++ (part ++ after) ∧ p sep := by
      intro part hpart
      obtain ⟨before, sep, after, heq, hsep⟩ := hrest part hpart
      exact ⟨a :: before, sep, after, by rw [heq]; rfl, hsep⟩
    rw [splitOnP_cons_eq_if_modifyHead, hsplit]
    by_cases ha : p a
    · rw [if_pos ha]
      refine ⟨[], first :: rest, rfl, nil_prefix, forall_mem_cons.mpr ⟨?_, hlater⟩⟩
      obtain ⟨after, rfl⟩ := hfirst
      exact ⟨[], a, after, rfl, ha⟩
    · rw [if_neg ha]
      exact ⟨a :: first, rest, rfl, cons_prefix_cons.mpr ⟨rfl, hfirst⟩, hlater⟩

lemma splitWhitespace_context (h : word ∈ splitWhitespace s) :
    ∃ before after, s = before ++ (word ++ after) ∧ ∀ c ∈ before.getLast?, isWhitespace c = true := by
  obtain ⟨first, rest, hsplit, hfirst, hrest⟩ := splitOnP_context isWhitespace s
  have hmem := (mem_filter.mp h).1
  rw [hsplit] at hmem
  rcases mem_cons.mp hmem with rfl | hmem
  · obtain ⟨after, rfl⟩ := hfirst
    exact ⟨[], after, rfl, nofun⟩
  · obtain ⟨before, sep, after, heq, hsep⟩ := hrest word hmem
    refine ⟨before ++ [sep], after, heq, ?_⟩
    rw [getLast?_concat]
    intro c hc
    rwa [← Option.some.inj hc]

lemma exists_mem_splitWhitespace {c : Char} (hc : c ∈ s) (hblank : isWhitespace c = false) :
    ∃ word ∈ splitWhitespace s, c ∈ word := by
  obtain ⟨part, hpart, hmem⟩ := exists_mem_splitOnP hc hblank
  exact ⟨part, mem_filter.mpr ⟨hpart, by simpa using ne_nil_of_mem hmem⟩, hmem⟩

lemma mem_intercalate {a c : Char} {parts : List Text} (h : c ∈ [a].intercalate parts) :
    c = a ∨ ∃ part ∈ parts, c ∈ part := by
  induction parts with
  | nil => cases h
  | cons part parts ih =>
    cases parts with
    | nil =>
      rw [intercalate_singleton] at h
      exact .inr ⟨part, mem_cons_self, h⟩
    | cons other parts =>
      rw [intercalate_cons_cons, append_assoc, mem_append, mem_append] at h
      rcases h with h | h | h
      · exact .inr ⟨part, mem_cons_self, h⟩
      · exact .inl (mem_singleton.mp h)
      · exact (ih h).imp_right fun ⟨part, hpart, hc⟩ => ⟨part, mem_cons_of_mem _ hpart, hc⟩

lemma infix_intercalate {sep part : Text} {parts : List Text} (h : part ∈ parts) :
    part <:+: sep.intercalate parts := by
  induction parts with
  | nil => cases h
  | cons first parts ih =>
    cases parts with
    | nil =>
      simp only [mem_singleton.mp h, intercalate_singleton, infix_rfl]
    | cons other parts =>
      rw [intercalate_cons_cons, append_assoc]
      rcases mem_cons.mp h with rfl | h
      · exact (prefix_append _ _).isInfix
      · exact (ih h).trans ((suffix_append sep _).trans (suffix_append first _)).isInfix

lemma takeBytes_append_of_le {s : Text} {n : ℕ} (h : byteLen s ≤ n) (t : Text) :
    takeBytes n (s ++ t) = s ++ takeBytes (n - byteLen s) t := by
  induction s generalizing n with
  | nil => rfl
  | cons c s ih =>
    rw [byteLen_cons] at h
    rw [cons_append, takeBytes, if_pos (by omega), ih (by omega), byteLen_cons, Nat.sub_sub]
    rfl

lemma takeBytes_of_le {s : Text} {limit : ℕ} (h : byteLen s ≤ limit) :
    takeBytes limit s = s := by
  have hwhole := takeBytes_append_of_le h []
  rwa [append_nil, takeBytes, append_nil] at hwhole

lemma takeBytes_begins (limit : ℕ) (s : Text) : takeBytes limit s <+: s := by
  induction s generalizing limit with
  | nil => exact nil_prefix
  | cons c s ih =>
    rw [takeBytes]
    split
    · exact cons_prefix_cons.mpr ⟨rfl, ih _⟩
    · exact nil_prefix

lemma takeBytes_ne_nil {limit : ℕ} {s : Text} (hne : s ≠ []) (hlimit : 4 ≤ limit) :
    takeBytes limit s ≠ [] := by
  obtain ⟨c, s, rfl⟩ := exists_cons_of_ne_nil hne
  have hsize := c.utf8Size_le_four
  rw [takeBytes, if_pos (by omega)]
  exact cons_ne_nil _ _

end Store
