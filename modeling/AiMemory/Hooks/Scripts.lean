/-
The words of scripts inside scripts.

Splitting a command only adds words, and every word of a line is among them however often the
line was quoted again, unless the script lies too deep and the command is opaque.
-/
import AiMemory.Hooks.Shell
import AiMemory.Hooks.Written

open Strings List

namespace Capture

/-! ### Words only grow -/

structure Extends (a b : ShellWords) : Prop where
  words : ∀ word ∈ a.words, word ∈ b.words
  isOpaque : a.isOpaque = true → b.isOpaque = true

namespace Extends

lemma refl (a : ShellWords) : Extends a a := ⟨fun _ h => h, fun h => h⟩

lemma trans {a b c : ShellWords} (h : Extends a b) (h' : Extends b c) : Extends a c :=
  ⟨fun word hword => h'.words word (h.words word hword), fun ho => h'.isOpaque (h.isOpaque ho)⟩

lemma addWord (split : ShellWords) (word : Text) (tilde : Bool) (literal : LiteralGroups) :
    Extends split (split.addWord word tilde literal) :=
  ⟨fun _ h => mem_append_left _ h, fun h => h⟩

lemma markOpaque (split : ShellWords) (found : Bool) : Extends split (split.markOpaque found) :=
  ⟨fun _ h => h, fun h => by simp [ShellWords.markOpaque, h]⟩

lemma pushWordReading (split : ShellWords) (word : Text) (marks : Marks) :
    Extends split (split.pushWordReading word marks) := by
  unfold ShellWords.pushWordReading
  dsimp only
  split
  · exact addWord ..
  · rename_i operands exhausted _
    exact (addWord ..).trans ((addWord ..).trans (markOpaque _ exhausted))

lemma pushWord (split : ShellWords) (word : Text) (marks : Marks) :
    Extends split (split.pushWord word marks) := by
  unfold ShellWords.pushWord
  dsimp only
  split
  · exact (pushWordReading ..).trans (pushWordReading ..)
  · exact pushWordReading ..

lemma noteScript (split : ShellWords) (script : Text) :
    Extends split (split.noteScript script) := by
  unfold ShellWords.noteScript
  split
  · exact ⟨fun _ h => h, fun _ => rfl⟩
  · exact refl _

lemma foldl {α : Type} {f : ShellWords → α → ShellWords} (hf : ∀ split x, Extends split (f split x))
    (l : List α) (split : ShellWords) : Extends split (l.foldl f split) := by
  induction l generalizing split with
  | nil => exact refl _
  | cons x l ih => exact (hf split x).trans (ih (f split x))

lemma splitAgain {literal : Bool} {depth : ℕ}
    (hnested : ∀ words split, Extends split (Capture.pushNestedWords literal depth words split))
    (word : Text) (script : Bool) (split : ShellWords) :
    Extends split (if isAtom word literal then split else
      Capture.pushNestedWords literal depth (literalMarks (splitWords word literal) script)
        (if script then split.noteScript word else split)) := by
  split
  · exact refl _
  · refine .trans ?_ (hnested ..)
    split
    · exact noteScript ..
    · exact refl _

lemma pushNestedWords (literal : Bool) (depth : ℕ) (words : List (Text × Marks))
    (split : ShellWords) : Extends split (Capture.pushNestedWords literal depth words split) := by
  induction depth generalizing words split with
  | zero => exact (markOpaque ..).trans (foldl (fun _ _ => (pushWord ..).trans (markOpaque ..)) _ _)
  | succ depth ih =>
    exact (markOpaque ..).trans (foldl (fun _ _ => (pushWord ..).trans (splitAgain ih ..)) _ _)

end Extends

def Reached (word : Text) (split : ShellWords) : Prop :=
  (∃ tilde, (word, tilde) ∈ split.words) ∨ split.isOpaque = true

lemma Reached.mono {word : Text} {a b : ShellWords} (h : Reached word a) (he : Extends a b) :
    Reached word b := by
  rcases h with ⟨tilde, hmem⟩ | hunproven
  · exact .inl ⟨tilde, he.words _ hmem⟩
  · exact .inr (he.isOpaque hunproven)

lemma reached_foldl {α : Type} {word : Text} {f : ShellWords → α → ShellWords} {l : List α}
    {x : α} (hx : x ∈ l) (hreach : ∀ split, Reached word (f split x))
    (hf : ∀ split y, Extends split (f split y)) (split : ShellWords) :
    Reached word (l.foldl f split) := by
  induction l generalizing split with
  | nil => cases hx
  | cons y l ih =>
    rcases mem_cons.mp hx with rfl | hx
    · exact (hreach split).mono (.foldl hf l _)
    · exact ih hx _

lemma reached_pushWordReading (split : ShellWords) (word : Text) (marks : Marks) :
    Reached word (split.pushWordReading word marks) := by
  have hadd : ∀ literal, Reached word (split.addWord word marks.tilde literal) := fun _ =>
    .inl ⟨marks.tilde, mem_append_right _ (mem_singleton.mpr rfl)⟩
  unfold ShellWords.pushWordReading
  dsimp only
  split
  · exact hadd _
  · rename_i operands exhausted _
    exact (hadd _).mono ((Extends.addWord ..).trans (Extends.markOpaque _ exhausted))

lemma reached_pushWord {t word : Text} (h : Noise t word) (hword : '\\' ∉ word)
    (split : ShellWords) (marks : Marks) : Reached word (split.pushWord t marks) := by
  by_cases hback : '\\' ∈ t
  · have hposix : withoutBackslashEscapes t = word := h.withoutBackslashEscapes hword
    have hne : withoutBackslashEscapes t ≠ t := by
      rw [hposix]
      rintro rfl
      exact hword hback
    unfold ShellWords.pushWord
    dsimp only
    rw [if_pos (by simp [hback, hne]), hposix]
    exact reached_pushWordReading ..
  · obtain rfl := h.eq_of_notMem hback
    have hno : (t.contains '\\' && decide (withoutBackslashEscapes t ≠ t)) = false := by
      simp [hback]
    unfold ShellWords.pushWord
    dsimp only
    rw [hno, if_neg Bool.false_ne_true]
    exact reached_pushWordReading ..

lemma isAtom_inv {t : Text} (h : isAtom t false) :
    (splitWords t false).map Prod.fst = [t] := by
  unfold isAtom at h
  split at h
  · rename_i token heq
    rw [heq, map_singleton, of_decide_eq_true h]
  · cases h

lemma literalMarks_texts (tokens : List (Text × Marks)) (script : Bool) :
    (literalMarks tokens script).map Prod.fst = tokens.map Prod.fst := by
  unfold literalMarks
  split
  · rfl
  · rw [map_map]
    rfl

section
variable {P : List Piece → Prop} {word : Text}
  (hP : ∀ pieces, P pieces → WellWritten pieces ∧ Splittable pieces)
include hP

lemma Nested.atom {n : ℕ} {line t : Text} (h : Nested P word n line) (ht : Noise t line)
    (hatom : isAtom t false) : Noise t word := by
  cases h with
  | line hline hword hread _ =>
    obtain ⟨token, htoken, hnoise⟩ := splitWords_named hline (fun _ hmem => hP _ (hread _ hmem)) ht
    rw [isAtom_inv hatom, mem_singleton] at htoken
    rwa [← htoken, ← hword]
  | again _ _ hwritten =>
    obtain ⟨hwell, hsplit⟩ := hP _ hwritten
    obtain ⟨_, _, _, htexts, -⟩ := splitWords_script hwell hsplit ht
    rw [isAtom_inv hatom] at htexts
    cases htexts

omit hP in
lemma reached_pushNestedWords {tokens : List (Text × Marks)} {t : Text}
    (ht : t ∈ tokens.map Prod.fst) (hnoise : Noise t word) (hback : '\\' ∉ word) (depth : ℕ)
    (split : ShellWords) : Reached word (pushNestedWords false depth tokens split) := by
  obtain ⟨token, htoken, rfl⟩ := mem_map.mp ht
  cases depth with
  | zero =>
    refine reached_foldl htoken (fun split => ?_)
      (fun _ _ => (Extends.pushWord ..).trans (Extends.markOpaque ..)) _
    exact (reached_pushWord hnoise hback split _).mono (.markOpaque ..)
  | succ depth =>
    obtain ⟨index, hindex⟩ := mem_iff_getElem?.mp htoken
    have hentry : (token, index) ∈ tokens.zipIdx := mk_mem_zipIdx_iff_getElem?.mpr hindex
    have hagain := Extends.pushNestedWords false depth
    refine reached_foldl hentry (fun split => ?_)
      (fun _ _ => (Extends.pushWord ..).trans (.splitAgain hagain ..)) _
    exact (reached_pushWord hnoise hback split token.2).mono (.splitAgain hagain ..)

lemma pushNestedWords_nested {n : ℕ} {line t : Text} (h : Nested P word n line)
    (ht : Noise t line) (hback : '\\' ∉ word) {tokens : List (Text × Marks)}
    (htokens : tokens.map Prod.fst = (splitWords t false).map Prod.fst) (depth : ℕ)
    (split : ShellWords) : Reached word (pushNestedWords false depth tokens split) := by
  induction h generalizing t tokens depth split with
  | line hline hword hread _ =>
    obtain ⟨token, htoken, hnoise⟩ := splitWords_named hline (fun _ hmem => hP _ (hread _ hmem)) ht
    rw [hword] at hnoise
    exact reached_pushNestedWords (htokens ▸ htoken) hnoise hback depth split
  | again hline hpieces hwritten ih =>
    obtain ⟨hwell, hsplit⟩ := hP _ hwritten
    obtain ⟨bash, flag, script, htexts, hscript⟩ := splitWords_script hwell hsplit ht
    rw [hpieces] at hscript
    rw [htexts] at htokens
    have hmem : script ∈ tokens.map Prod.fst := by simp [htokens]
    by_cases hatom : isAtom script false
    · exact reached_pushNestedWords hmem (hline.atom hP hscript hatom) hback depth split
    obtain ⟨token, htoken, rfl⟩ := mem_map.mp hmem
    have hagain := Extends.pushNestedWords false
    cases depth with
    | zero =>
      -- the script lies too deep
      refine reached_foldl htoken (fun split => .inr ?_)
        (fun _ _ => (Extends.pushWord ..).trans (.markOpaque ..)) _
      simp [ShellWords.markOpaque, hatom]
    | succ depth =>
      obtain ⟨index, hindex⟩ := mem_iff_getElem?.mp htoken
      have hentry : (token, index) ∈ tokens.zipIdx := mk_mem_zipIdx_iff_getElem?.mpr hindex
      refine reached_foldl hentry (fun split => ?_)
        (fun _ _ => (Extends.pushWord ..).trans (.splitAgain (hagain depth) ..)) _
      dsimp only
      rw [if_neg hatom]
      exact ih hscript (literalMarks_texts ..) depth _

/-- The words of a command within a command. -/
theorem split_nested {n : ℕ} {line : Text} (h : Nested P word n line)
    (hback : '\\' ∉ word) (windows : Bool) :
    Reached word ((ShellCommand.line line).split windows) := by
  have hfirst : (line, false) ∈ commandReadings windows line := by
    refine mem_flatMap.mpr ⟨line, mem_cons_self, ?_⟩
    split
    · exact mem_cons_self
    · exact mem_singleton.mpr rfl
  have hsplit : Reached word (splitLine windows line) := by
    refine reached_foldl hfirst (fun split => ?_) (fun _ _ => Extends.pushNestedWords ..) _
    exact pushNestedWords_nested hP h (.refl line) hback rfl maxShellNesting split
  rcases hsplit with ⟨tilde, hmem⟩ | hunproven
  · left
    unfold ShellCommand.split
    dsimp only
    cases windows with
    | false => exact ⟨tilde, hmem⟩
    | true => exact ⟨true, mem_map.mpr ⟨(word, tilde), hmem, rfl⟩⟩
  · right
    unfold ShellCommand.split
    dsimp only
    rw [hunproven, Bool.true_or]

end

end Capture
