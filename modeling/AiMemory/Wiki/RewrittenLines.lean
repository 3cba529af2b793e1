/-
The lines of a rewritten body.

What is written for the links of a line is quiet when it makes no run of backticks, opens no
fence and ends no line.  Then the rewriting keeps the line structure of the body.
-/
import AiMemory.Wiki.Rewriting

open Strings List

namespace Wiki

open Store

variable {out : Text → Text} {K : Cutting out} {line : Text}

/-! ### Fences -/

/-- What is written for the links of a line leaves it one line, outside of a fence. -/
structure Quiet (K : Cutting out) (line : Text) : Prop extends Unticked K line where
  newline : ∀ raw new, .link raw new ∈ lineChunks K line → '\n' ∉ new
  last : ∀ raw new, .link raw new ∈ lineChunks K line → new.getLast? ≠ some '\r'
  fence : (CodeFence.step none ((lineChunks K line).flatMap Chunk.new)).2 = false

lemma step_none_eq_false {line : Text} (h : (CodeFence.step none line).2 = false) :
    CodeFence.step none line = (none, false) := by
  revert h
  simp only [CodeFence.step]
  repeat' split
  all_goals simp_all

lemma step_some (fence : CodeFence) (line : Text) :
    (CodeFence.step (some fence) line).2 := by
  simp only [CodeFence.step]
  repeat' split
  all_goals simp_all

variable {fence : Option CodeFence} {parts : List (Text × Text)} {body : Text}

lemma Quiet.step (h : Quiet K line) (hprose : (CodeFence.step fence line).2 = false) :
    CodeFence.step fence (rewriteLine out line) = CodeFence.step fence line := by
  cases fence with
  | some fence => rw [step_some] at hprose; cases hprose
  | none =>
    rw [step_none_eq_false hprose, ← new_lineChunks (K := K), step_none_eq_false h.fence]

/-! ### Lines -/

inductive RawLines : List (Text × Text) → Prop
  | nil : RawLines []
  | last {line : Text} : line ≠ [] → '\n' ∉ line → RawLines [(line, [])]
  | cons {line terminator : Text} {rest : List (Text × Text)} : '\n' ∉ line →
      terminator = ['\r', '\n'] ∨ terminator = ['\n'] ∧ line.getLast? ≠ some '\r' →
      RawLines rest → RawLines ((line, terminator) :: rest)

def rawLine (parts : Text × Text) : Text := parts.1 ++ parts.2

lemma RawLines.splitInclusive (h : RawLines parts) :
    Strings.splitInclusive (parts.flatMap rawLine) = parts.map rawLine := by
  induction h with
  | nil => rfl
  | last hne hline =>
    rw [flatMap_cons, flatMap_nil, append_nil, rawLine, append_nil,
      splitInclusive_last hne hline, map_cons, rawLine, append_nil, map_nil]
  | @cons line terminator rest hline hterm _ ih =>
    rw [flatMap_cons, map_cons, ← ih, rawLine]
    rcases hterm with rfl | ⟨rfl, -⟩
    · have hline' : '\n' ∉ line ++ ['\r'] := by simp [hline]
      have hsplit := splitInclusive_cons hline' (rest.flatMap rawLine)
      simpa using hsplit
    · have hsplit := splitInclusive_cons hline (rest.flatMap rawLine)
      simpa using hsplit

lemma splitLineTerminator_append (raw : Text) :
    (splitLineTerminator raw).1 ++ (splitLineTerminator raw).2 = raw := by
  rw [splitLineTerminator]
  split
  · rename_i hcrlf
    obtain ⟨line, rfl⟩ := isSuffixOf_iff_suffix.mp hcrlf
    simp
  · split
    · rename_i hlf
      obtain ⟨line, rfl⟩ := isSuffixOf_iff_suffix.mp hlf
      simp
    · exact append_nil raw

lemma splitLineTerminator_snd (raw : Text) : (splitLineTerminator raw).2 ⊆ ['\r', '\n'] := by
  rw [splitLineTerminator]
  split
  · exact List.Subset.refl _
  · split <;> simp

lemma RawLines.splitLineTerminator (h : RawLines parts) :
    ∀ part ∈ parts, Wiki.splitLineTerminator (rawLine part) = part := by
  have hnone : ∀ line : Text, '\n' ∉ line → Wiki.splitLineTerminator line = (line, []) := by
    intro line hline
    have hsuffix : ∀ s : Text, '\n' ∈ s → ¬ s.isSuffixOf line := fun s hs hsuff =>
      hline ((isSuffixOf_iff_suffix.mp hsuff).subset hs)
    rw [Wiki.splitLineTerminator, if_neg (hsuffix _ (by simp)), if_neg (hsuffix _ (by simp))]
  induction h with
  | nil => exact fun part hpart => by cases hpart
  | @last line hne hline =>
    intro part hpart
    obtain rfl := mem_singleton.mp hpart
    rw [rawLine, append_nil, hnone _ hline]
  | @cons line terminator rest hline hterm _ ih =>
    refine forall_mem_cons.mpr ⟨?_, ih⟩
    rw [rawLine, Wiki.splitLineTerminator]
    rcases hterm with rfl | ⟨rfl, hlast⟩
    · rw [if_pos (isSuffixOf_iff_suffix.mpr (suffix_append _ _))]
      simp
    · rw [if_neg, if_pos (isSuffixOf_iff_suffix.mpr (suffix_append _ _)), dropLast_concat]
      rw [isSuffixOf_iff_suffix]
      rintro ⟨front, hfront⟩
      have hcr : front ++ ['\r'] = line := by
        rw [← append_left_inj ['\n'], ← hfront, append_assoc]
        rfl
      exact hlast (by rw [← hcr, getLast?_concat])

lemma exists_rawLines (body : Text) : ∃ parts, RawLines parts ∧
    body = parts.flatMap rawLine := by
  induction hlen : body.length using Nat.strong_induction_on generalizing body with
  | _ n ih =>
    have hcut : body.takeWhile (· ≠ '\n') ++ body.dropWhile (· ≠ '\n') = body :=
      takeWhile_append_dropWhile
    have hline : '\n' ∉ body.takeWhile (· ≠ '\n') := fun h => by
      simpa using of_mem_takeWhile h
    generalize body.takeWhile (· ≠ '\n') = line at hcut hline
    cases hdrop : body.dropWhile (· ≠ '\n') with
    | nil =>
      rw [hdrop, append_nil] at hcut
      subst hcut
      cases line with
      | nil => exact ⟨[], .nil, rfl⟩
      | cons c line => exact ⟨[(c :: line, [])], .last (cons_ne_nil c line) hline, by simp [rawLine]⟩
    | cons c rest =>
      have hc : c = '\n' := by
        have hhead := head?_dropWhile c (by rw [hdrop]; rfl : c ∈ (body.dropWhile (· ≠ '\n')).head?)
        simpa using hhead
      subst hc
      rw [hdrop] at hcut
      subst hcut
      obtain ⟨parts, hparts, rfl⟩ := ih rest.length (by simp [← hlen]; omega) rest rfl
      by_cases hlast : line.getLast? = some '\r'
      · obtain ⟨front, rfl⟩ := getLast?_eq_some_iff.mp hlast
        refine ⟨(front, ['\r', '\n']) :: parts, .cons ?_ (.inl rfl) hparts, by simp [rawLine]⟩
        exact fun h => hline (mem_append_left _ h)
      · exact ⟨(line, ['\n']) :: parts, .cons hline (.inr ⟨rfl, hlast⟩) hparts, by simp [rawLine]⟩

lemma RawLines.lines (h : RawLines parts) :
    Wiki.lines (parts.flatMap rawLine) = parts.map Prod.fst := by
  rw [Wiki.lines, h.splitInclusive, map_map]
  exact map_congr_left fun part hpart => congrArg Prod.fst (h.splitLineTerminator part hpart)

def classify : Option CodeFence → List Text → List (Bool × Text)
  | _, [] => []
  | fence, line :: rest =>
    ((CodeFence.step fence line).2, line) :: classify (CodeFence.step fence line).1 rest

def proseOf : List (Bool × Text) → List Text
  | [] => []
  | (true, _) :: rest => proseOf rest
  | (false, line) :: rest => line :: proseOf rest

lemma proseLines_eq (fence : Option CodeFence) (lines : List Text) :
    proseLines fence lines = (proseOf (classify fence lines)).map blankInlineCode := by
  induction lines generalizing fence with
  | nil => rfl
  | cons line rest ih =>
    rw [proseLines, classify]
    cases hcode : (CodeFence.step fence line).2 with
    | true =>
      simp only [hcode, if_true]
      exact ih _
    | false =>
      simp only [hcode, Bool.false_eq_true, if_false]
      exact congrArg (blankInlineCode line :: ·) (ih _)

def rewritten (out : Text → Text) :
    Option CodeFence → List (Text × Text) → List (Text × Text)
  | _, [] => []
  | fence, (line, terminator) :: rest =>
    (if (CodeFence.step fence line).2 then line else rewriteLine out line, terminator) ::
      rewritten out (CodeFence.step fence line).1 rest

lemma RawLines.rewriteLines (h : RawLines parts) (fence : Option CodeFence) :
    Wiki.rewriteLines out fence (parts.map rawLine) =
      (rewritten out fence parts).flatMap rawLine := by
  have hterm := h.splitLineTerminator
  clear h
  induction parts generalizing fence with
  | nil => rfl
  | cons part parts ih =>
    obtain ⟨hhead, hrest⟩ := forall_mem_cons.mp hterm
    rw [map_cons, Wiki.rewriteLines, hhead, rewritten, flatMap_cons, ← ih _ hrest]
    rfl

lemma Quiet.notMem_newline (h : Quiet K line) (hline : '\n' ∉ line) :
    '\n' ∉ rewriteLine out line := by
  rw [← new_lineChunks (K := K)]
  intro hmem
  obtain ⟨chunk, hchunk, hnew⟩ := mem_flatMap.mp hmem
  cases chunk with
  | char c =>
    rw [← old_lineChunks (K := K) line] at hline
    exact hline (mem_flatMap.mpr ⟨_, hchunk, hnew⟩)
  | link raw new => exact h.newline raw new hchunk hnew

lemma Quiet.rewriteLine_ne_nil (h : Quiet K line) (hline : line ≠ []) :
    rewriteLine out line ≠ [] := by
  rw [← new_lineChunks (K := K)]
  rw [← old_lineChunks (K := K) line] at hline
  intro hnil
  refine hline (flatMap_eq_nil_iff.mpr fun chunk hchunk => ?_)
  have hnew := flatMap_eq_nil_iff.mp hnil chunk hchunk
  cases chunk with
  | char c => exact hnew
  | link raw new => exact absurd hnew (h.ne_nil raw new hchunk)

lemma Quiet.getLast?_ne (h : Quiet K line) (hline : line.getLast? ≠ some '\r') :
    (rewriteLine out line).getLast? ≠ some '\r' := by
  have hchunks := old_lineChunks (K := K) line
  rw [← new_lineChunks (K := K)]
  rcases eq_nil_or_concat (lineChunks K line) with hnil | ⟨pre, chunk, hpre⟩
  · rw [hnil]
    exact fun h => by cases h
  · rw [hpre, concat_eq_append, flatMap_append, flatMap_singleton] at hchunks ⊢
    have hmem : chunk ∈ lineChunks K line := by rw [hpre]; simp
    cases chunk with
    | char c =>
      rw [← hchunks] at hline
      simpa [Chunk.old, Chunk.new] using hline
    | link raw new =>
      rw [Chunk.new, getLast?_append_of_ne_nil _ (h.ne_nil raw new hmem)]
      exact h.last raw new hmem

lemma RawLines.rewritten (h : RawLines parts)
    (hquiet : ∀ line, (false, line) ∈ classify fence (parts.map Prod.fst) → Quiet K line) :
    RawLines (Wiki.rewritten out fence parts) := by
  induction h generalizing fence with
  | nil => exact .nil
  | @last line hne hline =>
    rw [Wiki.rewritten, Wiki.rewritten]
    split
    · exact .last hne hline
    · rename_i hprose
      have hquiet := hquiet line (by simp [classify, hprose])
      exact .last (hquiet.rewriteLine_ne_nil hne) (hquiet.notMem_newline hline)
  | @cons line terminator rest hline hterm _ ih =>
    rw [Wiki.rewritten]
    have hrest := ih fun l hl => hquiet l (mem_cons_of_mem _ hl)
    split
    · exact .cons hline hterm hrest
    · rename_i hprose
      have hquiet := hquiet line (by simp [classify, hprose])
      refine .cons (hquiet.notMem_newline hline) ?_ hrest
      exact hterm.imp_right fun hterm => ⟨hterm.1, hquiet.getLast?_ne hterm.2⟩

lemma classify_rewritten
    (hquiet : ∀ line, (false, line) ∈ classify fence (parts.map Prod.fst) → Quiet K line) :
    classify fence ((rewritten out fence parts).map Prod.fst) =
      (classify fence (parts.map Prod.fst)).map fun part =>
        (part.1, if part.1 then part.2 else rewriteLine out part.2) := by
  induction parts generalizing fence with
  | nil => rfl
  | cons part parts ih =>
    obtain ⟨line, terminator⟩ := part
    have hrest := fun l hl => hquiet l (mem_cons_of_mem _ hl)
    rw [rewritten, map_cons, map_cons, classify, classify, map_cons]
    cases hcode : (CodeFence.step fence line).2 with
    | true =>
      simp only [if_true, hcode]
      exact congrArg _ (ih hrest)
    | false =>
      have hstep := (hquiet line (by simp [classify, hcode])).step hcode
      simp only [hcode, Bool.false_eq_true, if_false, hstep]
      exact congrArg _ (ih hrest)

/-- The lines of the rewritten body are the rewritten lines, code where they were. -/
theorem classify_rewriteBody
    (hquiet : ∀ line, (false, line) ∈ classify none (lines body) → Quiet K line) :
    classify none (lines (rewriteBody out body)) = (classify none (lines body)).map fun part =>
        (part.1, if part.1 then part.2 else rewriteLine out part.2) := by
  obtain ⟨parts, hparts, rfl⟩ := exists_rawLines body
  rw [hparts.lines] at hquiet ⊢
  rw [rewriteBody, hparts.splitInclusive, hparts.rewriteLines, (hparts.rewritten hquiet).lines]
  exact classify_rewritten hquiet

lemma proseOf_map (f : Text → Text) (parts : List (Bool × Text)) :
    proseOf (parts.map fun part => (part.1, if part.1 then part.2 else f part.2)) =
      (proseOf parts).map f := by
  induction parts with
  | nil => rfl
  | cons part parts ih =>
    obtain ⟨code, line⟩ := part
    cases code with
    | true => exact ih
    | false => exact congrArg (f line :: ·) ih

lemma mem_proseOf {parts : List (Bool × Text)} {line : Text} :
    line ∈ proseOf parts ↔ (false, line) ∈ parts := by
  induction parts with
  | nil => exact iff_of_false not_mem_nil not_mem_nil
  | cons part parts ih =>
    obtain ⟨code, line'⟩ := part
    cases code <;> simp [proseOf, ih]

lemma newline_of_classify
    (h : RawLines parts) {code : Bool} (hmem : (code, line) ∈ classify fence (parts.map Prod.fst)) :
    '\n' ∉ line := by
  induction h generalizing fence with
  | nil => cases hmem
  | last _ hline =>
    obtain rfl := (Prod.mk.inj (mem_singleton.mp hmem)).2
    exact hline
  | cons hline _ _ ih =>
    rcases mem_cons.mp hmem with heq | hmem
    · obtain rfl := (Prod.mk.inj heq).2
      exact hline
    · exact ih hmem

lemma newline_lines {code : Bool}
    (hmem : (code, line) ∈ classify none (lines body)) : '\n' ∉ line := by
  obtain ⟨parts, hparts, rfl⟩ := exists_rawLines body
  rw [hparts.lines] at hmem
  exact newline_of_classify hparts hmem

lemma rewriteBody_eq_self
    (h : ∀ line, (false, line) ∈ classify none (lines body) → rewriteLine out line = line) :
    rewriteBody out body = body := by
  obtain ⟨parts, hparts, rfl⟩ := exists_rawLines body
  rw [hparts.lines] at h
  rw [rewriteBody, hparts.splitInclusive, hparts.rewriteLines]
  refine congrArg (List.flatMap rawLine) ?_
  clear hparts
  generalize (none : Option CodeFence) = fence at h ⊢
  induction parts generalizing fence with
  | nil => rfl
  | cons part parts ih =>
    obtain ⟨line, terminator⟩ := part
    rw [rewritten, ih _ fun l hl => h l (mem_cons_of_mem _ hl)]
    split
    · rfl
    · rename_i hprose
      rw [h line (by simp [classify, hprose])]

end Wiki
