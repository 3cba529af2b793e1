/-
The gate that tells an event ledger from a page (`ai-memory-core`, `log_ledger.rs`).

The gate is read off a bounded prefix.  A prefix ends inside one line: the lines before it are
those of the body, and the line itself only grows.
-/
import AiMemory.Wiki.RewrittenLines

open Strings Wiki Store List

namespace LogLedger

def maxFrontmatterLines : ℕ := 64

def ledgerEntryPrefix : Text := "## [".toList

def fence : Text := "---".toList

/-- The lines behind the closing fence, when it is among the first `limit` lines. -/
def afterFence : ℕ → List Text → Option (List Text)
  | 0, _ => none
  | _ + 1, [] => none
  | limit + 1, line :: lines =>
    if trimEndBy isWhitespace line = fence then some lines else afterFence limit lines

def bodyOpensWithLogLedger (body : Text) : Bool :=
  match lines body with
  | [] => false
  | first :: rest =>
    if trimEndBy isWhitespace first ≠ fence then ledgerEntryPrefix.isPrefixOf first
    else match afterFence maxFrontmatterLines rest with
    | none => false
    | some rest => (rest.find? fun line => trimBy isWhitespace line ≠ []).any fun line =>
        ledgerEntryPrefix.isPrefixOf line

lemma splitInclusive_append (before : Text) : ∃ done last, '\n' ∉ last ∧
    ∀ after, splitInclusive (before ++ after) = done ++ splitInclusive (last ++ after) := by
  induction hlen : before.length using Nat.strong_induction_on generalizing before with
  | _ n ih =>
    by_cases hmem : '\n' ∈ before
    · obtain ⟨line, rest, rfl, hline⟩ := eq_append_cons_of_mem hmem
      obtain ⟨done, last, hlast, hsplit⟩ :=
        ih rest.length (by rw [← hlen, length_append, length_cons]; omega) rest rfl
      refine ⟨(line ++ ['\n']) :: done, last, hlast, fun after => ?_⟩
      rw [append_assoc, cons_append, splitInclusive_cons hline, hsplit, cons_append]
    · exact ⟨[], before, hmem, fun _ => rfl⟩

lemma entry_line_iff (raw : Text) :
    ledgerEntryPrefix <+: (splitLineTerminator raw).1 ↔ ledgerEntryPrefix <+: raw := by
  have hraw := splitLineTerminator_append raw
  have hterm := splitLineTerminator_snd raw
  generalize (splitLineTerminator raw).1 = content at hraw
  generalize (splitLineTerminator raw).2 = terminator at hraw hterm
  subst hraw
  constructor
  · exact fun h => h.trans (prefix_append _ _)
  intro h
  rcases prefix_or_prefix_of_prefix h (prefix_append content terminator) with h | h
  · exact h
  -- else the opening would reach into the line ending
  obtain ⟨rest, hrest⟩ := h
  rw [← hrest, prefix_append_right_inj] at h
  have hnil : rest = [] := by
    refine eq_nil_iff_forall_not_mem.mpr fun c hc => ?_
    have hending := hterm (h.subset hc)
    have hopening : c ∈ ledgerEntryPrefix := hrest ▸ mem_append_right content hc
    simp only [mem_cons, not_mem_nil, or_false] at hending
    rcases hending with rfl | rfl
    all_goals exact absurd hopening (by decide)
  rw [← hrest, hnil, append_nil]

lemma lines_append (before after : Text) : ∃ done last more,
    lines before = done ++ last ∧ lines (before ++ after) = done ++ more ∧
    (last = [] ∨ ∃ line, last = [line] ∧ (ledgerEntryPrefix <+: line →
      ∃ line' rest, more = line' :: rest ∧ ledgerEntryPrefix <+: line')) := by
  obtain ⟨done, last, hlast, hsplit⟩ := splitInclusive_append before
  have hbefore := hsplit []
  rw [append_nil, append_nil] at hbefore
  refine ⟨done.map fun raw => (splitLineTerminator raw).1, lines last, lines (last ++ after),
    ?_, ?_, ?_⟩
  · rw [lines, hbefore, map_append, lines]
  · rw [lines, hsplit, map_append, lines]
  by_cases hnil : last = []
  · subst hnil
    exact .inl rfl
  refine .inr ⟨(splitLineTerminator last).1, ?_, fun hentry => ?_⟩
  · rw [lines, splitInclusive_last hnil hlast]
    rfl
  · have hraw : ledgerEntryPrefix <+: last := (entry_line_iff last).mp hentry
    by_cases hmem : '\n' ∈ after
    · obtain ⟨line, rest, rfl, hline⟩ := eq_append_cons_of_mem hmem
      have hwhole : '\n' ∉ last ++ line := by simp [hlast, hline]
      refine ⟨_, lines rest, ?_, (entry_line_iff (last ++ line ++ ['\n'])).mpr ?_⟩
      · rw [lines, ← append_assoc, splitInclusive_cons hwhole, map_cons, lines]
      · exact hraw.trans (by rw [append_assoc]; exact prefix_append _ _)
    · have hwhole : '\n' ∉ last ++ after := by simp [hlast, hmem]
      refine ⟨_, [], ?_, (entry_line_iff (last ++ after)).mpr ?_⟩
      · rw [lines, splitInclusive_last (by simp [hnil]) hwhole]
        rfl
      · exact hraw.trans (prefix_append _ _)

lemma afterFence_append {limit : ℕ} {done last rest : List Text} (more : List Text)
    (hlast : last.length ≤ 1) (h : afterFence limit (done ++ last) = some rest) :
    rest = [] ∨ ∃ kept, rest = kept ++ last ∧ afterFence limit (done ++ more) = some (kept ++ more) := by
  induction limit generalizing done with
  | zero => cases h
  | succ limit ih =>
    cases done with
    | nil =>
      cases last with
      | nil => cases h
      | cons line last =>
        obtain rfl : last = [] := eq_nil_of_length_eq_zero (by simpa using hlast)
        rw [nil_append, afterFence] at h
        split at h
        · exact .inl (Option.some.inj h).symm
        · cases limit with
          | zero | succ limit => cases h
    | cons line done =>
      rw [cons_append, afterFence] at h ⊢
      split at h
      · rename_i hfence
        rw [if_pos hfence]
        exact .inr ⟨done, (Option.some.inj h).symm, rfl⟩
      · rename_i hfence
        rw [if_neg hfence]
        exact ih h

lemma entry_head {line : Text} (h : ledgerEntryPrefix <+: line) :
    trimEndBy isWhitespace line ≠ fence ∧ trimBy isWhitespace line ≠ [] := by
  obtain ⟨rest, rfl⟩ := h
  constructor
  · intro hfence
    have hhead := head?_trimEndBy (p := isWhitespace) (s := ledgerEntryPrefix ++ rest) (c := '-')
      (by rw [hfence]; rfl)
    exact absurd hhead (by simp [ledgerEntryPrefix])
  · intro hblank
    have hdrop : (ledgerEntryPrefix ++ rest).dropWhile isWhitespace = ledgerEntryPrefix ++ rest :=
      rfl
    rw [trimBy, hdrop] at hblank
    obtain ⟨cut, hcut, hspace⟩ := trimEndBy_append isWhitespace (ledgerEntryPrefix ++ rest)
    rw [hblank, nil_append] at hcut
    have hhash := hspace '#' (by rw [← hcut]; exact mem_append_left _ (by decide))
    cases hhash

/-- A body that opens with a ledger in its first characters opens with one. -/
theorem bodyOpensWithLogLedger_append {before : Text} (after : Text)
    (h : bodyOpensWithLogLedger before = true) :
    bodyOpensWithLogLedger (before ++ after) = true := by
  obtain ⟨done, last, more, hbefore, hbody, hlast⟩ := lines_append before after
  have hone : last.length ≤ 1 := by
    rcases hlast with rfl | ⟨line, rfl, -⟩
    · exact Nat.zero_le _
    · exact le_rfl
  rw [bodyOpensWithLogLedger, hbefore] at h
  rw [bodyOpensWithLogLedger, hbody]
  cases done with
  | nil =>
    -- the prefix ends in its first line, which cannot be a fence that something follows
    rcases hlast with rfl | ⟨line, rfl, hgrows⟩
    · cases h
    · simp only [nil_append] at h ⊢
      split at h
      · obtain ⟨line', rest, rfl, hentry⟩ := hgrows (List.isPrefixOf_iff_prefix.mp h)
        dsimp only
        rw [if_pos (entry_head hentry).1]
        exact isPrefixOf_iff_prefix.mpr hentry
      · cases h
  | cons first done =>
    simp only [cons_append] at h ⊢
    split at h
    · rename_i hfirst
      rwa [if_pos hfirst]
    rename_i hfirst
    rw [if_neg hfirst]
    cases hafter : afterFence maxFrontmatterLines (done ++ last) with
    | none =>
      rw [hafter] at h
      cases h
    | some rest =>
      rw [hafter] at h
      rcases afterFence_append more hone hafter with rfl | ⟨kept, rfl, hwhole⟩
      · cases h
      rw [hwhole]
      dsimp only at h ⊢
      rw [find?_append] at h ⊢
      cases hkept : kept.find? fun line => trimBy isWhitespace line ≠ [] with
      | some line =>
        rw [hkept] at h
        exact h
      | none =>
        rw [Option.none_or]
        rw [hkept, Option.none_or] at h
        rcases hlast with rfl | ⟨line, rfl, hgrows⟩
        · cases h
        rw [find?_singleton] at h
        split at h
        · obtain ⟨line', rest, rfl, hentry⟩ := hgrows (List.isPrefixOf_iff_prefix.mp h)
          rw [find?_cons_of_pos (by simpa using (entry_head hentry).2)]
          exact isPrefixOf_iff_prefix.mpr hentry
        · cases h

theorem bodyOpensWithLogLedger_append_entry :
    bodyOpensWithLogLedger "---\ntype: Note\n---\n\n## [2026".toList = true ∧
      bodyOpensWithLogLedger
        ("---\ntype: Note\n---\n\n## [2026".toList ++ "-09-25] call\n".toList) = true :=
  ⟨by decide, bodyOpensWithLogLedger_append _ (by decide)⟩

end LogLedger
