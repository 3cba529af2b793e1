/-
Excluded files of a POSIX host.

A file tool's argument is compared as the file a POSIX system names by it, so a file that a
POSIX pattern matches is not kept: a miss of every literal path is a miss of every pattern.
-/
import AiMemory.Lib.Fallible
import AiMemory.Hooks.Inspect
import AiMemory.Hooks.Posix

open Strings Fallible List

namespace Capture

open Json (Value)
open Option (bind_eq_some_iff some.inj)

/-- A POSIX pattern of the policy matches a file, or is a `dir/**` of that very directory. -/
def CapturePolicy.Excludes (policy : CapturePolicy) (file : Text) : Prop :=
  ∃ pattern ∈ policy.patterns, pattern.flavor = .posix ∧
    globMatch pattern.path file pattern.directoryBase false = true

namespace CapturePolicy

variable {policy : CapturePolicy} {U : Unicode}

variable {work work' : ℕ} {patterns : List CompiledPattern} {candidates : List Normalized}
  {paths : List Text} {cwd : Text} {agent : AgentKind} {raw : Value}

lemma foldCandidate_flavor (candidate : Normalized) :
    (policy.foldCandidate U candidate).flavor = candidate.flavor := by
  unfold foldCandidate
  split <;> rfl

lemma foldCandidate_self (hcase : policy.foldCase = false) (candidate : Normalized) :
    policy.foldCandidate U candidate = candidate := by
  rw [foldCandidate, hcase]
  rfl

lemma matchLiteral_false {insensitive : Bool} {candidate : Normalized}
    (h : (matchLiteral insensitive candidate patterns).run work = some (false, work')) :
    ∀ pattern ∈ patterns, globMatch pattern.path candidate.path pattern.directoryBase
      (pattern.flavor = .windows || insensitive) = false := by
  induction patterns generalizing work with
  | nil => exact fun _ hmem => nomatch hmem
  | cons pattern patterns ih =>
    obtain ⟨-, work₁, -, h⟩ := run_bind_eq_some.mp h
    cases hmatch : globMatch pattern.path candidate.path pattern.directoryBase
      (pattern.flavor = .windows || insensitive) with
    | true =>
      rw [hmatch] at h
      cases h
    | false =>
      rw [hmatch] at h
      exact forall_mem_cons.mpr ⟨hmatch, ih h⟩

lemma matchLiteral_true {insensitive : Bool} {candidate : Normalized}
    (h : (matchLiteral insensitive candidate patterns).run work = some (true, work')) :
    ∃ pattern ∈ patterns, globMatch pattern.path candidate.path pattern.directoryBase
      (pattern.flavor = .windows || insensitive) = true := by
  induction patterns generalizing work with
  | nil => cases h
  | cons pattern patterns ih =>
    obtain ⟨-, work₁, -, h⟩ := run_bind_eq_some.mp h
    cases hmatch : globMatch pattern.path candidate.path pattern.directoryBase
      (pattern.flavor = .windows || insensitive) with
    | true => exact ⟨pattern, mem_cons_self, hmatch⟩
    | false =>
      rw [hmatch] at h
      obtain ⟨found, hfound, hglob⟩ := ih h
      exact ⟨found, mem_cons_of_mem _ hfound, hglob⟩

lemma matchCandidates_true
    (h : (matchCandidates U policy candidates).run work = some (true, work')) :
    ∃ candidate ∈ candidates, ∃ pattern ∈ policy.patternsFor (policy.foldCandidate U candidate),
      globMatch pattern.path (policy.foldCandidate U candidate).path pattern.directoryBase
        (pattern.flavor = .windows || policy.foldCase) = true := by
  induction candidates generalizing work with
  | nil => cases h
  | cons candidate candidates ih =>
    obtain ⟨matched, work₁, hfirst, h⟩ := run_bind_eq_some.mp h
    cases matched with
    | true => exact ⟨candidate, mem_cons_self, matchLiteral_true hfirst⟩
    | false =>
      obtain ⟨found, hfound, hmatch⟩ := ih h
      exact ⟨found, mem_cons_of_mem _ hfound, hmatch⟩

lemma matchCandidates_false
    (h : (matchCandidates U policy candidates).run work = some (false, work')) :
    ∀ candidate ∈ candidates, ∀ pattern ∈ policy.patternsFor (policy.foldCandidate U candidate),
      globMatch pattern.path (policy.foldCandidate U candidate).path pattern.directoryBase
        (pattern.flavor = .windows || policy.foldCase) = false := by
  induction candidates generalizing work with
  | nil => exact fun _ hmem => nomatch hmem
  | cons candidate candidates ih =>
    obtain ⟨matched, work₁, hfirst, h⟩ := run_bind_eq_some.mp h
    cases matched with
    | true => cases h
    | false => exact forall_mem_cons.mpr ⟨matchLiteral_false hfirst, ih h⟩

lemma matchPaths_false (h : policy.matchPaths U paths cwd = some false) :
    ∀ path ∈ paths, ∀ candidates, normalizeCandidates path cwd = some candidates →
      ∀ candidate ∈ candidates, ∀ pattern ∈ policy.patterns, pattern.flavor = candidate.flavor →
        globMatch pattern.path (policy.foldCandidate U candidate).path pattern.directoryBase
          (pattern.flavor = .windows || policy.foldCase) = false := by
  intro path hpath candidates hcandidates candidate hcandidate pattern hpattern hflavor
  obtain ⟨all, hall, h⟩ := bind_eq_some_iff.mp h
  obtain ⟨⟨matched, work⟩, hrun, h⟩ := bind_eq_some_iff.mp h
  obtain rfl : matched = false := some.inj h
  have hmem : candidate ∈ all.flatten := by
    obtain ⟨found, hfound, heq⟩ := mem_of_mapM_eq_some hall hpath
    obtain rfl : candidates = found := some.inj (hcandidates.symm.trans heq)
    exact mem_flatten_of_mem hfound hcandidate
  refine matchCandidates_false hrun candidate hmem pattern (mem_filter.mpr ⟨hpattern, ?_⟩)
  rw [foldCandidate_flavor]
  exact decide_eq_true hflavor

lemma matchPaths_true (h : policy.matchPaths U paths cwd = some true) :
    ∃ path ∈ paths, ∃ candidates, normalizeCandidates path cwd = some candidates ∧
      ∃ candidate ∈ candidates, ∃ pattern ∈ policy.patterns, pattern.flavor = candidate.flavor ∧
        globMatch pattern.path (policy.foldCandidate U candidate).path pattern.directoryBase
          (pattern.flavor = .windows || policy.foldCase) := by
  obtain ⟨all, hall, h⟩ := bind_eq_some_iff.mp h
  obtain ⟨⟨matched, work⟩, hrun, h⟩ := bind_eq_some_iff.mp h
  obtain rfl : matched := some.inj h
  obtain ⟨candidate, hcandidate, pattern, hpattern, hmatch⟩ := matchCandidates_true hrun
  obtain ⟨candidates, hcandidates, hmem⟩ := mem_flatten.mp hcandidate
  obtain ⟨path, hpath, hnormal⟩ := of_mem_mapM_eq_some hall hcandidates
  obtain ⟨hpattern, hflavor⟩ := mem_filter.mp hpattern
  rw [foldCandidate_flavor] at hflavor
  exact ⟨path, hpath, candidates, hnormal, candidate, hmem, pattern, hpattern,
    of_decide_eq_true hflavor, hmatch⟩

lemma disposition_file (U : Unicode) (cwd : Text) (hactive : policy.state = .active)
    (hfile : (extract agent raw).family = .file) (hglobs : (extract agent raw).globs = false)
    (hpaths : (extract agent raw).paths = some paths) :
    (policy.inspect U agent raw cwd).protocol.disposition = .metadataOnly ∨
      (∀ path ∈ paths, normalizeCandidate path cwd ≠ none) ∧
        ((policy.matchPaths U paths cwd = some true ∧
            (policy.inspect U agent raw cwd).protocol.disposition = .drop) ∨
          (policy.matchPaths U paths cwd = some false ∧
            (policy.inspect U agent raw cwd).protocol.disposition = .keep)) := by
  change (policy.inspectExtracted U (extract agent raw) cwd).1 = .metadataOnly ∨ _ ∧
    ((_ ∧ (policy.inspectExtracted U (extract agent raw) cwd).1 = .drop) ∨
      (_ ∧ (policy.inspectExtracted U (extract agent raw) cwd).1 = .keep))
  rw [inspectExtracted, hactive]
  dsimp only
  by_cases hreader : (extract agent raw).outputReader
  · rw [if_pos hreader]
    exact .inl rfl
  rw [if_neg hreader, hfile]
  dsimp only
  rw [hpaths, hglobs, inspectFile]
  by_cases hunusable : (paths.any fun path => (normalizeCandidate path cwd).isNone)
  · rw [if_pos hunusable]
    exact .inl rfl
  rw [if_neg hunusable]
  have husable : ∀ path ∈ paths, normalizeCandidate path cwd ≠ none := fun path hpath hnone =>
    hunusable (any_eq_true.mpr ⟨path, hpath, Option.isNone_iff_eq_none.mpr hnone⟩)
  simp only [Bool.false_eq_true, if_false]
  cases policy.matchPaths U paths cwd with
  | none => exact .inl rfl
  | some matched =>
    cases matched with
    | true => exact .inr ⟨husable, .inl ⟨rfl, rfl⟩⟩
    | false =>
      cases spooled U false paths cwd with
      | true => exact .inl rfl
      | false => exact .inr ⟨husable, .inr ⟨rfl, rfl⟩⟩

lemma keep_inv (hactive : policy.state = .active) (hfile : (extract agent raw).family = .file)
    (hglobs : (extract agent raw).globs = false) (hpaths : (extract agent raw).paths = some paths)
    (hkeep : (policy.inspect U agent raw cwd).protocol.disposition = .keep) :
    (∀ path ∈ paths, normalizeCandidate path cwd ≠ none) ∧
      policy.matchPaths U paths cwd = some false := by
  rcases disposition_file U cwd hactive hfile hglobs hpaths with
    hother | ⟨husable, ⟨-, hother⟩ | ⟨hmiss, -⟩⟩
  · rw [hkeep] at hother
    cases hother
  · rw [hkeep] at hother
    cases hother
  · exact ⟨husable, hmiss⟩

lemma drop_inv (hactive : policy.state = .active) (hfile : (extract agent raw).family = .file)
    (hglobs : (extract agent raw).globs = false) (hpaths : (extract agent raw).paths = some paths)
    (hdrop : (policy.inspect U agent raw cwd).protocol.disposition = .drop) :
    (∀ path ∈ paths, normalizeCandidate path cwd ≠ none) ∧
      policy.matchPaths U paths cwd = some true := by
  rcases disposition_file U cwd hactive hfile hglobs hpaths with
    hother | ⟨husable, ⟨hhit, -⟩ | ⟨-, hother⟩⟩
  · rw [hdrop] at hother
    cases hother
  · exact ⟨husable, hhit⟩
  · rw [hdrop] at hother
    cases hother

end CapturePolicy

/-- No path: blank, too long, or behind a drive letter without a separator. -/
def Unusable (path : Text) : Prop :=
  path.all isWhitespace = true ∨ maxCandidatePathChars < path.length ∨ isDriveRelative path = true

lemma providerOf_colon {path : Text} (hcolon : path[1]? = some ':') : providerOf path = none := by
  match path with
  | first :: second :: rest =>
    obtain rfl : second = ':' := some.inj hcolon
    simp [providerOf, providerPrefixes, startsWithIgnoreCase, List.isPrefixOf]

lemma stripPowershellProvider_none {path : Text} (h : providerOf path = none) :
    stripPowershellProvider path = path := by
  rw [stripPowershellProvider]
  cases path.length with
  | zero => rfl
  | succ fuel => rw [stripProviders, h]

lemma colon_of_isDriveRelative {path : Text} (h : isDriveRelative path) :
    path[1]? = some ':' := by
  unfold isDriveRelative at h
  split at h
  · rfl
  · cases h

lemma normalizeCandidate_unusable {path : Text} (h : Unusable path) (cwd : Text) :
    normalizeCandidate path cwd = none := by
  have hraw : candidateRaw path cwd = none := by
    rw [candidateRaw]
    split
    · rfl
    · rename_i husable
      have hdrive : isDriveRelative path := by
        rcases h with h | h | h
        · exact absurd (by rw [h, Bool.true_or]) husable
        · exact absurd (by rw [decide_eq_true h, Bool.or_true]) husable
        · exact h
      rw [stripPowershellProvider_none (providerOf_colon (colon_of_isDriveRelative hdrive)), hdrive]
      cases normalizeRoot cwd <;> simp [hdrive]
  rw [normalizeCandidate, normalizeCandidates, hraw]
  rfl

lemma not_unusable {path : Text} (h : ¬Unusable path) : path.all isWhitespace = false ∧
    path.length ≤ maxCandidatePathChars ∧ isDriveRelative path = false := by
  rw [Unusable, not_or, not_or, Bool.not_eq_true, Nat.not_lt, Bool.not_eq_true] at h
  exact h

/-- On a POSIX host no file tool is kept that names an excluded file by an argument read as a
POSIX system reads it, or by one next to an argument that is no path. -/
theorem excluded_not_kept (U : Unicode) {policy : CapturePolicy} {agent : AgentKind} {raw : Value}
    {cwd : Text} {paths : List Text}
    (hactive : policy.state = .active) (hcase : policy.foldCase = false)
    (hfile : (extract agent raw).family = .file) (hglobs : (extract agent raw).globs = false)
    (hpaths : (extract agent raw).paths = some paths) (hcwd : cwd.head? = some '/')
    (hexcluded : ∃ path ∈ paths, policy.Excludes (posixFile path cwd) ∧
      (ReadAsNamed cwd path ∨ cwd[1]? = some ':' ∨ ∃ other ∈ paths, Unusable other)) :
    (policy.inspect U agent raw cwd).protocol.disposition ≠ .keep := by
  intro hkeep
  obtain ⟨husable, hmiss⟩ := CapturePolicy.keep_inv hactive hfile hglobs hpaths hkeep
  have hall : ∀ path ∈ paths, ¬Unusable path := fun path hpath h =>
    husable path hpath (normalizeCandidate_unusable h cwd)
  obtain ⟨path, hpath, ⟨pattern, hpattern, hflavor, hmatch⟩, hread⟩ := hexcluded
  have hcolon : cwd[1]? ≠ some ':' := by
    intro hcolon
    refine husable path hpath ?_
    have hroot : normalizeRoot cwd = none := by
      rw [normalizeRoot, isDriveRelative_colon hcwd hcolon, Bool.or_true, if_pos rfl]
    rw [normalizeCandidate, Capture.normalizeCandidates, candidateRaw, hroot]
    split <;> rfl
  rcases hread with hread | hread | ⟨other, hother, hunusable⟩
  · obtain ⟨hblank, hlen, hdrive⟩ := not_unusable (hall path hpath)
    have hcandidates := hread.normalizeCandidates hcwd hcolon hblank hlen hdrive
    have hfalse := CapturePolicy.matchPaths_false hmiss path hpath _ hcandidates _
      (mem_singleton.mpr rfl) pattern hpattern hflavor
    rw [CapturePolicy.foldCandidate_self hcase, hflavor, hcase] at hfalse
    exact absurd (hmatch.symm.trans hfalse) (by decide)
  · exact hcolon hread
  · exact hall other hother hunusable

/-- A call of the `Read` tool. -/
def readCall (path : String) : Value :=
  .object [("tool_name", .string "Read"), ("tool_input", .object [("file_path", .string path)])]

theorem excluded_not_kept_doubled :
    ((ignoring ["secret/**"] "/repo").inspect asciiUnicode .claudeCode
      (readCall "//repo//docs/../secret/token.txt") "/repo".toList).protocol.disposition ≠ .keep :=
  have hpaths : (extract .claudeCode (readCall "//repo//docs/../secret/token.txt")).paths =
      some ["//repo//docs/../secret/token.txt".toList] := by decide +kernel
  have hplain : PlainArgument "//repo//docs/../secret/token.txt".toList :=
    ⟨by decide +kernel, by decide +kernel⟩
  have hpattern : ⟨"/repo/secret/**".toList, .posix, some "/repo/secret".toList,
      "/repo/secret".toList⟩ ∈ (ignoring ["secret/**"] "/repo").patterns := by decide +kernel
  excluded_not_kept asciiUnicode (by decide +kernel) (by decide +kernel) (by decide +kernel)
    (by decide +kernel) hpaths (by decide +kernel)
    ⟨_, mem_singleton.mpr rfl, ⟨_, hpattern, rfl, by decide +kernel⟩,
      .inl ⟨hplain, by decide +kernel, .inl (by decide +kernel)⟩⟩

/-- A drive-like directory name takes the file out of the reach of the POSIX patterns. -/
theorem drive_like_kept :
    (ignoring ["**"] "/repo").state = .active ∧ (ignoring ["**"] "/repo").foldCase = false ∧
      (extract .claudeCode (readCall "C:/secret.txt")).family = .file ∧
      (extract .claudeCode (readCall "C:/secret.txt")).globs = false ∧
      (extract .claudeCode (readCall "C:/secret.txt")).paths = some ["C:/secret.txt".toList] ∧
      posixFile "C:/secret.txt".toList "/repo".toList = "/repo/C:/secret.txt".toList ∧
      (ignoring ["**"] "/repo").Excludes "/repo/C:/secret.txt".toList ∧
      ((ignoring ["**"] "/repo").inspect asciiUnicode .claudeCode (readCall "C:/secret.txt")
        "/repo".toList).protocol.disposition = .keep := by
  refine ⟨by decide +kernel, by decide +kernel, by decide +kernel, by decide +kernel, by decide +kernel, by decide +kernel, ?_, by decide +kernel⟩
  exact ⟨⟨"/repo/**".toList, .posix, some "/repo".toList, "/repo".toList⟩, by decide +kernel, rfl, by decide +kernel⟩

end Capture
