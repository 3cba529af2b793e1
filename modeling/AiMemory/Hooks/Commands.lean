/-
Shell commands that name excluded files.

A command is kept when no reading of any of its words can match a pattern.  A word that names
an excluded file has such a reading: the lexical path itself, or a glob that reaches the
pattern's literal prefix.
-/
import AiMemory.Hooks.Excluded
import AiMemory.Hooks.Lexical
import AiMemory.Hooks.Matching
import AiMemory.Hooks.Scripts

open Strings Fallible List

namespace Capture

open Json (Value)

/-! ### Compiled patterns -/

/-- The fields a compiled pattern derives from its path. -/
structure CompiledPattern.Derived (pattern : CompiledPattern) : Prop where
  literalPrefix : pattern.literalPrefix = Capture.literalPrefix pattern.path
  directory : ∀ base, pattern.directoryBase = some base →
    pattern.path = base ++ ['/', '*', '*'] ∨ base = ['/'] ∧ pattern.path = ['/', '*', '*']

lemma directoryBaseOf_inv {path base : Text} (h : directoryBaseOf path = some base) :
    path = base ++ ['/', '*', '*'] ∨ base = ['/'] ∧ path = ['/', '*', '*'] := by
  unfold directoryBaseOf at h
  split at h
  · rename_i hsuffix
    obtain ⟨front, rfl⟩ := isSuffixOf_iff_suffix.mp hsuffix
    have htake : (front ++ ['/', '*', '*']).take ((front ++ ['/', '*', '*']).length - 3) = front := by
      simp
    rw [htake] at h
    cases h
    by_cases hfront : front = []
    · exact .inr ⟨if_pos hfront, by rw [hfront]; rfl⟩
    · exact .inl (by rw [if_neg hfront])
  · cases h

lemma joined_inv {marker source expanded : Text} {pattern : CompiledPattern}
    (h : (if flavorOf expanded = .posix ∧ flavorOf marker = .windows then
      Except.error (PatternError.posixInWindows source)
    else
      match (if flavorOf expanded = .windows then windowsSpelling expanded []
        else some expanded).bind normalizeSegments with
      | none => .error (.notNormalized source)
      | some path =>
        .ok ⟨path, flavorOf expanded, directoryBaseOf path, Capture.literalPrefix path⟩) =
      .ok pattern) :
    ∃ path, (if flavorOf expanded = .windows then windowsSpelling expanded []
        else some expanded).bind normalizeSegments = some path ∧
      pattern = ⟨path, flavorOf expanded, directoryBaseOf path, Capture.literalPrefix path⟩ := by
  split at h
  · cases h
  · split at h
    · cases h
    · rename_i path hpath
      exact ⟨path, hpath, (Except.ok.inj h).symm⟩

variable {home : Option Text} {marker : Text}

lemma compilePattern_inv {marker source : Text}
    {pattern : CompiledPattern} (h : compilePattern marker home source = .ok pattern) :
    ∃ expanded path, validateGlob source = .ok () ∧
      ((∃ directory ∈ home, expanded = join directory (source.drop 2)) ∨ expanded = source ∨
        expanded = join marker source) ∧
      (if flavorOf expanded = .windows then windowsSpelling expanded [] else some expanded).bind
        normalizeSegments = some path ∧
      pattern = ⟨path, flavorOf expanded, directoryBaseOf path, Capture.literalPrefix path⟩ := by
  obtain ⟨⟨⟩, hvalid, h⟩ := bind_eq_ok.mp h
  split at h
  · split at h
    · cases h
    · rename_i directory _
      obtain ⟨expanded, hexpanded, h⟩ := bind_eq_ok.mp h
      cases hexpanded
      obtain ⟨path, hpath, heq⟩ := joined_inv h
      exact ⟨_, path, hvalid, .inl ⟨directory, rfl, rfl⟩, hpath, heq⟩
  · split at h
    · obtain ⟨expanded, hexpanded, h⟩ := bind_eq_ok.mp h
      cases hexpanded
      obtain ⟨path, hpath, heq⟩ := joined_inv h
      exact ⟨_, path, hvalid, .inr (.inl rfl), hpath, heq⟩
    · obtain ⟨expanded, hexpanded, h⟩ := bind_eq_ok.mp h
      cases hexpanded
      obtain ⟨path, hpath, heq⟩ := joined_inv h
      exact ⟨_, path, hvalid, .inr (.inr rfl), hpath, heq⟩

lemma derived_compilePattern {marker source : Text}
    {pattern : CompiledPattern} (h : compilePattern marker home source = .ok pattern) :
    pattern.Derived := by
  obtain ⟨expanded, path, -, -, -, rfl⟩ := compilePattern_inv h
  exact ⟨rfl, fun _ => directoryBaseOf_inv⟩

lemma derived_compile {ignorePaths : List Text} {patterns : List CompiledPattern}
    (h : compile ignorePaths marker home = .ok patterns) :
    ∀ pattern ∈ patterns, pattern.Derived := by
  have hall : ∀ (marker : Text) (home : Option Text),
      ignorePaths.mapM (compilePattern marker home) = .ok patterns →
        ∀ pattern ∈ patterns, pattern.Derived := by
    intro marker home hmap pattern hpattern
    obtain ⟨source, -, hsource⟩ := of_mem_mapM_eq_ok hmap hpattern
    exact derived_compilePattern hsource
  unfold compile at h
  split at h
  · cases h
  · split at h
    · cases h
    · split at h
      · split at h
        · cases h
        · exact hall _ _ h
      · exact hall _ _ h

lemma CompiledPattern.Derived.folded {U : Unicode} (hU : FoldsNames U) {pattern : CompiledPattern}
    (h : pattern.Derived) : (pattern.folded U).Derived := by
  refine ⟨rfl, fun folded hfolded => ?_⟩
  obtain ⟨base, hbase, rfl⟩ := Option.map_eq_some_iff.mp hfolded
  have hstar := @FoldsNames.cons U hU '*' (.inr rfl)
  have hglob : U.foldPath ['*', '*'] = ['*', '*'] := by rw [hstar, hstar, hU.nil]
  rcases h.directory base hbase with hpath | ⟨rfl, hpath⟩
  · left
    change U.foldPath pattern.path = _
    rw [hpath, hU.append '/' (.inl rfl), hglob]
  · right
    refine ⟨by rw [hU.cons (.inl rfl), hU.nil], ?_⟩
    change U.foldPath pattern.path = _
    rw [hpath, hU.cons (.inl rfl), hglob]

lemma derived_resolveForHost {U : Unicode} {source : CaptureSource}
    {foldCase : Bool} (hU : foldCase → FoldsNames U) :
    ∀ pattern ∈ (CapturePolicy.resolveForHost U source marker home foldCase).patterns,
      pattern.Derived := by
  intro pattern hpattern
  unfold CapturePolicy.resolveForHost at hpattern
  split at hpattern
  · cases hpattern
  · cases hpattern
  · split at hpattern
    · cases hpattern
    · split at hpattern
      · cases hpattern
      · rename_i patterns hcompile
        dsimp only at hpattern
        split at hpattern
        · rename_i hfold
          obtain ⟨original, horiginal, rfl⟩ := mem_map.mp hpattern
          exact (derived_compile hcompile original horiginal).folded (hU hfold)
        · exact derived_compile hcompile pattern hpattern

lemma foldCase_resolveForHost {U : Unicode} {source : CaptureSource} {foldCase : Bool}
    (h : (CapturePolicy.resolveForHost U source marker home foldCase).foldCase) :
    foldCase := by
  unfold CapturePolicy.resolveForHost at h
  split at h
  · cases h
  · exact h
  · split at h
    · cases h
    · split at h
      · exact h
      · exact h

section
variable {pattern : CompiledPattern} {glob file : Text} {insensitive : Bool}

/-- The pattern matches a file not just as the directory of a `dir/**` without globs that ends in
a colon, whose prefix would keep a separator. -/
def CompiledPattern.Plain (pattern : CompiledPattern) (file : Text) (insensitive : Bool) : Prop :=
  globStatesMatch pattern.path file insensitive = true ∨
    ∀ base, pattern.directoryBase = some base → GlobFree base → base.getLast? ≠ some ':'

lemma anchors_of_globMatch (hderived : pattern.Derived)
    (hplain : pattern.Plain file insensitive) (habs : file.head? = some '/')
    (h : globMatch pattern.path file pattern.directoryBase insensitive) :
    Anchors insensitive pattern.literalPrefix file := by
  rw [hderived.literalPrefix]
  have hown : globStatesMatch pattern.path file insensitive →
      Anchors insensitive (Capture.literalPrefix pattern.path) file :=
    anchors_of_match fun _ => .inr habs
  rcases hplain with hpath | hplain
  · exact hown hpath
  rcases Bool.or_eq_true_iff.mp h with hbase | hpath
  · obtain ⟨base, hsome, hmatch⟩ := (Option.any_eq_true _ _).mp hbase
    have hanchor := anchors_of_match (fun _ => .inr habs) hmatch
    rcases hderived.directory base hsome with heq | ⟨rfl, heq⟩
    · have hne : base ≠ [] := by
        rintro rfl
        have hempty : GlobFree [] := fun _ hc => nomatch hc
        cases (globStatesMatch_literal hempty).mp hmatch
        cases habs
      rwa [heq, literalPrefix_directory hne (hplain base hsome)]
    · rw [heq]
      exact hanchor
  · exact hown hpath

def testsTrue (pattern : CompiledPattern) (glob : Text) (insensitive : Bool) : Bool :=
  (startsWithChars glob pattern.literalPrefix insensitive &&
      globMatch pattern.path glob pattern.directoryBase insensitive) ||
    (glob.any isGlobChar && globstarReaches glob pattern.literalPrefix insensitive)

lemma hits (hderived : pattern.Derived) (hplain : pattern.Plain file insensitive)
    (habs : file.head? = some '/') (hagrees : Agrees glob file)
    (h : globMatch pattern.path file pattern.directoryBase insensitive) :
    testsTrue pattern glob insensitive := by
  have hanchor := anchors_of_globMatch hderived hplain habs h
  cases hagrees with
  | same heq =>
    subst heq
    rw [testsTrue, startsWithChars_of_anchors hanchor, h]
    rfl
  | apart front before behind more hglob hfile hbefore hfront hdense hmore =>
    subst hglob hfile
    have hfree : GlobFree pattern.literalPrefix := by
      rw [hderived.literalPrefix]
      exact (literalPrefix_spec pattern.path).1
    have hany : (front ++ '/' :: (before ++ '*' :: '*' :: behind)).any isGlobChar :=
      any_eq_true.mpr ⟨'*', by simp, rfl⟩
    rw [testsTrue, hany, globstarReaches_of_anchors hfront hbefore hmore hdense hfree hanchor]
    exact Bool.or_true _

end

/-- The command is answered before any of its words is read. -/
def Extracted.Unread (extracted : Extracted) : Prop :=
  extracted.outputReader = true ∨ extracted.inlineCode = true ∨
    extracted.command.any ShellCommand.oversized = true

lemma keep_read {U : Unicode} {policy : CapturePolicy} {agent : AgentKind} {raw : Value}
    {cwd : Text} (hactive : policy.state = .active) (hshell : (extract agent raw).family = .nonFile)
    (hkeep : (policy.inspect U agent raw cwd).protocol.disposition = .keep) :
    ¬(extract agent raw).Unread := by
  change (policy.inspectExtracted U (extract agent raw) cwd).1 = .keep at hkeep
  rw [CapturePolicy.inspectExtracted, hactive] at hkeep
  dsimp only at hkeep
  rintro (hreader | hunread)
  · rw [if_pos hreader] at hkeep
    cases hkeep
  · split at hkeep
    · cases hkeep
    · rw [hshell] at hkeep
      dsimp only at hkeep
      rw [if_pos (Bool.or_eq_true_iff.mpr hunread)] at hkeep
      cases hkeep

namespace CapturePolicy

variable {U : Unicode} {policy : CapturePolicy}

variable {work work' : ℕ} {cwd : Text}

lemma matchPattern_false {foldCase : Bool} {candidate : Normalized}
    {patterns : List CompiledPattern}
    (h : (matchPattern false foldCase candidate patterns).run work = some (false, work')) :
    ∀ pattern ∈ patterns,
      testsTrue pattern candidate.path (candidate.flavor = .windows || foldCase) = false := by
  induction patterns generalizing work with
  | nil => exact fun _ hmem => nomatch hmem
  | cons pattern patterns ih =>
    rw [matchPattern] at h
    simp only [Bool.false_or, Bool.false_and, Bool.not_false, Bool.and_true, Bool.or_false] at h
    split at h
    · rename_i hskip
      rw [Bool.and_eq_true, Bool.not_eq_true', Bool.not_eq_true'] at hskip
      refine forall_mem_cons.mpr ⟨?_, ih h⟩
      rw [testsTrue, hskip.1, hskip.2]
      rfl
    · obtain ⟨-, work₁, -, h⟩ := run_bind_eq_some.mp h
      split at h
      · cases h
      · rename_i htest
        exact forall_mem_cons.mpr ⟨(Bool.not_eq_true _).mp htest, ih h⟩

structure Misses (U : Unicode) (policy : CapturePolicy) (argument base : Text) : Prop where
  read : normalizeReadings U argument base ≠ none
  miss : ∀ readings, normalizeReadings U argument base = some (some readings) →
    ∀ candidate ∈ readings, ∀ pattern ∈ policy.patternsFor (policy.foldCandidate U candidate),
      testsTrue pattern (policy.foldCandidate U candidate).path
        ((policy.foldCandidate U candidate).flavor = .windows || policy.foldCase) = false

lemma matchWordReadings_false {readings : List Normalized} {spool spool' : Bool}
    (h : (matchWordReadings U policy readings spool).run work = some ((false, spool'), work')) :
    ∀ candidate ∈ readings, ∀ pattern ∈ policy.patternsFor (policy.foldCandidate U candidate),
      testsTrue pattern (policy.foldCandidate U candidate).path
        ((policy.foldCandidate U candidate).flavor = .windows || policy.foldCase) = false := by
  induction readings generalizing spool work with
  | nil => exact fun _ hmem => nomatch hmem
  | cons candidate readings ih =>
    obtain ⟨found, work₁, -, h⟩ := run_bind_eq_some.mp h
    obtain ⟨matched, work₂, hmatched, h⟩ := run_bind_eq_some.mp h
    cases matched with
    | true => cases h
    | false => exact forall_mem_cons.mpr ⟨matchPattern_false hmatched, ih h⟩

lemma matchBases_false {argument : Text} {bases : List Text} {spool spool' : Bool}
    (h : (matchBases U policy argument bases spool).run work = some ((false, spool'), work')) :
    ∀ base ∈ bases, Misses U policy argument base := by
  induction bases generalizing spool work with
  | nil => exact fun _ hmem => nomatch hmem
  | cons base bases ih =>
    rw [matchBases] at h
    cases hread : normalizeReadings U argument base with
    | none =>
      rw [hread] at h
      cases h
    | some usable =>
      rw [hread] at h
      have hne : normalizeReadings U argument base ≠ none := by simp [hread]
      cases usable with
      | none =>
        refine forall_mem_cons.mpr ⟨⟨hne, fun readings heq => ?_⟩, ih h⟩
        rw [hread] at heq
        cases heq
      | some found =>
        obtain ⟨⟨matched, spool₁⟩, work₁, hmatched, h⟩ := run_bind_eq_some.mp h
        cases matched with
        | true => cases h
        | false =>
          refine forall_mem_cons.mpr ⟨⟨hne, fun readings heq => ?_⟩, ih h⟩
          rw [hread] at heq
          cases heq
          exact matchWordReadings_false hmatched

lemma matchArguments_false {tilde : Bool} {arguments : List (Text × Bool)} {left left' : Leftover}
    (h : (matchArguments U policy cwd tilde arguments left).run work = some ((false, left'), work')) :
    ∀ argument ∈ arguments, Misses U policy (expandTilde argument.1 tilde policy.home cwd) cwd := by
  induction arguments generalizing left work with
  | nil => exact fun _ hmem => nomatch hmem
  | cons argument arguments ih =>
    obtain ⟨⟨matched, spool⟩, work₁, hmatched, h⟩ := run_bind_eq_some.mp h
    cases matched with
    | true => cases h
    | false =>
      exact forall_mem_cons.mpr ⟨matchBases_false hmatched cwd mem_cons_self, ih h⟩

lemma matchWords_false {words : List (Text × Bool)} {left left' : Leftover}
    (h : (matchWords U policy cwd words left).run work = some ((false, left'), work')) :
    ∀ word ∈ words, ∀ argument ∈ shellArguments word.1,
      Misses U policy (expandTilde argument.1 word.2 policy.home cwd) cwd := by
  induction words generalizing left work with
  | nil => exact fun _ hmem => nomatch hmem
  | cons word words ih =>
    obtain ⟨⟨matched, left₁⟩, work₁, hmatched, h⟩ := run_bind_eq_some.mp h
    cases matched with
    | true => cases h
    | false => exact forall_mem_cons.mpr ⟨matchArguments_false hmatched, ih h⟩

lemma keep_command_inv {agent : AgentKind} {raw : Value} {command : ShellCommand}
    (hactive : policy.state = .active) (hshell : (extract agent raw).family = .nonFile)
    (hcommand : (extract agent raw).command = some command)
    (hkeep : (policy.inspect U agent raw cwd).protocol.disposition = .keep) :
    ∃ windows, (command.split windows).isOpaque = false ∧
      ∀ word ∈ (command.split windows).words, ∀ argument ∈ shellArguments word.1, Misses U policy
          (expandTilde argument.1 word.2 policy.home (commandBase (extract agent raw).workdir cwd))
          (commandBase (extract agent raw).workdir cwd) := by
  have hread := keep_read hactive hshell hkeep
  simp only [Extracted.Unread, not_or, Bool.not_eq_true] at hread
  change (policy.inspectExtracted U (extract agent raw) cwd).1 = .keep at hkeep
  rw [inspectExtracted, hactive] at hkeep
  dsimp only at hkeep
  rw [hread.1, hshell, hread.2.1, hread.2.2, hcommand] at hkeep
  change policy.inspectCommand U command (extract agent raw).workdir (extract agent raw).powershell
    cwd = .keep at hkeep
  rw [inspectCommand] at hkeep
  refine ⟨(extract agent raw).powershell || flavorOf cwd = .windows, ?_⟩
  cases hmatch : policy.matchCommand U
      (command.split ((extract agent raw).powershell || flavorOf cwd = .windows)).words
      (commandBase (extract agent raw).workdir cwd) with
  | none =>
    rw [hmatch] at hkeep
    cases hkeep
  | some found =>
    obtain ⟨matched, spool⟩ := found
    rw [hmatch] at hkeep
    cases matched with
    | true => cases hkeep
    | false =>
      dsimp only at hkeep
      split at hkeep
      · cases hkeep
      · rename_i hproven
        rw [Bool.or_eq_true, Bool.or_eq_true, not_or, not_or, Bool.not_eq_true] at hproven
        obtain ⟨⟨⟨matched, left⟩, work⟩, hrun, heq⟩ := Option.map_eq_some_iff.mp hmatch
        obtain rfl : matched = false := (Prod.mk.inj heq).1
        exact ⟨hproven.1.1, matchWords_false hrun⟩

/-- A POSIX pattern of the policy matches a file. -/
def MatchesBy (U : Unicode) (policy : CapturePolicy) (file : Text) (pattern : CompiledPattern) :
    Prop :=
  pattern ∈ policy.patterns ∧ pattern.flavor = .posix ∧ globMatch pattern.path
    (policy.foldCandidate U ⟨file, .posix⟩).path pattern.directoryBase policy.foldCase = true

end CapturePolicy

/-! ### Words that name a file -/

/-- A word that is read as a path and as nothing else. -/
structure NamingWord (word : Text) : Prop where
  short : word.length ≤ maxCandidatePathChars
  notBlank : word.all isWhitespace = false
  noBackslash : '\\' ∉ word
  noTilde : '~' ∉ word
  noFlag : word.head? ≠ some '-'
  noColon : word[1]? ≠ some ':'

namespace NamingWord

variable {word : Text} (h : NamingWord word)
include h

lemma isDriveRelative : isDriveRelative word = false := by
  unfold Capture.isDriveRelative
  split
  · exact absurd rfl h.noColon
  · rfl

lemma plainArgument : PlainArgument word := by
  refine ⟨h.noBackslash, .inl ?_⟩
  unfold validDrivePrefix
  split
  · exact absurd rfl h.noColon
  · rfl

lemma mem_shellArguments : (word, false) ∈ shellArguments word := by
  refine mem_filter.mpr ⟨?_, by rw [h.notBlank]; rfl⟩
  refine mem_append_left _ (mem_append_left _ (mem_append_left _ (mem_append_left _ ?_)))
  rw [if_neg h.noFlag]
  exact mem_singleton.mpr rfl

lemma expandTilde (tilde : Bool) (home : Option Text) (cwd : Text) :
    expandTilde word tilde home cwd = word := by
  unfold Capture.expandTilde
  split
  · rfl
  · split
    · exact absurd mem_cons_self h.noTilde
    · exact absurd mem_cons_self h.noTilde
    · exact absurd mem_cons_self h.noTilde
    · exact absurd mem_cons_self h.noTilde
    · rfl

end NamingWord

lemma head?_posixPath (parts : List Text) : (posixPath parts).head? = some '/' := by
  by_cases hne : parts = []
  · rw [hne]
    rfl
  · rw [posixPath_of_ne_nil hne]
    rfl

lemma CapturePolicy.foldCandidate_agrees {U : Unicode} {policy : CapturePolicy}
    {glob file : Text} (hfold : policy.foldCase → FoldsNames U)
    (h : Agrees glob file) (habs : file.head? = some '/') :
    (policy.foldCandidate U ⟨glob, .posix⟩).flavor = .posix ∧
      Agrees (policy.foldCandidate U ⟨glob, .posix⟩).path
        (policy.foldCandidate U ⟨file, .posix⟩).path ∧
      (policy.foldCandidate U ⟨file, .posix⟩).path.head? = some '/' := by
  unfold foldCandidate
  split
  · rename_i hcase
    have hU := hfold hcase
    refine ⟨rfl, hU.agrees h, ?_⟩
    obtain ⟨tail, rfl⟩ := head?_eq_some_iff.mp habs
    show (U.foldPath ('/' :: tail)).head? = some '/'
    rw [hU.cons (.inl rfl)]
    rfl
  · exact ⟨rfl, h, habs⟩

def ReadAlike (pieces : List Piece) : Prop := WellWritten pieces ∧ Splittable pieces

/-- A word of the line names a file that a pattern plainly matches, is read up to there as the
shell reads it, and starts from a directory that is. -/
structure NamesExcluded (U : Unicode) (policy : CapturePolicy) (base line word : Text) (n : ℕ) :
    Prop where
  written : Nested ReadAlike word n line
  naming : NamingWord word
  rooted : base.head? = some '/' ∧ base[1]? ≠ some ':'
  read : ReadAsNamed base word
  excluded : ∃ pattern, policy.MatchesBy U (posixFile word base) pattern ∧
    pattern.Plain (policy.foldCandidate U ⟨posixFile word base, .posix⟩).path policy.foldCase

/-- No shell command that names an excluded file is kept, however its words are quoted and
however often the line is quoted again. -/
theorem command_not_kept {U : Unicode} {source : CaptureSource} {marker : Text}
    {home : Option Text} {foldCase : Bool} {agent : AgentKind} {raw : Value}
    {cwd base line : Text} {policy : CapturePolicy}
    (hpolicy : CapturePolicy.resolveForHost U source marker home foldCase = policy)
    (hactive : policy.state = .active) (hfold : foldCase = true → FoldsNames U)
    (hshell : (extract agent raw).family = .nonFile)
    (hcommand : (extract agent raw).command = some (.line line))
    (hbase : commandBase (extract agent raw).workdir cwd = base)
    (hexcluded : (extract agent raw).Unread ∨ ∃ n word, NamesExcluded U policy base line word n) :
    (policy.inspect U agent raw cwd).protocol.disposition ≠ .keep := by
  intro hkeep
  rcases hexcluded with hunread | ⟨n, word, hline, hnaming, ⟨habsolute, hcolon⟩, hread, hexcluded⟩
  · exact keep_read hactive hshell hkeep hunread
  have hderived : ∀ pattern ∈ policy.patterns, pattern.Derived := by
    rw [← hpolicy]
    exact derived_resolveForHost hfold
  have hnames : policy.foldCase = true → FoldsNames U := fun hcase =>
    hfold (foldCase_resolveForHost (hpolicy ▸ hcase))
  obtain ⟨windows, hopen, hmisses⟩ := CapturePolicy.keep_command_inv hactive hshell hcommand hkeep
  rw [hbase] at hmisses
  -- the word is among the words of the command
  have hreached := split_nested (fun _ h => h) hline hnaming.noBackslash windows
  obtain ⟨tilde, hmem⟩ : ∃ tilde, (word, tilde) ∈ ((ShellCommand.line line).split windows).words := by
    rcases hreached with hfound | hunproven
    · exact hfound
    · rw [hopen] at hunproven
      cases hunproven
  have hmiss := hmisses _ hmem _ hnaming.mem_shellArguments
  rw [hnaming.expandTilde] at hmiss
  -- and one of its readings agrees with the file
  rcases normalizeReadings_agrees U hread habsolute hcolon hnaming.notBlank hnaming.short
      hnaming.isDriveRelative with hnone | ⟨readings, hreadings, glob, hglob, hagrees⟩
  · exact hmiss.read hnone
  obtain ⟨pattern, ⟨hpattern, hflavor, hmatch⟩, hplain⟩ := hexcluded
  obtain ⟨hposix, hfolded, habs⟩ := CapturePolicy.foldCandidate_agrees hnames hagrees
    (head?_posixPath _)
  have hfor : pattern ∈ policy.patternsFor (policy.foldCandidate U ⟨glob, .posix⟩) :=
    mem_filter.mpr ⟨hpattern, decide_eq_true (hflavor.trans hposix.symm)⟩
  have hfalse := hmiss.miss readings hreadings _ hglob pattern hfor
  rw [hposix] at hfalse
  have htrue := hits (hderived pattern hpattern) hplain habs hfolded hmatch
  exact absurd (htrue.symm.trans hfalse) (by decide)

/-- A call of the `Bash` tool. -/
def bashCall (command : String) : Value :=
  .object [("tool_name", .string "Bash"), ("tool_input", .object [("command", .string command)])]

theorem command_not_kept_again :
    ((ignoring ["secret.md"] "/repo").inspect asciiUnicode .claudeCode
      (bashCall "bash -c \"cat \\\"sub/..\\\"'/secret.md'\"") "/repo".toList).protocol.disposition ≠
        .keep := by
  have hcat : ReadAlike ("cat".toList.map .plain) := by
    have hall : ("cat".toList.all fun c => shellPlain c && !isWhitespace c) = true := by decide
    refine plain_wellWritten (by decide) fun c hc => ?_
    simpa using all_eq_true.mp hall c hc
  have hfile : ReadAlike [.double "sub/..".toList, .single "/secret.md".toList] := by
    refine ⟨⟨by decide, ?_⟩, by decide, fun c hc => by simp at hc⟩
    have hquote : '\'' ∉ "/secret.md".toList := by decide
    exact forall_mem_cons.mpr ⟨trivial, forall_mem_singleton.mpr hquote⟩
  have hscript : ReadAlike [.double "cat \"sub/..\"'/secret.md'".toList] :=
    ⟨⟨by decide, forall_mem_singleton.mpr trivial⟩, by decide, fun c hc => by simp at hc⟩
  have hblank : Blanks [' '] := ⟨by decide, fun c hc => .inl (mem_singleton.mp hc)⟩
  have hwords : LineOf ([("cat".toList.map .plain)] ++
      [.double "sub/..".toList, .single "/secret.md".toList] :: [])
      "cat \"sub/..\"'/secret.md'".toList := .more _ hblank (.last _)
  have hline : Nested ReadAlike "sub/../secret.md".toList 1
      "bash -c \"cat \\\"sub/..\\\"'/secret.md'\"".toList :=
    .again (.line hwords (by decide +kernel)
      (forall_mem_cons.mpr ⟨hcat, forall_mem_singleton.mpr hfile⟩) (forall_mem_nil _))
      (by decide +kernel) hscript
  have hnaming : NamingWord "sub/../secret.md".toList :=
    ⟨by decide +kernel, by decide +kernel, by decide +kernel, by decide +kernel, by decide +kernel,
      by decide +kernel⟩
  have hpatterns : (ignoring ["secret.md"] "/repo").patterns =
      [⟨"/repo/secret.md".toList, .posix, none, "/repo/secret.md".toList⟩] := by decide +kernel
  refine command_not_kept rfl (by decide +kernel) (fun h => nomatch h) (by decide +kernel)
    (by decide +kernel) (by decide +kernel : _ = "/repo".toList) (.inr ⟨1, _, hline, hnaming,
      by decide +kernel, ⟨hnaming.plainArgument, by decide +kernel, .inr (by decide +kernel)⟩,
      _, ⟨hpatterns ▸ mem_singleton.mpr rfl, rfl, by decide +kernel⟩,
      .inl (by decide +kernel)⟩)

/-- Behind an escaped `$` the splitter takes a quote for the start of an ANSI-C string, in which
a backslash escapes the closing quote, and a later `\e` is a control character. -/
theorem escaped_dollar_kept :
    (ignoring ["key"] "/repo").state = .active ∧
      (extract .claudeCode (bashCall "cat \\$'\\' k\\ey")).family = .nonFile ∧
      (extract .claudeCode (bashCall "cat \\$'\\' k\\ey")).command =
        some (.line "cat \\$'\\' k\\ey".toList) ∧
      (extract .claudeCode (bashCall "cat \\$'\\' k\\ey")).workdir = none ∧
      Nested WellWritten "key".toList 0 "cat \\$'\\' k\\ey".toList ∧
      NamingWord "key".toList ∧
      (ignoring ["key"] "/repo").MatchesBy asciiUnicode (posixFile "key".toList "/repo".toList)
        ⟨"/repo/key".toList, .posix, none, "/repo/key".toList⟩ ∧
      ((ignoring ["key"] "/repo").inspect asciiUnicode .claudeCode
        (bashCall "cat \\$'\\' k\\ey") "/repo".toList).protocol.disposition = .keep := by
  have hcat : WellWritten ("cat".toList.map .plain) := by
    have hall : ("cat".toList.all fun c => shellPlain c && !isWhitespace c) = true := by decide
    refine (plain_wellWritten (by decide) fun c hc => ?_).1
    simpa using all_eq_true.mp hall c hc
  have hdollar : WellWritten [.escaped '$', .single ['\\']] := by
    have hnewline : '$' ≠ '\n' := by decide
    have hquote : '\'' ∉ ['\\'] := by decide
    exact ⟨by decide, forall_mem_cons.mpr ⟨hnewline, forall_mem_singleton.mpr hquote⟩⟩
  have hkey : WellWritten [.plain 'k', .escaped 'e', .plain 'y'] := by
    have hnewline : 'e' ≠ '\n' := by decide
    have hplain : ∀ c ∈ ['k', 'y'], shellPlain c = true := by simp [shellPlain, isOperator]
    exact ⟨by decide, forall_mem_cons.mpr ⟨hplain 'k' (by decide), forall_mem_cons.mpr
      ⟨hnewline, forall_mem_singleton.mpr (hplain 'y' (by decide))⟩⟩⟩
  have hblank : Blanks [' '] := ⟨by decide, fun c hc => .inl (mem_singleton.mp hc)⟩
  have hline : LineOf (["cat".toList.map .plain, [.escaped '$', .single ['\\']]] ++
      [.plain 'k', .escaped 'e', .plain 'y'] :: []) "cat \\$'\\' k\\ey".toList :=
    .more _ hblank (.more _ hblank (.last _))
  refine ⟨by decide +kernel, by decide +kernel, by decide +kernel, by decide +kernel, ?_,
    ⟨by decide +kernel, by decide +kernel, by decide +kernel, by decide +kernel, by decide +kernel,
      by decide +kernel⟩, ?_, by decide +kernel⟩
  · exact .line hline (by decide +kernel) (forall_mem_cons.mpr ⟨hcat, forall_mem_cons.mpr ⟨hdollar,
      forall_mem_singleton.mpr hkey⟩⟩) (forall_mem_nil _)
  · exact ⟨by decide +kernel, rfl, by decide +kernel⟩

end Capture
