/-
Candidates and the patterns of a policy.

The patterns of a marker's policy are compared with one reading of an argument.  A reading
without globs passes when a pattern declares it, a reading with globs when it reaches something
a pattern declares, and a directory of `read_many_files` when something below it is declared.
Three kinds of spelling are exceptions.
-/
import AiMemory.Hooks.Reaches

open Strings Globs Fallible List

namespace Capture

def StarForShare (glob pattern : Text) : Prop :=
  ['/', '*', '/'] <+: glob ∧ ['/', '/'] <+: pattern

section
variable {insensitive : Bool} {glob : Text}

lemma RootedPath.rooted_of_glob (h : RootedPath glob) (hany : ¬GlobFree glob) :
    Rooted (glob.splitOn '/') := by
  rcases h with h | ⟨lead, hlead, hsplit⟩
  · exact h
  · have hpath : ['/'].intercalate (glob.splitOn '/') = glob := intercalate_splitOn '/'
    rw [hsplit, intercalate_cons_cons, intercalate_singleton, append_nil] at hpath
    refine absurd (fun c hc => ?_) hany
    rw [← hpath] at hc
    rcases mem_append.mp hc with hc | hc
    · exact hlead c hc
    · rw [mem_singleton.mp hc]
      rfl

lemma testsOf_glob {toolGlob : Bool} {pattern : CompiledPattern} {path : Text}
    (h : pattern.Sound) (hglob : RootedPath glob) (hany : ¬GlobFree glob)
    (hserver : ¬StarsInServer glob) (hshare : ¬StarForShare glob pattern.path)
    (hmatch : StandsFor insensitive glob path)
    (hdeclares : Declares insensitive pattern.path path) :
    testsOf toolGlob pattern glob insensitive := by
  have hchars : glob.any isGlobChar := by
    by_contra hno
    refine hany fun c hc => (Bool.not_eq_true _).mp fun hc' => ?_
    exact hno (any_eq_true.mpr ⟨c, hc, hc'⟩)
  have hanchor := anchors_trimmed h hdeclares
  have hlast := trimEnd_getLast? pattern.literalPrefix
  -- the prefix without its separators is a beginning of the pattern
  obtain ⟨more, hpattern, hbound⟩ : ∃ more,
      pattern.path = trimEndBy (· = '/') pattern.literalPrefix ++ more ∧
        (more = [] ∨ more.head? = some '/' ∨ trimEndBy (· = '/') pattern.literalPrefix = []) := by
    obtain ⟨-, more, hpattern, hbound⟩ := literalPrefix_spec pattern.path
    rw [← h.literalPrefix] at hpattern hbound
    obtain ⟨slashes, hbegin, hslashes⟩ := trimEndBy_append (· = '/') pattern.literalPrefix
    refine ⟨slashes ++ more, ?_, ?_⟩
    · rw [← append_assoc, ← hbegin]
      exact hpattern
    · cases slashes with
      | nil =>
        rw [append_nil] at hbegin
        rw [nil_append, ← hbegin]
        rcases hbound with hnil | hnone | hmore | hslash
        · exact .inr (.inr hnil)
        · exact .inl hnone
        · exact .inr (.inl hmore)
        · rw [← hbegin] at hlast
          exact absurd hslash hlast
      | cons c slashes =>
        right
        left
        exact congrArg some (of_decide_eq_true (hslashes c mem_cons_self))
  have htrimmed : Rooted ((trimEndBy (· = '/') pattern.literalPrefix).splitOn '/') ∧
      ([[], []] <+: (trimEndBy (· = '/') pattern.literalPrefix).splitOn '/' →
        ['/', '/'] <+: pattern.path) := by
    rcases or_assoc.mpr hbound with hbound | hnil
    · exact rooted_trimmed h.rooted hpattern hbound hlast
    · rw [hnil]
      refine ⟨.posix fun _ hmem => (nomatch hmem), fun hshort => ?_⟩
      exact absurd hshort.length_le (by decide)
  have hrooted := hglob.rooted_of_glob hany
  have hstar : ¬StarForSeparator (glob.splitOn '/')
      ((trimEndBy (· = '/') pattern.literalPrefix).splitOn '/') := by
    rintro ⟨⟨rest, hglobs⟩, hsecond⟩
    have hwhole : ['/'].intercalate (glob.splitOn '/') = glob := intercalate_splitOn '/'
    rw [← hglobs] at hwhole
    cases rest with
    | nil =>
      -- the path has two segments, and the prefix a third
      have hpair : NoPair glob := by
        rw [← hwhole]
        rintro ⟨front, back, heq⟩
        have hstars := congrArg (List.count '*') heq
        simp [intercalate_cons_cons] at hstars
        omega
      have htwo := (matches_segments hpair (hmatch.matches hpair)).length_eq
      obtain ⟨firsts, hfirsts, hsame⟩ := hanchor.segments hlast
      have hless := hfirsts.length_le
      rw [← htwo, ← hglobs, ← hsame.length_eq] at hless
      have heq := hsecond.eq_of_length_le hless
      have hempty : ((trimEndBy (· = '/') pattern.literalPrefix).splitOn '/').getLast? = some [] := by
        rw [← heq]
        rfl
      rcases getLast?_splitOn hempty with hnil | hslash
      · rw [hnil] at heq
        cases heq
      · exact hlast hslash
    | cons third rest =>
      refine hshare ⟨⟨['/'].intercalate (third :: rest), ?_⟩, htrimmed.2 hsecond⟩
      rw [← hwhole]
      simp [intercalate_cons_cons]
  have hreaches := globstarReaches_of_matches hglob hserver hrooted htrimmed.1 hlast hstar hmatch hanchor
  rw [globstarReaches_trimEnd] at hreaches
  rw [testsOf, hchars, hreaches]
  simp

end

namespace CapturePolicy

variable {U : Unicode} {source : CaptureSource} {marker : Text} {home : Option Text}
  {foldCase : Bool}

def ignoresCase (policy : CapturePolicy) (toolGlob : Bool) (candidate : Normalized) : Bool :=
  toolGlob || candidate.flavor = .windows || policy.foldCase

structure Declaring (policy : CapturePolicy) (toolGlob : Bool) (compared : Normalized)
    (path : Text) (pattern : CompiledPattern) : Prop where
  mem : pattern ∈ policy.patternsFor compared
  declares : Declares (policy.ignoresCase toolGlob compared) pattern.path path

/-- Each reading of an argument passes as its globs, or the paths below it, are declared: one
without globs exactly when a pattern declares it that does not lose it, one with globs when no
exception holds, and a directory of `read_many_files` always. -/
theorem matchPatternCandidate_declared {argument cwd : Text} {readings : List Normalized}
    {candidate : Normalized} {policy : CapturePolicy} {toolGlob result : Bool} {work work' : ℕ}
    (hpolicy : policy = resolveForHost U source marker home foldCase)
    (hmarker : GlobFree marker) (hhome : ∀ directory ∈ home, GlobFree directory)
    (hU : foldCase = true → FoldsGlobs U)
    (hread : normalizeReadings U argument cwd = some (some readings)) (hmem : candidate ∈ readings)
    (hrun : (policy.matchPatternCandidate U candidate toolGlob).run work = some (result, work')) :
    (toolGlob = false → GlobFree candidate.path →
      ((result = true ↔ ∃ pattern, policy.Declaring toolGlob (policy.foldCandidate U candidate)
          (policy.foldCandidate U candidate).path pattern) ↔
        ((∃ pattern, policy.Declaring toolGlob (policy.foldCandidate U candidate)
            (policy.foldCandidate U candidate).path pattern) →
          ∃ pattern, policy.Declaring toolGlob (policy.foldCandidate U candidate)
              (policy.foldCandidate U candidate).path pattern ∧
            ¬LosesDirectory (policy.ignoresCase toolGlob (policy.foldCandidate U candidate))
              pattern.path (policy.foldCandidate U candidate).path))) ∧
    (¬GlobFree candidate.path → ∀ pattern path,
      policy.Declaring toolGlob (policy.foldCandidate U candidate) path pattern →
      StandsFor (policy.ignoresCase toolGlob (policy.foldCandidate U candidate))
        (policy.foldCandidate U candidate).path path →
      ¬StarsInServer (policy.foldCandidate U candidate).path →
      ¬StarForShare (policy.foldCandidate U candidate).path pattern.path → result = true) ∧
    (toolGlob = true → GlobFree candidate.path → ∀ pattern path,
      policy.Declaring toolGlob (policy.foldCandidate U candidate) path pattern →
      path = (policy.foldCandidate U candidate).path ∨
        Below (policy.foldCandidate U candidate).path path → result = true) := by
  have hsound : ∀ pattern ∈ policy.patternsFor (policy.foldCandidate U candidate), pattern.Sound := by
    intro pattern hpattern
    have hin := (mem_filter.mp hpattern).1
    rw [hpolicy] at hin
    exact sound_resolveForHost hU hmarker hhome pattern hin
  have hcase : policy.foldCase = true → FoldsGlobs U := fun hfold =>
    hU (foldCase_resolveForHost (hpolicy ▸ hfold))
  -- folding keeps the root of a reading and its globs
  have hcompared : RootedPath (policy.foldCandidate U candidate).path ∧
      (GlobFree (policy.foldCandidate U candidate).path ↔ GlobFree candidate.path) := by
    have hrooted := rooted_normalizeReadings hread candidate hmem
    rw [foldCandidate]
    split
    · rename_i hfold
      exact ⟨(hcase hfold).rooted hrooted, (hcase hfold).globFree⟩
    · exact ⟨hrooted, Iff.rfl⟩
  have hresult := matchPattern_run hrun
  have hinsensitive : (toolGlob || (policy.foldCandidate U candidate).flavor = .windows ||
      policy.foldCase) = policy.ignoresCase toolGlob (policy.foldCandidate U candidate) := rfl
  rw [hinsensitive] at hresult
  generalize policy.foldCandidate U candidate = compared at hsound hcompared hresult ⊢
  have hpass : ∀ pattern ∈ policy.patternsFor compared,
      testsOf toolGlob pattern compared.path (policy.ignoresCase toolGlob compared) = true →
        result = true := by
    intro pattern hpattern htest
    rw [hresult]
    exact any_eq_true.mpr ⟨pattern, hpattern, htest⟩
  refine ⟨fun htool hfree => ?_, fun hany pattern path hdeclaring hmatch hserver hshare => ?_,
    fun htool hfree pattern path hdeclaring hpath => ?_⟩
  · subst htool
    have hexact : result = true ↔ ∃ pattern, policy.Declaring false compared compared.path pattern ∧
        ¬LosesDirectory (policy.ignoresCase false compared) pattern.path compared.path := by
      rw [hresult, any_eq_true]
      constructor
      · rintro ⟨pattern, hpattern, htest⟩
        have htests := (testsOf_literal (hsound pattern hpattern) (hcompared.2.mpr hfree)).mp htest
        exact ⟨pattern, ⟨hpattern, htests.1⟩, htests.2⟩
      · rintro ⟨pattern, hdeclaring, hlost⟩
        exact ⟨pattern, hdeclaring.mem, (testsOf_literal (hsound pattern hdeclaring.mem)
          (hcompared.2.mpr hfree)).mpr ⟨hdeclaring.declares, hlost⟩⟩
    rw [hexact]
    constructor
    · exact fun h => h.mpr
    · intro h
      exact ⟨Exists.imp fun _ hboth => hboth.1, h⟩
  · have hany' : ¬GlobFree compared.path := fun hfree => hany (hcompared.2.mp hfree)
    exact hpass pattern hdeclaring.mem (testsOf_glob (hsound pattern hdeclaring.mem) hcompared.1 hany'
      hserver hshare hmatch hdeclaring.declares)
  · subst htool
    exact hpass pattern hdeclaring.mem (testsOf_directory (hsound pattern hdeclaring.mem)
      (hcompared.2.mpr hfree) hpath hdeclaring.declares)

lemma foldsGlobs_ascii : FoldsGlobs asciiUnicode where
  nil := rfl
  append := fun _ _ _ _ => rfl
  name := fun _ hne hslash => ⟨hne, hslash⟩
  mark := fun _ _ => rfl
  star_notMem := fun _ h => h
  mark_notMem := fun _ h => h

/-- A marker that ignores its `docs`, on a host that folds case. -/
def ignoringDocs : CapturePolicy :=
  resolveForHost asciiUnicode (.parsed ["docs/**".toList]) "/repo".toList none true

theorem matchPatternCandidate_declared_docs :
    (ignoringDocs.matchPatternCandidate asciiUnicode ⟨"/repo/docs/a".toList, .posix⟩ false).run 0 =
        some (true, 276) ∧
      ((true = true ↔ ∃ pattern, ignoringDocs.Declaring false
          (ignoringDocs.foldCandidate asciiUnicode ⟨"/repo/docs/a".toList, .posix⟩)
          (ignoringDocs.foldCandidate asciiUnicode ⟨"/repo/docs/a".toList, .posix⟩).path pattern) ↔
        ((∃ pattern, ignoringDocs.Declaring false
            (ignoringDocs.foldCandidate asciiUnicode ⟨"/repo/docs/a".toList, .posix⟩)
            (ignoringDocs.foldCandidate asciiUnicode ⟨"/repo/docs/a".toList, .posix⟩).path pattern) →
          ∃ pattern, ignoringDocs.Declaring false
              (ignoringDocs.foldCandidate asciiUnicode ⟨"/repo/docs/a".toList, .posix⟩)
              (ignoringDocs.foldCandidate asciiUnicode ⟨"/repo/docs/a".toList, .posix⟩).path pattern ∧
            ¬LosesDirectory (ignoringDocs.ignoresCase false
                (ignoringDocs.foldCandidate asciiUnicode ⟨"/repo/docs/a".toList, .posix⟩)) pattern.path
              (ignoringDocs.foldCandidate asciiUnicode ⟨"/repo/docs/a".toList, .posix⟩).path)) := by
  have hmarker : GlobFree "/repo".toList := globFree_iff.mpr (by decide)
  have hfree : GlobFree "/repo/docs/a".toList := globFree_iff.mpr (by decide)
  have hread : normalizeReadings asciiUnicode "docs/a".toList "/repo".toList =
      some (some [⟨"/repo/docs/a".toList, .posix⟩]) := by decide +kernel
  have hrun : (ignoringDocs.matchPatternCandidate asciiUnicode ⟨"/repo/docs/a".toList, .posix⟩
      false).run 0 = some (true, 276) := by decide +kernel
  have hhome : ∀ directory ∈ (none : Option Text), GlobFree directory :=
    fun _ hnone => nomatch hnone
  exact ⟨hrun, (matchPatternCandidate_declared rfl hmarker hhome (fun _ => foldsGlobs_ascii) hread
    mem_cons_self hrun).1 rfl hfree⟩

/-- The directory of `/a:/**` is declared, and passes no test. -/
theorem colon_directory_lost :
    normalizeReadings asciiUnicode "/a:".toList "/repo".toList =
        some (some [⟨"/a:".toList, .posix⟩]) ∧
      ((ignoring ["/a:/**"] "/repo").matchPatternCandidate asciiUnicode ⟨"/a:".toList, .posix⟩
        false).run 0 = some (false, 0) ∧
      ∃ pattern, (ignoring ["/a:/**"] "/repo").Declaring false ⟨"/a:".toList, .posix⟩ "/a:".toList
        pattern := by
  refine ⟨by decide +kernel, by decide +kernel, ⟨"/a:/**".toList, .posix, some "/a:".toList,
    "/a:/".toList⟩, by decide +kernel, .inr ⟨"/a:".toList, by decide, rfl, ?_⟩⟩
  exact .lit rfl (.lit rfl (.lit rfl .nil))

end CapturePolicy

end Capture
