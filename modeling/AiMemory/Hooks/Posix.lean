/-
Paths of a POSIX host, as a POSIX system reads them and as the policy does.

A POSIX system splits a path at `/` only and takes a relative one from the working directory.
The policy's reading is the same for a path without backslashes that does not look like a
drive.

* `ReadAsNamed.normalizeCandidates` — and its normalized one.
-/
import AiMemory.Hooks.Readings

open Strings List

namespace Capture

open Option (some.inj)

def posixPath (parts : List Text) : Text := joinSegments ['/'] parts

/-- The segments of an argument, behind those of the working directory when it is relative. -/
def posixSegments (argument cwd : Text) : List Text :=
  if argument.head? = some '/' then argument.splitOn '/'
  else cwd.splitOn '/' ++ argument.splitOn '/'

/-- The file a POSIX system names by an argument, with `.` and `..` resolved lexically. -/
def posixFile (argument cwd : Text) : Text :=
  posixPath (resolve [] (posixSegments argument cwd))

structure PosixDir (cwd : Text) : Prop where
  absolute : cwd.head? = some '/'
  single : cwd[1]? ≠ some '/'
  noBackslash : '\\' ∉ cwd

/-- An argument that no Windows reading touches. -/
structure PlainArgument (argument : Text) : Prop where
  noBackslash : '\\' ∉ argument
  noDrive : validDrivePrefix argument = false ∨ argument[2]? ≠ some '/'

/-! ### Segments -/

def significant (parts : List Text) : List Text :=
  parts.filter fun part => part ≠ [] ∧ part ≠ ['.']

lemma significant_append (a b : List Text) :
    significant (a ++ b) = significant a ++ significant b := filter_append ..

lemma resolve_append (parts a b : List Text) :
    resolve parts (a ++ b) = resolve (resolve parts a) b := foldl_append ..

lemma resolve_significant (parts tail : List Text) :
    resolve parts (significant tail) = resolve parts tail := by
  induction tail generalizing parts with
  | nil => rfl
  | cons part tail ih =>
    by_cases hpart : part = [] ∨ part = ['.']
    · have hskip : significant (part :: tail) = significant tail := by
        rcases hpart with rfl | rfl <;> rfl
      rw [hskip, ih]
      change resolve parts tail = resolve (resolveStep parts part) tail
      rw [resolveStep, if_pos hpart]
    · have hkeep : significant (part :: tail) = part :: significant tail := by
        rw [not_or] at hpart
        simp [significant, hpart]
      rw [hkeep]
      exact ih (resolveStep parts part)

def IsName (part : Text) : Prop := part ≠ [] ∧ part ≠ ['.'] ∧ part ≠ dotdot

variable {parts : List Text} {raw argument cwd : Text}

lemma resolveStep_name {part : Text} (h : IsName part) :
    resolveStep parts part = parts ++ [part] := by
  rw [resolveStep, if_neg (by simp [h.1, h.2.1])]
  exact if_neg h.2.2

lemma resolve_names {parts names : List Text} (h : ∀ part ∈ names, IsName part) :
    resolve parts names = parts ++ names := by
  induction names generalizing parts with
  | nil => rw [append_nil]; rfl
  | cons part names ih =>
    change resolve (resolveStep parts part) names = _
    rw [resolveStep_name (h part mem_cons_self),
      ih fun part hpart => h part (mem_cons_of_mem _ hpart), append_assoc]
    rfl

lemma resolve_all {P : Text → Prop} {parts tail : List Text} (hparts : ∀ part ∈ parts, P part)
    (htail : ∀ part ∈ tail, IsName part → P part) : ∀ part ∈ resolve parts tail, P part := by
  induction tail generalizing parts with
  | nil => exact hparts
  | cons part tail ih =>
    refine ih ?_ fun p hp => htail p (mem_cons_of_mem _ hp)
    unfold resolveStep
    split
    · exact hparts
    · rename_i hsome
      split
      · exact fun p hp => hparts p (dropLast_subset _ hp)
      · rename_i hdots
        rw [not_or] at hsome
        intro p hp
        rcases mem_append.mp hp with hp | hp
        · exact hparts p hp
        · rw [mem_singleton.mp hp]
          exact htail part mem_cons_self ⟨hsome.1, hsome.2, hdots⟩

lemma resolve_isName (tail : List Text) : ∀ part ∈ resolve [] tail, IsName part :=
  resolve_all (fun _ h => nomatch h) fun _ _ h => h

lemma notSeparator_segment {p : Char → Bool} {s segment : Text}
    (h : segment ∈ s.splitOnP p) : ∀ c ∈ segment, p c = false := by
  induction s generalizing segment with
  | nil =>
    obtain rfl := mem_singleton.mp h
    exact fun _ hmem => (nomatch hmem)
  | cons a s ih =>
    rw [splitOnP_cons_eq_if_modifyHead] at h
    by_cases ha : p a
    · rw [if_pos ha] at h
      rcases mem_cons.mp h with rfl | h
      · exact fun _ hmem => (nomatch hmem)
      · exact ih h
    · rw [if_neg ha] at h
      cases hsplit : s.splitOnP p with
      | nil => exact absurd hsplit (splitOnP_ne_nil p s)
      | cons first rest =>
        rw [hsplit, modifyHead_cons] at h
        rcases mem_cons.mp h with rfl | h
        · have hfirst := ih (hsplit ▸ mem_cons_self)
          exact forall_mem_cons.mpr ⟨by simpa using ha, hfirst⟩
        · exact ih (hsplit ▸ mem_cons_of_mem _ h)

lemma splitOnP_separator {s : Text} (h : '\\' ∉ s) : s.splitOnP isSeparator = s.splitOn '/' := by
  induction s with
  | nil => rfl
  | cons c s ih =>
    obtain ⟨hc, hs⟩ := ne_and_not_mem_of_not_mem_cons h
    have hsep : isSeparator c ↔ c = '/' := by
      have : ¬c = '\\' := fun heq => hc heq.symm
      simp [isSeparator, this]
    rw [splitOnP_cons_eq_if_modifyHead, splitOn_cons, ih hs]
    by_cases hslash : c = '/'
    · rw [if_pos (hsep.mpr hslash), if_pos hslash]
    · rw [if_neg (fun h => hslash (hsep.mp h)), if_neg hslash]

lemma posixPath_of_ne_nil (h : parts ≠ []) :
    posixPath parts = '/' :: ['/'].intercalate parts := by
  have hroot : (['/'] : Text).getLast? = some '/' := rfl
  rw [posixPath, joinSegments, if_neg h, if_pos hroot]
  rfl

lemma splitOn_posixPath (hne : parts ≠ [])
    (h : ∀ part ∈ parts, '/' ∉ part) : (posixPath parts).splitOn '/' = [] :: parts := by
  rw [posixPath_of_ne_nil hne, splitOn_cons, if_pos rfl, splitOn_intercalate '/' h hne]

lemma significant_posixPath (h : ∀ part ∈ parts, IsName part ∧ '/' ∉ part) :
    significant ((posixPath parts).splitOn '/') = parts := by
  by_cases hparts : parts = []
  · rw [hparts]
    rfl
  · rw [splitOn_posixPath hparts fun part hpart => (h part hpart).2]
    show significant parts = parts
    refine filter_eq_self.mpr fun part hpart => ?_
    simp [(h part hpart).1.1, (h part hpart).1.2.1]

lemma splitRoot_posix (h : PosixDir raw) :
    splitRoot raw = some (['/'], (raw.drop 1).splitOn '/') := by
  obtain ⟨habs, hsingle, hslash⟩ := h
  cases raw with
  | nil => cases habs
  | cons c rest =>
    obtain rfl : c = '/' := some.inj habs
    have hsecond : separatorAt ('/' :: rest) 1 = false := by
      cases rest with
      | nil => rfl
      | cons d rest =>
        have hd : d ≠ '/' := fun heq => hsingle (by rw [heq]; rfl)
        have hd' : d ≠ '\\' := fun heq => hslash (by rw [heq]; simp)
        change isSeparator d = false
        simp [isSeparator, hd, hd']
    have hrest : '\\' ∉ rest := fun hmem => hslash (mem_cons_of_mem _ hmem)
    have hdrive : validDrivePrefix ('/' :: rest) = false := by
      unfold validDrivePrefix
      split
      · rename_i heq
        cases heq
        rfl
      · rfl
    have hfirst : separatorAt ('/' :: rest) 0 := rfl
    rw [splitRoot, hsecond, hdrive, hfirst]
    simp only [Bool.and_false, Bool.false_eq_true, if_false, Bool.false_and, if_true, drop_one,
      tail_cons, splitOnP_separator hrest]

lemma flavorOf_posix (h : PosixDir raw) : flavorOf raw = .posix := by
  obtain ⟨habs, hsingle, -⟩ := h
  cases raw with
  | nil => cases habs
  | cons c rest =>
    obtain rfl : c = '/' := some.inj habs
    cases rest with
    | nil => rfl
    | cons d rest =>
      have hd : ¬ '/' = d := fun heq => hsingle (by rw [← heq]; rfl)
      have hdrive : validDrivePrefix ('/' :: d :: rest) = false := by
        unfold validDrivePrefix
        split
        · rename_i heq
          cases heq
          rfl
        · rfl
      simp [flavorOf, hdrive, List.isPrefixOf, hd]

lemma significant_drop (h : raw.head? = some '/') :
    significant ((raw.drop 1).splitOn '/') = significant (raw.splitOn '/') := by
  cases raw with
  | nil => cases h
  | cons c rest =>
    obtain rfl : c = '/' := some.inj h
    rw [splitOn_cons, if_pos rfl]
    rfl

lemma normalizeSegments_posix (h : PosixDir raw) :
    normalizeSegments raw = some (posixPath (resolve [] (raw.splitOn '/'))) := by
  rw [normalizeSegments, splitRoot_posix h, Option.map_some, ← resolve_significant,
    significant_drop h.absolute, resolve_significant]
  rfl

lemma isAbsolute_plain {argument : Text} (h : PlainArgument argument) :
    isAbsolute argument ↔ argument.head? = some '/' := by
  have hunc : ['\\', '\\'].isPrefixOf argument = false := by
    cases argument with
    | nil => rfl
    | cons c rest =>
      have hc : ¬ '\\' = c := fun heq => h.noBackslash (by rw [← heq]; simp)
      simp [List.isPrefixOf, hc]
  have hdrive : (validDrivePrefix argument && separatorAt argument 2) = false := by
    rcases h.noDrive with hno | hno
    · rw [hno]
      rfl
    · have hthird : separatorAt argument 2 = false := by
        unfold separatorAt
        cases hget : argument[2]? with
        | none => rfl
        | some c =>
          have hslash : c ≠ '/' := fun heq => hno (by rw [hget, heq])
          have hback : c ≠ '\\' := by
            rintro rfl
            exact h.noBackslash (mem_of_getElem? hget)
          simp [isSeparator, hslash, hback]
      rw [hthird, Bool.and_false]
  rw [isAbsolute, hunc, hdrive, Bool.or_false, Bool.or_false]
  cases argument with
  | nil => decide
  | cons c rest =>
    by_cases hc : c = '/'
    · simp [hc]
    · have hc' : ¬ '/' = c := fun heq => hc heq.symm
      simp [List.isPrefixOf, hc, hc']

lemma resolve_cwd {cwd : Text} (h : '\\' ∉ cwd) :
    ∀ part ∈ resolve [] (cwd.splitOn '/'), IsName part ∧ '/' ∉ part ∧ '\\' ∉ part := by
  refine resolve_all (fun _ h => nomatch h) fun part hpart hname => ?_
  exact ⟨hname, notMem_segment hpart, fun hmem => h (mem_of_mem_segment hpart hmem)⟩

def PathNames (parts : List Text) : Prop :=
  ∀ part ∈ parts, IsName part ∧ '/' ∉ part ∧ '\\' ∉ part

lemma posixDir_posixPath (h : PathNames parts) :
    PosixDir (posixPath parts) := by
  by_cases hne : parts = []
  · rw [hne]
    exact ⟨rfl, by decide, by decide⟩
  have hsplit := splitOn_posixPath hne fun part hpart => (h part hpart).2.1
  have hpath := posixPath_of_ne_nil hne
  refine ⟨by rw [hpath]; rfl, ?_, ?_⟩
  · -- a second slash would leave an empty name
    intro hsecond
    rw [hpath, getElem?_cons_succ] at hsecond
    rw [hpath, splitOn_cons, if_pos rfl] at hsplit
    cases hrest : ['/'].intercalate parts with
    | nil =>
      rw [hrest] at hsecond
      cases hsecond
    | cons c rest =>
      rw [hrest] at hsecond hsplit
      obtain rfl : c = '/' := some.inj hsecond
      rw [splitOn_cons, if_pos rfl] at hsplit
      have hempty : [] ∈ parts := (List.cons.inj hsplit).2 ▸ mem_cons_self
      exact (h [] hempty).1.1 rfl
  · intro hmem
    obtain ⟨segment, hsegment, hin⟩ := mem_segment (c := '/') hmem (by decide)
    rw [hsplit] at hsegment
    rcases mem_cons.mp hsegment with rfl | hsegment
    · cases hin
    · exact (h segment hsegment).2.2 hin

lemma trimEndBy_posixPath (hne : parts ≠ []) (h : PathNames parts) :
    trimEndBy isSeparator (posixPath parts) = posixPath parts := by
  refine trimEndBy_eq_self fun c hc => ?_
  have hmem : c ∈ posixPath parts := mem_of_mem_getLast? hc
  have hback : c ≠ '\\' := by
    rintro rfl
    exact (posixDir_posixPath h).noBackslash hmem
  have hslash : c ≠ '/' := by
    rintro rfl
    obtain ⟨before, hbefore⟩ := getLast?_eq_some_iff.mp hc
    have hsplit := splitOn_posixPath hne fun part hpart => (h part hpart).2.1
    rw [hbefore, splitOn_append_cons_self] at hsplit
    -- the last of the names would be empty
    have hlast : ([] :: parts).getLast? = some [] := by
      rw [← hsplit, getLast?_append]
      rfl
    rw [getLast?_cons_of_ne_nil hne] at hlast
    exact (h [] (mem_of_getLast? hlast)).1.1 rfl
  simp [isSeparator, hslash, hback]

lemma head?_join {base child : Text} (h : base.head? = some '/') :
    (join base child).head? = some '/' := by
  rw [join]
  cases htrim : trimEndBy isSeparator base with
  | nil => rfl
  | cons c rest =>
    have hhead : c ∈ base.head? := head?_trimEndBy (p := isSeparator) (by rw [htrim]; rfl)
    rw [h] at hhead
    obtain rfl : '/' = c := some.inj hhead
    rfl

lemma splitOn_join (h : PathNames parts) (argument : Text) :
    significant ((join (posixPath parts) argument).splitOn '/') =
      parts ++ significant (argument.splitOn '/') := by
  by_cases hne : parts = []
  · rw [hne]
    change significant ((('/' : Char) :: argument).splitOn '/') = _
    rw [splitOn_cons, if_pos rfl]
    rfl
  · have hnames := significant_posixPath fun part hpart => ⟨(h part hpart).1, (h part hpart).2.1⟩
    rw [join, trimEndBy_posixPath hne h, splitOn_append_cons_self, significant_append, hnames]

/-! ### Candidates -/

/-- The segments of an argument, behind the names of the working directory when it is
relative. -/
def rootedSegments (argument cwd : Text) : List Text :=
  if argument.head? = some '/' then argument.splitOn '/'
  else resolve [] (cwd.splitOn '/') ++ argument.splitOn '/'

lemma resolve_rootedSegments (argument cwd : Text) :
    resolve [] (rootedSegments argument cwd) = resolve [] (posixSegments argument cwd) := by
  unfold rootedSegments posixSegments
  split
  · rfl
  · have hcwd : resolve [] (resolve [] (cwd.splitOn '/')) = resolve [] (cwd.splitOn '/') := by
      rw [resolve_names (resolve_isName _), nil_append]
    rw [resolve_append, resolve_append, hcwd]

lemma isDriveRelative_slash {path : Text} (habs : path.head? = some '/')
    (hcolon : path[1]? ≠ some ':') : isDriveRelative path = false := by
  unfold isDriveRelative
  split
  · exact absurd rfl hcolon
  · rfl

lemma isDriveRelative_colon {path : Text} (habs : path.head? = some '/')
    (hcolon : path[1]? = some ':') : isDriveRelative path := by
  match path with
  | first :: second :: rest =>
    obtain rfl : first = '/' := some.inj habs
    obtain rfl : second = ':' := some.inj hcolon
    rfl

lemma normalizeRoot_posix {cwd : Text} (h : PosixDir cwd) (hcolon : cwd[1]? ≠ some ':') :
    normalizeRoot cwd = some (posixPath (resolve [] (cwd.splitOn '/'))) := by
  have habs : isAbsolute cwd := by
    cases cwd with
    | nil => cases h.absolute
    | cons c rest =>
      obtain rfl : c = '/' := some.inj h.absolute
      rfl
  rw [normalizeRoot, habs, isDriveRelative_slash h.absolute hcolon, flavorOf_posix h]
  exact normalizeSegments_posix h

/-- A directory behind a single separator has a POSIX root, whatever else it is split at. -/
theorem normalizeRoot_single {cwd : Text} (habs : cwd.head? = some '/')
    (hcolon : cwd[1]? ≠ some ':') (hsingle : cwd[1]? ≠ some '/' ∧ cwd[1]? ≠ some '\\') :
    ∃ root, normalizeRoot cwd = some root ∧ flavorOf root = .posix := by
  have hsecond : separatorAt cwd 1 = false := by
    unfold separatorAt
    cases hget : cwd[1]? with
    | none => rfl
    | some c =>
      rw [hget] at hsingle
      simpa [isSeparator] using hsingle
  match cwd with
  | first :: rest =>
    obtain rfl : first = '/' := some.inj habs
    have hdrive : validDrivePrefix ('/' :: rest) = false := by
      unfold validDrivePrefix
      split
      · rename_i heq
        cases heq
        rfl
      · rfl
    have hflavor : flavorOf ('/' :: rest) = .posix := by
      have hunc : ['/', '/'].isPrefixOf ('/' :: rest) = false := by
        cases rest with
        | nil => rfl
        | cons d rest =>
          have hd : ¬ '/' = d := fun heq => hsingle.1 (by rw [← heq]; rfl)
          simp [List.isPrefixOf, hd]
      rw [flavorOf, hunc, hdrive]
      simp [List.isPrefixOf]
    have hsplit : splitRoot ('/' :: rest) = some (['/'], rest.splitOnP isSeparator) := by
      have hfirst : separatorAt ('/' :: rest) 0 := rfl
      rw [splitRoot, hsecond, hdrive, hfirst]
      rfl
    refine ⟨posixPath (resolve [] (rest.splitOnP isSeparator)), ?_, flavorOf_posix ?_⟩
    · rw [normalizeRoot, isDriveRelative_slash habs hcolon, hflavor, normalizeSegments, hsplit]
      rfl
    · refine posixDir_posixPath (resolve_all (fun _ h => nomatch h) fun part hpart hname => ?_)
      have hclean := notSeparator_segment hpart
      exact ⟨hname, fun hmem => absurd (hclean _ hmem) (by decide),
        fun hmem => absurd (hclean _ hmem) (by decide)⟩

lemma significant_dropWhile (s : Text) :
    significant ((s.dropWhile (· = '/')).splitOn '/') = significant (s.splitOn '/') := by
  induction s with
  | nil => rfl
  | cons c s ih =>
    by_cases hc : c = '/'
    · rw [dropWhile_cons_of_pos (by simp [hc]), ih, splitOn_cons, if_pos hc]
      rfl
    · rw [dropWhile_cons_of_neg (by simp [hc])]

lemma collapsed_posix (habs : raw.head? = some '/') (hback : '\\' ∉ raw) :
    let collapsed := if ['/', '/'].isPrefixOf raw then '/' :: raw.dropWhile (· = '/') else raw
    PosixDir collapsed ∧ significant (collapsed.splitOn '/') = significant (raw.splitOn '/') := by
  intro collapsed
  by_cases hdouble : ['/', '/'].isPrefixOf raw
  · have hcollapsed : collapsed = '/' :: raw.dropWhile (· = '/') := if_pos hdouble
    rw [hcollapsed]
    refine ⟨⟨rfl, ?_, ?_⟩, ?_⟩
    · rw [getElem?_cons_succ, ← head?_eq_getElem?]
      intro hslash
      simpa using head?_dropWhile '/' hslash
    · intro hmem
      rcases mem_cons.mp hmem with heq | hmem
      · cases heq
      · exact hback ((dropWhile_sublist _).subset hmem)
    · rw [splitOn_cons, if_pos rfl]
      exact significant_dropWhile raw
  · have hcollapsed : collapsed = raw := if_neg hdouble
    rw [hcollapsed]
    refine ⟨⟨habs, fun hsecond => hdouble ?_, hback⟩, rfl⟩
    match raw with
    | first :: second :: rest =>
      obtain rfl : first = '/' := some.inj habs
      obtain rfl : second = '/' := some.inj hsecond
      rfl

lemma candidateRaw_joined {argument cwd root joined : Text}
    (hroot : normalizeRoot cwd = some root) (hflavor : flavorOf root = .posix)
    (hblank : argument.all isWhitespace = false) (hlen : argument.length ≤ maxCandidatePathChars)
    (hdrive : isDriveRelative argument = false)
    (hjoined : (if isAbsolute argument then argument else join root argument) = joined)
    (habs : joined.head? = some '/') (hback : '\\' ∉ joined) :
    ∃ raw, candidateRaw argument cwd = some ([raw], .posix) ∧ PosixDir raw ∧
      significant (raw.splitOn '/') = significant (joined.splitOn '/') := by
  obtain ⟨hdir, hsame⟩ := collapsed_posix habs hback
  refine ⟨_, ?_, hdir, hsame⟩
  rw [candidateRaw, hblank, decide_eq_false (Nat.not_lt.mpr hlen), hroot]
  simp only [Bool.or_self, Bool.false_eq_true, if_false, Option.bind_some, hflavor, reduceCtorEq,
    hdrive, hjoined, flavorOf_posix hdir]

lemma candidateRaw_posix (harg : PlainArgument argument)
    (hcwd : PosixDir cwd) (hcolon : cwd[1]? ≠ some ':')
    (hblank : argument.all isWhitespace = false) (hlen : argument.length ≤ maxCandidatePathChars)
    (hdrive : isDriveRelative argument = false) :
    ∃ raw, candidateRaw argument cwd = some ([raw], .posix) ∧ PosixDir raw ∧
      significant (raw.splitOn '/') = significant (rootedSegments argument cwd) := by
  have hnames : PathNames (resolve [] (cwd.splitOn '/')) := resolve_cwd hcwd.noBackslash
  have hdir := posixDir_posixPath hnames
  have hroot := normalizeRoot_posix hcwd hcolon
  by_cases habs : argument.head? = some '/'
  · have habsolute := (isAbsolute_plain harg).mpr habs
    rw [rootedSegments, if_pos habs]
    exact candidateRaw_joined hroot (flavorOf_posix hdir) hblank hlen hdrive (if_pos habsolute) habs
      harg.noBackslash
  · have hrelative : ¬isAbsolute argument := fun h => habs ((isAbsolute_plain harg).mp h)
    have hback : '\\' ∉ join (posixPath (resolve [] (cwd.splitOn '/'))) argument := by
      intro hmem
      rcases mem_append.mp hmem with hmem | hmem
      · exact hdir.noBackslash (mem_of_mem_trimEndBy hmem)
      · rcases mem_cons.mp hmem with heq | hmem
        · cases heq
        · exact harg.noBackslash hmem
    have hself : significant (resolve [] (cwd.splitOn '/')) = resolve [] (cwd.splitOn '/') := by
      refine filter_eq_self.mpr fun part hpart => ?_
      simp [(hnames part hpart).1.1, (hnames part hpart).1.2.1]
    obtain ⟨raw, hraw, hposix, hsegments⟩ := candidateRaw_joined hroot (flavorOf_posix hdir) hblank
      hlen hdrive (if_neg hrelative) (head?_join hdir.absolute) hback
    refine ⟨raw, hraw, hposix, hsegments.trans ?_⟩
    rw [rootedSegments, if_neg habs, splitOn_join hnames, significant_append, hself]

/-- An argument and what it starts from are split and classified as a POSIX system does. -/
structure ReadAsNamed (cwd argument : Text) : Prop where
  plain : PlainArgument argument
  single : cwd[1]? ≠ some '/' ∧ cwd[1]? ≠ some '\\'
  base : argument.head? = some '/' ∨ '\\' ∉ cwd

lemma ReadAsNamed.candidateRaw (h : ReadAsNamed cwd argument) (habs : cwd.head? = some '/')
    (hcolon : cwd[1]? ≠ some ':') (hblank : argument.all isWhitespace = false)
    (hlen : argument.length ≤ maxCandidatePathChars) (hdrive : isDriveRelative argument = false) :
    ∃ raw, Capture.candidateRaw argument cwd = some ([raw], .posix) ∧ PosixDir raw ∧
      significant (raw.splitOn '/') = significant (rootedSegments argument cwd) := by
  rcases h.base with hrooted | hback
  · obtain ⟨root, hroot, hflavor⟩ := normalizeRoot_single habs hcolon h.single
    rw [rootedSegments, if_pos hrooted]
    exact candidateRaw_joined hroot hflavor hblank hlen hdrive
      (if_pos ((isAbsolute_plain h.plain).mpr hrooted)) hrooted h.plain.noBackslash
  · exact candidateRaw_posix h.plain ⟨habs, h.single.1, hback⟩ hcolon hblank hlen hdrive

lemma ReadAsNamed.normalizeCandidates (h : ReadAsNamed cwd argument)
    (habs : cwd.head? = some '/') (hcolon : cwd[1]? ≠ some ':')
    (hblank : argument.all isWhitespace = false) (hlen : argument.length ≤ maxCandidatePathChars)
    (hdrive : isDriveRelative argument = false) :
    Capture.normalizeCandidates argument cwd = some [⟨posixFile argument cwd, .posix⟩] := by
  obtain ⟨raw, hraw, hdir, hsegments⟩ := h.candidateRaw habs hcolon hblank hlen hdrive
  have hfile : resolve [] (raw.splitOn '/') = resolve [] (posixSegments argument cwd) := by
    rw [← resolve_significant, hsegments, resolve_significant, resolve_rootedSegments]
  rw [Capture.normalizeCandidates, hraw]
  show List.mapM _ [raw] = _
  simp [normalizeSegments_posix hdir, hfile, posixFile]

end Capture
