/-
Spellings of one file on a Windows host.

Windows opens a file by many texts: either separator, any letter case, a device prefix or the
administrative share instead of the drive, a path from the working directory, dots and spaces
behind a segment, a stream behind the last one.  A file tool that is dropped under one of them
is kept under none, as long as no segment with glob or brace characters has anything appended.
-/
import AiMemory.Hooks.Excluded

open Strings Fallible List

namespace Capture

open Json (Value)
open Option (map_some bind_some)

/-! ### What Windows opens -/

structure WindowsName (name : Text) : Prop where
  ne_nil : name ≠ []
  noSeparator : ∀ c ∈ name, isSeparator c = false
  noColon : ':' ∉ name
  last : ∀ c ∈ name.getLast?, c ≠ '.' ∧ c ≠ ' '

def Filler (s : Text) : Prop := ∀ c ∈ s, c = '.' ∨ c = ' '

def Stream (s : Text) : Prop := s = [] ∨ ∃ stream, s = ':' :: stream

/-- The parts of a path and the names they come to. -/
inductive SpelledPath : List Text → List Text → Prop
  | nothing : SpelledPath [[]] []
  | dot {parts names : List Text} (h : SpelledPath parts names) :
    SpelledPath (['.'] :: parts) names
  | parent {parts names : List Text} (h : SpelledPath parts names) :
    SpelledPath (dotdot :: parts) (dotdot :: names)
  | name {name filler : Text} {parts names : List Text} (hname : WindowsName name)
    (hfiller : Filler filler) (h : SpelledPath parts names) :
    SpelledPath ((name ++ filler) :: parts) (name :: names)
  | last {name filler stream : Text} (hname : WindowsName name) (hfiller : Filler filler)
    (hstream : Stream stream) : SpelledPath [name ++ filler ++ stream] [name]

/-- The policy reads a segment with glob or brace characters only as it stands. -/
def Legible (text : Text) : Prop :=
  ∀ part ∈ text.splitOnP isSeparator, holdsExpansion part = true → WindowsName part

def slashed (path : Text) : Text := path.map fun c => if c = '\\' then '/' else c

def DriveLead (lead : Text) : Prop :=
  lead = [] ∨ slashed lead = ['/', '/', '?', '/'] ∨ slashed lead = ['/', '/', '.', '/'] ∨
    slashed lead = ['/', '?', '?', '/']

def LocalHost (host : Text) : Prop :=
  host.map Char.toLower = "localhost".toList ∨ host = "127.0.0.1".toList

/-- The drive letter and the names of the file that a text names, in a session in the directory
`dir` of the drive `drive`. -/
inductive Spells (drive : Char) (dir : List Text) :
    Text → Char → List Text → Prop
  | rooted {lead body : Text} {letter sep : Char} {names : List Text}
    (hlead : DriveLead lead) (hletter : letter.isAlpha = true) (hsep : isSeparator sep = true)
    (hbody : SpelledPath (body.splitOnP isSeparator) names) :
    Spells drive dir (lead ++ letter :: ':' :: sep :: body) letter (resolve [] names)
  | share {host body : Text} {letter a b c d : Char} {names : List Text}
    (hhost : LocalHost host) (hletter : letter.isAlpha = true) (ha : isSeparator a = true)
    (hb : isSeparator b = true) (hc : isSeparator c = true) (hd : isSeparator d = true)
    (hbody : SpelledPath (body.splitOnP isSeparator) names) :
    Spells drive dir (a :: b :: (host ++ c :: letter :: '$' :: d :: body)) letter
      (resolve [] names)
  | relative {body : Text} {names : List Text}
    (hbody : SpelledPath (body.splitOnP isSeparator) names) :
    Spells drive dir body drive (resolve [] (dir ++ names))

lemma trimEndBy_append_filler {p : Char → Bool} {s filler : Text}
    (h : ∀ c ∈ filler, p c = true) : trimEndBy p (s ++ filler) = trimEndBy p s := by
  rw [trimEndBy, reverse_append,
    dropWhile_append_of_pos fun c hc => h c (mem_reverse.mp hc)]
  rfl

variable {name filler stream body path : Text} {letter sep c drive : Char} {dir : List Text}

lemma WindowsName.append_eq (hfiller : Filler filler)
    (hstream : Stream stream) (hwhole : WindowsName (name ++ filler ++ stream)) :
    name ++ filler ++ stream = name := by
  rcases hstream with rfl | ⟨stream, rfl⟩
  · rw [append_nil] at hwhole ⊢
    rcases eq_nil_or_concat' filler with rfl | ⟨before, c, rfl⟩
    · exact append_nil _
    · rw [← append_assoc] at hwhole
      have hlast := hwhole.last c (by rw [getLast?_concat]; rfl)
      rcases hfiller c (mem_append_right _ (mem_singleton.mpr rfl)) with rfl | rfl
      · exact absurd rfl hlast.1
      · exact absurd rfl hlast.2
  · exact absurd (mem_append_right _ mem_cons_self) hwhole.noColon

lemma headD_splitOn_colon {s stream : Text} (h : ':' ∉ s) (hstream : Stream stream)
    (fallback : Text) : ((s ++ stream).splitOn ':').headD fallback = s := by
  rcases hstream with rfl | ⟨stream, rfl⟩
  · rw [append_nil, splitOn_eq_singleton h]
    rfl
  · rw [splitOn_append_cons_self_of_not_mem h]
    rfl

lemma windowsSegment_name (hname : WindowsName name)
    (hfiller : Filler filler) (hstream : Stream stream)
    (hlegible : holdsExpansion (name ++ filler ++ stream) →
      WindowsName (name ++ filler ++ stream)) :
    windowsSegment (name ++ filler ++ stream) = some name := by
  by_cases hholds : holdsExpansion (name ++ filler ++ stream)
  · rw [windowsSegment, if_pos hholds, (hlegible hholds).append_eq hfiller hstream]
  obtain ⟨before, ending, rfl⟩ : ∃ before ending, name = before ++ [ending] := by
    rcases eq_nil_or_concat' name with rfl | ⟨before, ending, rfl⟩
    · exact absurd rfl hname.ne_nil
    · exact ⟨before, ending, rfl⟩
  obtain ⟨hdot, hspace⟩ := hname.last ending (by rw [getLast?_concat]; rfl)
  have hcolon : ':' ∉ before ++ [ending] ++ filler := by
    intro hmem
    rcases mem_append.mp hmem with hmem | hmem
    · exact hname.noColon hmem
    · rcases hfiller ':' hmem with heq | heq <;> cases heq
  -- the last character of the name stays, so the segment is neither `.` nor `..`
  have hstays : ending ∈ trimEndBy (· = ' ') (before ++ [ending] ++ filler) := by
    obtain ⟨cut, hcut, hspaces⟩ := trimEndBy_append (· = ' ') (before ++ [ending] ++ filler)
    have hmem : ending ∈ before ++ [ending] ++ filler := by simp
    rw [hcut] at hmem
    rcases mem_append.mp hmem with hmem | hmem
    · exact hmem
    · exact absurd (of_decide_eq_true (hspaces ending hmem)) hspace
  have hnot : ¬(trimEndBy (· = ' ') (before ++ [ending] ++ filler) = ['.'] ∨
      trimEndBy (· = ' ') (before ++ [ending] ++ filler) = ['.', '.']) := by
    rintro (heq | heq) <;> rw [heq] at hstays <;> simp at hstays <;> exact hdot hstays
  have htrim : trimEndBy (fun c => c = '.' || c = ' ') (before ++ [ending] ++ filler) =
      before ++ [ending] := by
    rw [trimEndBy_append_filler fun c hc => by simpa using hfiller c hc]
    refine trimEndBy_eq_self fun c hc => ?_
    obtain ⟨hdot, hspace⟩ := hname.last c hc
    simp [hdot, hspace]
  rw [windowsSegment, if_neg hholds]
  dsimp only
  rw [headD_splitOn_colon hcolon hstream, if_neg hnot, htrim, if_neg hname.ne_nil]

lemma windowsSegment_self {name : Text} (hname : WindowsName name) :
    windowsSegment name = some name := by
  have h : windowsSegment (name ++ [] ++ []) = some name :=
    windowsSegment_name hname (forall_mem_nil _) (.inl rfl) fun _ => by simpa using hname
  simpa using h

lemma filterMap_windowsNames {names : List Text} (h : ∀ name ∈ names, WindowsName name) :
    names.filterMap windowsSegment = names := by
  induction names with
  | nil => rfl
  | cons name names ih =>
    rw [filterMap_cons_some (windowsSegment_self (h name mem_cons_self)),
      ih fun other hother => h other (mem_cons_of_mem _ hother)]

lemma SpelledPath.names {parts names : List Text} (h : SpelledPath parts names) :
    ∀ name ∈ names, name = dotdot ∨ WindowsName name := by
  induction h with
  | nothing => exact fun _ hmem => (nomatch hmem)
  | dot _ ih => exact ih
  | parent _ ih => exact forall_mem_cons.mpr ⟨.inl rfl, ih⟩
  | name hname _ _ ih => exact forall_mem_cons.mpr ⟨.inr hname, ih⟩
  | last hname _ _ => exact forall_mem_singleton.mpr (.inr hname)

lemma SpelledPath.resolve {parts names : List Text} (h : SpelledPath parts names)
    (hlegible : ∀ part ∈ parts, holdsExpansion part = true → WindowsName part) (stack : List Text) :
    Capture.resolve stack (parts.filterMap windowsSegment) = Capture.resolve stack names := by
  induction h generalizing stack with
  | nothing => rfl
  | @dot parts names _ ih =>
    have hdot : windowsSegment ['.'] = some ['.'] := by decide
    rw [filterMap_cons_some hdot]
    exact ih (fun part hpart => hlegible part (mem_cons_of_mem _ hpart)) stack
  | @parent parts names _ ih =>
    have hdots : windowsSegment dotdot = some dotdot := by decide
    rw [filterMap_cons_some hdots]
    exact ih (fun part hpart => hlegible part (mem_cons_of_mem _ hpart)) _
  | @name name filler parts names hname hfiller _ ih =>
    have hsegment := windowsSegment_name hname hfiller (.inl rfl)
    rw [append_nil] at hsegment
    rw [filterMap_cons_some (hsegment (hlegible _ mem_cons_self))]
    exact ih (fun part hpart => hlegible part (mem_cons_of_mem _ hpart)) _
  | last hname hfiller hstream =>
    rw [filterMap_cons_some
      (windowsSegment_name hname hfiller hstream (hlegible _ mem_cons_self))]
    rfl

lemma windowsSegment_some {segment name : Text} (h : windowsSegment segment = some name) :
    name ≠ [] ∧ ∀ c ∈ name, c ∈ segment := by
  rw [windowsSegment] at h
  by_cases hholds : holdsExpansion segment
  · rw [if_pos hholds] at h
    cases h
    refine ⟨?_, fun _ hc => hc⟩
    rintro rfl
    cases hholds
  rw [if_neg hholds] at h
  dsimp only at h
  obtain ⟨first, rest, hsplit⟩ := exists_splitOn ':' segment
  have hfirst : ∀ c ∈ first, c ∈ segment := fun c hc =>
    mem_of_mem_segment (by rw [hsplit]; exact mem_cons_self) hc
  rw [hsplit, headD_cons] at h
  split at h
  · rename_i hdots
    cases h
    refine ⟨?_, fun c hc => hfirst c (mem_of_mem_trimEndBy hc)⟩
    rcases hdots with heq | heq <;> rw [heq] <;> simp
  · split at h
    · cases h
    · rename_i hne
      cases h
      exact ⟨hne, fun c hc => hfirst c (mem_of_mem_trimEndBy hc)⟩

lemma segments_windowsSegment (body : Text) :
    ∀ name ∈ (body.splitOnP isSeparator).filterMap windowsSegment,
      ∀ c ∈ name, isSeparator c = false := by
  intro name hname c hc
  obtain ⟨segment, hsegment, hread⟩ := mem_filterMap.mp hname
  exact notSeparator_segment hsegment c ((windowsSegment_some hread).2 c hc)

def drivePath (letter : Char) (names : List Text) : Text :=
  joinSegments [letter, ':', '/'] names

lemma not_separator_of_isAlpha {letter : Char} (h : letter.isAlpha) :
    isSeparator letter = false := by
  have hslash : letter ≠ '/' := by
    rintro rfl
    cases h
  have hback : letter ≠ '\\' := by
    rintro rfl
    cases h
  simp [isSeparator, hslash, hback]

lemma splitRoot_drive (hletter : letter.isAlpha) (hsep : isSeparator sep) :
    splitRoot (letter :: ':' :: sep :: body) =
      some ([letter.toUpper, ':', '/'], body.splitOnP isSeparator) := by
  have hfirst : separatorAt (letter :: ':' :: sep :: body) 0 = false :=
    not_separator_of_isAlpha hletter
  have hthird : separatorAt (letter :: ':' :: sep :: body) 2 := hsep
  have hdrive : validDrivePrefix (letter :: ':' :: sep :: body) := hletter
  rw [splitRoot, hfirst, hthird, hdrive]
  rfl

lemma splitOnP_intercalate {names : List Text} (hne : names ≠ [])
    (h : ∀ name ∈ names, ∀ c ∈ name, isSeparator c = false) :
    (['/'].intercalate names).splitOnP isSeparator = names := by
  have hslash : ∀ name ∈ names, '/' ∉ name := fun name hname hmem =>
    absurd (h name hname '/' hmem) (by decide)
  have hsplit := splitOn_intercalate '/' hslash hne
  rw [splitOnP_separator, hsplit]
  intro hmem
  obtain ⟨segment, hsegment, hin⟩ := mem_segment (c := '/') hmem (by decide)
  rw [hsplit] at hsegment
  exact absurd (h segment hsegment _ hin) (by decide)

lemma splitRoot_drivePath {letter : Char} {names : List Text} (hletter : letter.isAlpha)
    (h : ∀ name ∈ names, ∀ c ∈ name, isSeparator c = false) :
    ∃ tail, splitRoot (drivePath letter names) = some ([letter.toUpper, ':', '/'], tail) ∧
      ∀ stack, resolve stack tail = resolve stack names := by
  by_cases hne : names = []
  · subst hne
    exact ⟨[[]], splitRoot_drive hletter rfl, fun _ => rfl⟩
  · refine ⟨names, ?_, fun _ => rfl⟩
    have hpath : drivePath letter names = letter :: ':' :: '/' :: ['/'].intercalate names := by
      have hroot : ([letter, ':', '/'] : Text).getLast? = some '/' := rfl
      rw [drivePath, joinSegments, if_neg hne, if_pos hroot]
      rfl
    rw [hpath, splitRoot_drive hletter rfl, splitOnP_intercalate hne h]

lemma normalizeSegments_drivePath {letter : Char} {names : List Text} (hletter : letter.isAlpha)
    (h : ∀ name ∈ names, ∀ c ∈ name, isSeparator c = false) :
    normalizeSegments (drivePath letter names) =
      some (drivePath letter.toUpper (resolve [] names)) := by
  obtain ⟨tail, hsplit, hresolve⟩ := splitRoot_drivePath hletter h
  rw [normalizeSegments, hsplit, map_some, hresolve]
  rfl

lemma windowsSegments_drive (hletter : letter.isAlpha) (hsep : isSeparator sep) :
    windowsSegments (letter :: ':' :: sep :: body) =
      some (drivePath letter.toUpper ((body.splitOnP isSeparator).filterMap windowsSegment)) := by
  rw [windowsSegments, splitRoot_drive hletter hsep]
  rfl

/-! ### Whole texts -/

theorem splitOnP_slashed (s : Text) :
    (slashed s).splitOnP isSeparator = s.splitOnP isSeparator := by
  induction s with
  | nil => rfl
  | cons c s ih =>
    change ((if c = '\\' then '/' else c) :: slashed s).splitOnP isSeparator = _
    rw [splitOnP_cons_eq_if_modifyHead, splitOnP_cons_eq_if_modifyHead, ih]
    by_cases hc : c = '\\'
    · rw [hc]
      rfl
    · rw [if_neg hc]

@[simp] lemma slashed_nil : slashed [] = [] := rfl

lemma slashed_append (a b : Text) : slashed (a ++ b) = slashed a ++ slashed b :=
  map_append ..

lemma slashed_cons_separator (h : isSeparator c) (s : Text) :
    slashed (c :: s) = '/' :: slashed s := by
  by_cases hc : c = '\\'
  · rw [hc]
    rfl
  · have hslash : c = '/' := by simpa [isSeparator, hc] using h
    rw [hslash]
    rfl

lemma slashed_cons (h : isSeparator c = false) (s : Text) :
    slashed (c :: s) = c :: slashed s := by
  have hc : c ≠ '\\' := by
    rintro rfl
    cases h
  exact congrArg (· :: slashed s) (if_neg hc)

lemma slashed_of_notMem {s : Text} (h : ∀ c ∈ s, isSeparator c = false) : slashed s = s := by
  induction s with
  | nil => rfl
  | cons c s ih =>
    rw [slashed_cons (h c mem_cons_self),
      ih fun d hd => h d (mem_cons_of_mem _ hd)]

lemma stripDevice_of_ne (h : c ≠ '/') (rest : Text) :
    stripDevice (c :: rest) = none := by
  unfold stripDevice
  split <;> rename_i heq
  · exact absurd (List.cons.inj heq).1 h
  · exact absurd (List.cons.inj heq).1 h
  · exact absurd (List.cons.inj heq).1 h
  · rfl

lemma windowsSpellings_drive {candidate cwd path body : Text}
    (hpath : undevice (slashed candidate) = some path)
    (hlong : (validDrivePrefix path && decide (path.length = 2)) = false)
    (hrooted : rootedSpellings candidate cwd path = some (letter :: ':' :: sep :: body, none))
    (hletter : letter.isAlpha) (hsep : isSeparator sep) :
    windowsSpellings candidate cwd =
      some [drivePath letter.toUpper ((body.splitOnP isSeparator).filterMap windowsSegment)] := by
  change (undevice (slashed candidate)).bind _ = _
  rw [hpath, bind_some, hlong]
  simp only [Bool.false_eq_true, if_false, hrooted, Option.bind_eq_bind, bind_some,
    windowsSegments_drive hletter hsep]

variable (cwd : Text)

lemma windowsSpellings_rooted {lead body : Text}
    (hlead : DriveLead lead) (hletter : letter.isAlpha) (hsep : isSeparator sep) :
    windowsSpellings (lead ++ letter :: ':' :: sep :: body) cwd =
      some [drivePath letter.toUpper ((body.splitOnP isSeparator).filterMap windowsSegment)] := by
  have hnot := not_separator_of_isAlpha hletter
  have hne : letter ≠ '/' := by
    rintro rfl
    cases hnot
  have hdrive : slashed (letter :: ':' :: sep :: body) = letter :: ':' :: '/' :: slashed body := by
    rw [slashed_cons hnot, slashed_cons rfl, slashed_cons_separator hsep]
  have hrooted : ∀ candidate, rootedSpellings candidate cwd (letter :: ':' :: '/' :: slashed body) =
      some (letter :: ':' :: '/' :: slashed body, none) := by
    intro candidate
    have hslash : ('/' == letter) = false := by simpa using fun heq => hne heq.symm
    have habs : isAbsolute (letter :: ':' :: '/' :: slashed body) := by
      have hvalid : validDrivePrefix (letter :: ':' :: '/' :: slashed body) := hletter
      rw [isAbsolute, hvalid]
      simp [separatorAt, isSeparator]
    simp [rootedSpellings, List.isPrefixOf, hslash, habs]
  have hnounc : startsWithIgnoreCase ['u', 'n', 'c', '/'] (letter :: ':' :: '/' :: slashed body) =
      false := by
    simp [startsWithIgnoreCase, List.isPrefixOf]
  have hpath : undevice (slashed (lead ++ letter :: ':' :: sep :: body)) =
      some (letter :: ':' :: '/' :: slashed body) := by
    rw [slashed_append, hdrive]
    have hvalid : validDrivePrefix (letter :: ':' :: '/' :: slashed body) := hletter
    rcases hlead with rfl | hlead | hlead | hlead
    · rw [slashed_nil, nil_append, undevice, stripDevice_of_ne hne]
    all_goals
      rw [hlead, undevice]
      simp only [cons_append, nil_append, stripDevice, hnounc, hvalid, Bool.false_eq_true,
        if_false, if_true]
  have hlong : (validDrivePrefix (letter :: ':' :: '/' :: slashed body) &&
      decide ((letter :: ':' :: '/' :: slashed body).length = 2)) = false := by
    simp
  rw [windowsSpellings_drive hpath hlong (hrooted _) hletter rfl, splitOnP_slashed]

lemma splitSlash_append {s : Text} (h : '/' ∉ s) (rest : Text) :
    splitSlash (s ++ '/' :: rest) = (s, rest) := by
  have hsplit : splitOnce ['/'] (s ++ '/' :: rest) = some (s, rest) := by
    induction s with
    | nil => rfl
    | cons c s ih =>
      obtain ⟨hc, hs⟩ := ne_and_not_mem_of_not_mem_cons h
      rw [cons_append, splitOnce_singleton_cons, if_neg hc.symm, ih hs]
      rfl
  rw [splitSlash, hsplit]
  rfl

lemma LocalHost.spec {host : Text} (h : LocalHost host) :
    ∃ first rest, host = first :: rest ∧ first ≠ '?' ∧ first ≠ '.' ∧
      ∀ c ∈ host, isSeparator c = false := by
  rcases h with h | rfl
  · have hall : ∀ c ∈ host, c.toLower ∈ "localhost".toList := fun c hc =>
      h ▸ mem_map_of_mem hc
    have hnot : ∀ c d : Char, d ∉ "localhost".toList → d.toLower = d →
        c.toLower ∈ "localhost".toList → c ≠ d := by
      rintro c d hd hlower hc rfl
      exact hd (hlower ▸ hc)
    cases host with
    | nil => cases h
    | cons first rest =>
      have hfirst := hall first mem_cons_self
      refine ⟨first, rest, rfl, hnot _ _ (by decide) (by decide) hfirst,
        hnot _ _ (by decide) (by decide) hfirst, fun c hc => ?_⟩
      have hslash := hnot c '/' (by decide) (by decide) (hall c hc)
      have hback := hnot c '\\' (by decide) (by decide) (hall c hc)
      simp [isSeparator, hslash, hback]
  · exact ⟨'1', "27.0.0.1".toList, rfl, by decide, by decide, by simp [isSeparator]⟩

lemma windowsSpellings_share {host body : Text} {letter a b c d : Char}
    (hhost : LocalHost host) (hletter : letter.isAlpha) (ha : isSeparator a)
    (hb : isSeparator b) (hc : isSeparator c) (hd : isSeparator d) :
    windowsSpellings (a :: b :: (host ++ c :: letter :: '$' :: d :: body)) cwd =
      some [drivePath letter.toUpper ((body.splitOnP isSeparator).filterMap windowsSegment)] := by
  obtain ⟨first, rest, hfirst, hquery, hdot, hnosep⟩ := hhost.spec
  have hnot := not_separator_of_isAlpha hletter
  have hslash : '/' ∉ host := fun hmem => absurd (hnosep '/' hmem) (by decide)
  have hshare : '/' ∉ [letter, '$'] := by
    intro hmem
    rcases mem_cons.mp hmem with heq | hmem
    · rw [← heq] at hnot
      cases hnot
    · cases mem_singleton.mp hmem
  have htext : slashed (a :: b :: (host ++ c :: letter :: '$' :: d :: body)) =
      '/' :: '/' :: (host ++ '/' :: ([letter, '$'] ++ '/' :: slashed body)) := by
    rw [slashed_cons_separator ha, slashed_cons_separator hb, slashed_append,
      slashed_of_notMem hnosep, slashed_cons_separator hc, slashed_cons hnot, slashed_cons rfl,
      slashed_cons_separator hd]
    rfl
  have hpath : undevice (slashed (a :: b :: (host ++ c :: letter :: '$' :: d :: body))) =
      some ('/' :: '/' :: (host ++ '/' :: ([letter, '$'] ++ '/' :: slashed body))) := by
    have hnone : stripDevice ('/' :: '/' :: (host ++ '/' :: ([letter, '$'] ++ '/' :: slashed body)))
        = none := by
      rw [hfirst, cons_append]
      unfold stripDevice
      split <;> rename_i heq
      · exact absurd (List.cons.inj (List.cons.inj (List.cons.inj heq).2).2).1 hquery
      · exact absurd (List.cons.inj (List.cons.inj (List.cons.inj heq).2).2).1 hdot
      · exact absurd (List.cons.inj (List.cons.inj heq).2).1 (by decide)
      · rfl
    rw [htext, undevice, hnone]
  have hlocal : localShare host [letter, '$'] = some letter := by
    have hnamed : host.map Char.toLower = "localhost".toList ∨ host = "127.0.0.1".toList := hhost
    rw [localShare, if_pos hnamed]
    exact if_pos hletter
  have hrooted : ∀ candidate, rootedSpellings candidate cwd
      ('/' :: '/' :: (host ++ '/' :: ([letter, '$'] ++ '/' :: slashed body))) =
      some (letter :: ':' :: '/' :: slashed body, none) := by
    intro candidate
    have hunc : ['/', '/'].isPrefixOf
        ('/' :: '/' :: (host ++ '/' :: ([letter, '$'] ++ '/' :: slashed body))) := rfl
    rw [rootedSpellings, if_pos hunc]
    simp only [drop_succ_cons, drop_zero, splitSlash_append hslash,
      splitSlash_append hshare, hlocal]
  rw [windowsSpellings_drive hpath rfl (hrooted _) hletter rfl, splitOnP_slashed]

lemma SpelledPath.first {first : Text} {rest names : List Text}
    (h : SpelledPath (first :: rest) names) (hrest : rest ≠ []) : first ≠ [] ∧ ':' ∉ first := by
  cases h with
  | nothing | last _ _ _ => exact absurd rfl hrest
  | dot _ | parent _ => exact ⟨by decide, by decide⟩
  | name hname hfiller _ =>
    refine ⟨by simp [hname.ne_nil], fun hmem => ?_⟩
    rcases mem_append.mp hmem with hmem | hmem
    · exact hname.noColon hmem
    · rcases hfiller ':' hmem with heq | heq <;> cases heq

lemma SpelledPath.relative {names : List Text} (h : SpelledPath (body.splitOnP isSeparator) names) :
    body.head?.any isSeparator = false ∧
      (validDrivePrefix body && separatorAt body 2) = false := by
  constructor
  · cases body with
    | nil => rfl
    | cons c rest =>
      cases hc : isSeparator c with
      | false => exact hc
      | true =>
        rw [splitOnP_cons_eq_if_modifyHead, if_pos hc] at h
        exact absurd rfl (h.first (splitOnP_ne_nil _ _)).1
  · match body with
    | [] => rfl
    | [_] => rfl
    | [_, _] => simp [separatorAt]
    | letter :: colon :: sep :: rest =>
      by_contra hdrive
      rw [Bool.not_eq_false, Bool.and_eq_true] at hdrive
      obtain ⟨hdrive, hsep⟩ := hdrive
      have hsep : isSeparator sep := hsep
      by_cases hcolon : colon = ':'
      · subst hcolon
        have hletter : letter.isAlpha := hdrive
        have hnosep : ∀ c ∈ [letter, ':'], isSeparator c = false :=
          forall_mem_cons.mpr ⟨not_separator_of_isAlpha hletter, forall_mem_singleton.mpr rfl⟩
        have hsplit : (letter :: ':' :: sep :: rest).splitOnP isSeparator =
            [letter, ':'] :: rest.splitOnP isSeparator :=
          splitOnP_append_cons_of_forall_mem hnosep sep hsep rest
        rw [hsplit] at h
        exact (h.first (splitOnP_ne_nil _ _)).2 (by simp)
      · simp [validDrivePrefix, hcolon] at hdrive

lemma join_drivePath (drive : Char)
    (hdir : ∀ name ∈ dir, name ≠ [] ∧ ∀ c ∈ name, isSeparator c = false) (body : Text) :
    ∃ rest, join (drivePath drive dir) body = drive :: ':' :: '/' :: rest ∧
      rest.splitOnP isSeparator = dir ++ body.splitOnP isSeparator := by
  by_cases hne : dir = []
  · subst hne
    refine ⟨body, ?_, rfl⟩
    have htrim : trimEndBy isSeparator [drive, ':', '/'] = [drive, ':'] := by
      simp [trimEndBy, isSeparator]
    rw [join, drivePath, joinSegments, if_pos rfl, htrim]
    rfl
  · have hpath : drivePath drive dir = drive :: ':' :: '/' :: ['/'].intercalate dir := by
      have hroot : ([drive, ':', '/'] : Text).getLast? = some '/' := rfl
      rw [drivePath, joinSegments, if_neg hne, if_pos hroot]
      rfl
    have hsplit := splitOnP_intercalate hne fun name hname => (hdir name hname).2
    have htrim : trimEndBy isSeparator (drivePath drive dir) = drivePath drive dir := by
      refine trimEndBy_eq_self fun c hc => ?_
      cases hsep : isSeparator c with
      | false => rfl
      | true =>
        -- the last of the names would be empty
        have hnames : ['/'].intercalate dir ≠ [] := by
          intro hnil
          rw [hnil] at hsplit
          exact (hdir [] (hsplit ▸ mem_singleton.mpr rfl)).1 rfl
        have hlast : (['/'].intercalate dir).getLast? = some c := by
          rw [hpath, getLast?_cons_cons, getLast?_cons_cons,
            getLast?_cons_of_ne_nil hnames] at hc
          exact hc
        obtain ⟨before, hbefore⟩ := getLast?_eq_some_iff.mp hlast
        rw [hbefore, splitOnP_append_cons _ _ hsep] at hsplit
        have hempty : [] ∈ dir := hsplit ▸ mem_append_right _ (mem_singleton.mpr rfl)
        exact absurd rfl (hdir [] hempty).1
    refine ⟨['/'].intercalate dir ++ '/' :: body, ?_, ?_⟩
    · rw [join, htrim, hpath]
      rfl
    · rw [splitOnP_append_cons _ _ rfl, hsplit]

lemma utf8Size_of_isAlpha (h : c.isAlpha) : c.utf8Size = 1 := by
  have hle : c.val ≤ 0x7f := by
    rw [Char.isAlpha, Bool.or_eq_true] at h
    rcases h with h | h
    · simp only [Char.isUpper, ge_iff_le, decide_eq_true_eq] at h
      exact UInt32.le_trans h.2 (by decide)
    · simp only [Char.isLower, ge_iff_le, Bool.and_eq_true, decide_eq_true_eq] at h
      exact UInt32.le_trans h.2 (by decide)
  exact if_pos hle

lemma isPrefixOf_of_head (h : path.head?.any isSeparator = false) :
    ['/'].isPrefixOf path = false ∧ ['/', '/'].isPrefixOf path = false ∧
      ['\\', '\\'].isPrefixOf path = false := by
  cases path with
  | nil => decide
  | cons c rest =>
    have hc : isSeparator c = false := h
    have hslash : ¬ '/' = c := by
      rintro rfl
      cases hc
    have hback : ¬ '\\' = c := by
      rintro rfl
      cases hc
    simp [List.isPrefixOf, hslash, hback]

lemma isAbsolute_of_relative (h : path.head?.any isSeparator = false)
    (hdrive : (validDrivePrefix path && separatorAt path 2) = false) : isAbsolute path = false := by
  obtain ⟨hslash, -, hback⟩ := isPrefixOf_of_head h
  rw [isAbsolute, hslash, hback, hdrive]
  rfl

lemma isDriveRelative_pair {c d : Char} (h : validDrivePrefix (slashed [c, d])) :
    isDriveRelative [c, d] := by
  have hmap : slashed [c, d] = [if c = '\\' then '/' else c, if d = '\\' then '/' else d] := rfl
  rw [hmap] at h
  by_cases hd : d = '\\'
  · rw [if_pos hd] at h
    cases h
  rw [if_neg hd] at h
  by_cases hcolon : d = ':'
  · subst hcolon
    by_cases hc : c = '\\'
    · rw [if_pos hc] at h
      cases h
    · rw [if_neg hc] at h
      have hletter : c.isAlpha := h
      have habs : isAbsolute [c, ':'] = false :=
        isAbsolute_of_relative (not_separator_of_isAlpha hletter) (Bool.and_false _)
      simp [isDriveRelative, habs, utf8Size_of_isAlpha hletter]
  · simp [validDrivePrefix, hcolon] at h

lemma windowsSpellings_relative {dir names : List Text} (hdrive : drive.isAlpha)
    (hdir : ∀ name ∈ dir, name ≠ [] ∧ ∀ c ∈ name, isSeparator c = false)
    (hbody : SpelledPath (body.splitOnP isSeparator) names)
    (hplaced : isDriveRelative body = false) :
    windowsSpellings body (drivePath drive dir) =
      some [drivePath drive.toUpper
        ((dir ++ body.splitOnP isSeparator).filterMap windowsSegment)] := by
  have hsame : SpelledPath ((slashed body).splitOnP isSeparator) names := by
    rw [splitOnP_slashed]
    exact hbody
  obtain ⟨hhead, habs⟩ := hsame.relative
  have hstart : ∀ c rest, slashed body = c :: rest → c ≠ '/' := by
    rintro c rest heq rfl
    rw [heq] at hhead
    cases hhead
  have hpath : undevice (slashed body) = some (slashed body) := by
    cases hcase : slashed body with
    | nil => rfl
    | cons c rest => rw [undevice, stripDevice_of_ne (hstart c rest hcase)]
  have hlong : (validDrivePrefix (slashed body) && decide ((slashed body).length = 2)) = false := by
    rw [Bool.and_eq_false_iff, decide_eq_false_iff_not]
    by_contra hboth
    rw [not_or, Bool.not_eq_false, not_not, slashed, length_map] at hboth
    obtain ⟨c, d, rfl⟩ := length_eq_two.mp hboth.2
    exact absurd hplaced (by rw [isDriveRelative_pair hboth.1]; decide)
  obtain ⟨rest, hjoin, hsplit⟩ := join_drivePath drive hdir (slashed body)
  have hrooted : rootedSpellings body (drivePath drive dir) (slashed body) =
      some (drive :: ':' :: '/' :: rest, none) := by
    obtain ⟨hslash, hunc, -⟩ := isPrefixOf_of_head hhead
    rw [rootedSpellings, hslash, hunc, isAbsolute_of_relative hhead habs, hjoin]
    rfl
  rw [windowsSpellings_drive hpath hlong hrooted hdrive rfl, hsplit, splitOnP_slashed]

/-! ### Candidates -/

structure DriveDir (cwd : Text) (drive : Char) (dir : List Text) : Prop where
  letter : drive.isAlpha = true
  upper : drive.toUpper = drive
  names : ∀ name ∈ dir, WindowsName name
  root : normalizeRoot cwd = some (drivePath drive dir)

lemma flavorOf_drivePath (h : drive.isAlpha) (dir : List Text) :
    flavorOf (drivePath drive dir) = .windows := by
  have hdrive : ∃ rest, drivePath drive dir = drive :: ':' :: rest := by
    unfold drivePath joinSegments
    split
    · exact ⟨_, rfl⟩
    · split
      · exact ⟨_, rfl⟩
      · exact ⟨_, rfl⟩
  obtain ⟨rest, hrest⟩ := hdrive
  have hvalid : validDrivePrefix (drive :: ':' :: rest) := h
  rw [hrest, flavorOf, hvalid, Bool.or_true, if_pos rfl]

lemma resolve_windowsNames {names : List Text}
    (h : ∀ name ∈ names, name = dotdot ∨ WindowsName name) :
    ∀ name ∈ resolve [] names, WindowsName name := by
  refine resolve_all (forall_mem_nil _) fun name hname hisName => ?_
  rcases h name hname with rfl | hstored
  · exact absurd rfl hisName.2.2
  · exact hstored

lemma Legible.tail (before : Text) {sep : Char} (hsep : isSeparator sep)
    (h : Legible (before ++ sep :: body)) :
    ∀ part ∈ body.splitOnP isSeparator, holdsExpansion part = true → WindowsName part := by
  intro part hpart
  refine h part ?_
  rw [splitOnP_append_cons _ _ hsep]
  exact mem_append_right _ hpart

lemma normalizeRoot_drive (hletter : letter.isAlpha) (hsep : isSeparator sep) :
    normalizeRoot (letter :: ':' :: sep :: body) = some (drivePath letter.toUpper
      (resolve [] ((body.splitOnP isSeparator).filterMap windowsSegment))) := by
  have hupper : letter.toUpper.isAlpha := by simpa using hletter
  have hvalid : validDrivePrefix (letter :: ':' :: sep :: body) := hletter
  have habs : isAbsolute (letter :: ':' :: sep :: body) := by
    have hthird : separatorAt (letter :: ':' :: sep :: body) 2 := hsep
    rw [isAbsolute, hvalid, hthird]
    simp
  have hplaced : isDriveRelative (letter :: ':' :: sep :: body) = false := by
    simp [isDriveRelative, hletter, habs]
  have hflavor : flavorOf (letter :: ':' :: sep :: body) = .windows := by
    rw [flavorOf, hvalid, Bool.or_true, if_pos rfl]
  have hspelling : windowsSpelling (letter :: ':' :: sep :: body) [] =
      some (drivePath letter.toUpper ((body.splitOnP isSeparator).filterMap windowsSegment)) := by
    have h : windowsSpellings ([] ++ letter :: ':' :: sep :: body) [] = _ :=
      windowsSpellings_rooted [] (.inl rfl) hletter hsep
    rw [nil_append] at h
    rw [windowsSpelling, h]
    rfl
  rw [normalizeRoot, habs, hplaced, hflavor, hspelling]
  simp only [Bool.not_true, Bool.or_self, Bool.false_eq_true, if_false, if_true, bind_some]
  rw [normalizeSegments_drivePath hupper (segments_windowsSegment body)]
  simp

/-- The working directory `dir` on the drive `drive`, as Windows opens it. -/
def DriveRooted (drive : Char) (dir : List Text) : Prop :=
  ∃ letter sep body names, cwd = letter :: ':' :: sep :: body ∧ letter.isAlpha = true ∧
    isSeparator sep = true ∧ SpelledPath (body.splitOnP isSeparator) names ∧
    drive = letter.toUpper ∧ dir = resolve [] names

lemma DriveRooted.root {cwd : Text} (h : DriveRooted cwd drive dir) :
    ∃ root, normalizeRoot cwd = some root ∧ flavorOf root = .windows := by
  obtain ⟨letter, sep, body, names, rfl, hletter, hsep, -, -, -⟩ := h
  exact ⟨_, normalizeRoot_drive hletter hsep, flavorOf_drivePath (by simpa using hletter) _⟩

lemma DriveRooted.driveDir {cwd : Text} (h : DriveRooted cwd drive dir) (hlegible : Legible cwd) :
    DriveDir cwd drive dir := by
  obtain ⟨letter, sep, body, names, rfl, hletter, hsep, hbody, rfl, rfl⟩ := h
  have hparts := Legible.tail [letter, ':'] hsep hlegible
  refine ⟨by simpa using hletter, by simp, resolve_windowsNames hbody.names, ?_⟩
  rw [normalizeRoot_drive hletter hsep, hbody.resolve hparts]

lemma normalizeCandidates_windows {text cwd root : Text} {letter : Char}
    {segments : List Text} (hroot : normalizeRoot cwd = some root)
    (hflavor : flavorOf root = .windows) (hprovider : providerOf text = none)
    (hletter : letter.isAlpha) (hsegments : ∀ name ∈ segments, ∀ c ∈ name, isSeparator c = false)
    (hspelled : isDriveRelative text = false →
      windowsSpellings text root = some [drivePath letter segments]) :
    normalizeCandidates text cwd = none ∨
      normalizeCandidates text cwd = some [⟨drivePath letter.toUpper (resolve [] segments), .windows⟩]
    := by
  rw [normalizeCandidates, candidateRaw]
  by_cases hblank : (text.all isWhitespace || decide (maxCandidatePathChars < text.length))
  · rw [if_pos hblank]
    exact .inl rfl
  rw [if_neg hblank, hroot]
  simp only [bind_some, hflavor, if_true, stripPowershellProvider_none hprovider]
  cases hdrive : isDriveRelative text with
  | true => exact .inl rfl
  | false =>
    right
    simp only [Bool.false_eq_true, if_false, hspelled hdrive, map_some, bind_some]
    simp [normalizeSegments_drivePath hletter hsegments]

lemma Spells.isAlpha {drive letter : Char} {dir names : List Text} {text : Text}
    (h : Spells drive dir text letter names) (hdrive : drive.isAlpha) :
    letter.isAlpha := by
  cases h with
  | rooted _ hletter _ _ | share _ hletter _ _ _ _ _ => exact hletter
  | relative _ => exact hdrive

/-- A text and what it starts from are read as Windows opens them. -/
structure ReadAsOpened (cwd text : Text) : Prop where
  legible : Legible text
  provider : providerOf text = none
  base : separatorAt text 0 = true ∨ validDrivePrefix text = true ∨ Legible cwd

lemma normalizeCandidates_spelling {cwd text : Text} {drive letter : Char}
    {dir names : List Text} (hcwd : DriveRooted cwd drive dir)
    (h : Spells drive dir text letter names) (hread : ReadAsOpened cwd text)
    (husable : ¬Unusable text) :
    normalizeCandidates text cwd = none ∨
      normalizeCandidates text cwd = some [⟨drivePath letter.toUpper names, .windows⟩] := by
  obtain ⟨hlegible, hprovider, hbase⟩ := hread
  have hdrive : drive.isAlpha := by
    obtain ⟨letter, -, -, -, -, hletter, -, -, rfl, -⟩ := hcwd
    simpa using hletter
  have hletter := h.isAlpha hdrive
  have hupper : letter.toUpper.isAlpha := by simpa using hletter
  obtain ⟨root, hroot, hflavor⟩ := hcwd.root
  cases h with
  | @rooted lead body letter sep names hlead _ hsep hbody =>
    have hparts := Legible.tail (lead ++ [letter, ':']) hsep (by simpa using hlegible)
    have hcandidates := normalizeCandidates_windows hroot hflavor hprovider hupper
      (segments_windowsSegment body) fun _ => windowsSpellings_rooted _ hlead hletter hsep
    rwa [hbody.resolve hparts, Char.toUpper_toUpper_eq_toUpper] at hcandidates
  | @share host body letter a b c d names hhost _ ha hb hc hd hbody =>
    have hparts := Legible.tail (a :: b :: (host ++ [c, letter, '$'])) hd (by simpa using hlegible)
    have hcandidates := normalizeCandidates_windows hroot hflavor hprovider hupper
      (segments_windowsSegment body) fun _ => windowsSpellings_share _ hhost hletter ha hb hc hd
    rwa [hbody.resolve hparts, Char.toUpper_toUpper_eq_toUpper] at hcandidates
  | @relative _ names hbody =>
    obtain ⟨hhead, hfirst⟩ := hbody.relative
    have hdirLegible : Legible cwd := by
      rcases hbase with hsep | hvalid | hbase
      · -- a relative spelling starts with no separator
        rw [separatorAt, ← head?_eq_getElem?] at hsep
        cases hstart : text.head? with
        | none => simp [hstart] at hsep
        | some c =>
          rw [hstart] at hsep hhead
          exact absurd (hsep.symm.trans hhead) (by decide)
      · -- behind a drive letter it is no path
        refine absurd (.inr (.inr ?_)) husable
        match text with
        | c :: d :: rest =>
          have hd : d = ':' := by
            by_contra hd
            simp [validDrivePrefix, hd] at hvalid
          subst hd
          have hc : c.isAlpha := hvalid
          simp [isDriveRelative, isAbsolute_of_relative hhead hfirst, utf8Size_of_isAlpha hc]
      · exact hbase
    have hcwd := hcwd.driveDir hdirLegible
    have hdir : ∀ name ∈ dir, name ≠ [] ∧ ∀ c ∈ name, isSeparator c = false := fun name hname =>
      ⟨(hcwd.names name hname).ne_nil, (hcwd.names name hname).noSeparator⟩
    have hself := filterMap_windowsNames hcwd.names
    have hsegments : ∀ name ∈ (dir ++ text.splitOnP isSeparator).filterMap windowsSegment,
        ∀ c ∈ name, isSeparator c = false := by
      intro name hname
      rw [filterMap_append, hself] at hname
      rcases mem_append.mp hname with hname | hname
      · exact (hdir name hname).2
      · exact segments_windowsSegment text name hname
    have hcandidates := normalizeCandidates_windows hcwd.root
      (flavorOf_drivePath hcwd.letter dir) hprovider hupper hsegments
      fun hplaced => windowsSpellings_relative hletter hdir hbody hplaced
    rwa [filterMap_append, hself, resolve_append, hbody.resolve hlegible, ← resolve_append,
      Char.toUpper_toUpper_eq_toUpper] at hcandidates

/-! ### Letter case -/

/-- Equal but for the case of ASCII letters. -/
def CaseEq (a b : Text) : Prop := a.map Char.toLower = b.map Char.toLower

lemma toNat_of_isUpper (h : c.isUpper) : c.toNat ≤ 90 := by
  simp only [Char.isUpper, ge_iff_le, decide_eq_true_eq] at h
  exact h.2

lemma toLower_of_not_ascii (h : ¬c.toNat < 128) : c.toLower = c :=
  Char.toLower_eq_of_not_isUpper fun hupper =>
    h (Nat.lt_of_le_of_lt (toNat_of_isUpper hupper) (by decide))

lemma toLower_ascii (h : c.toNat < 128) : c.toLower.toNat < 128 := by
  by_cases hupper : c.isUpper
  · have hle := toNat_of_isUpper hupper
    have hvalid : (c.toNat + 32).isValidChar := .inl (by omega)
    rw [Char.toLower_eq_of_isUpper hupper, Char.toNat_ofNat, if_pos hvalid]
    omega
  · rwa [Char.toLower_eq_of_not_isUpper hupper]

lemma charEqual_insensitive (expected c : Char) :
    charEqual expected c true = decide (expected.toLower = c.toLower) := by
  unfold charEqual
  by_cases he : expected.toNat < 128
  · by_cases hc : c.toNat < 128
    · simp [he, hc]
    · have hne : expected ≠ c := by
        rintro rfl
        exact hc he
      have hlower : expected.toLower ≠ c.toLower := by
        intro heq
        have := toLower_ascii he
        rw [heq, toLower_of_not_ascii hc] at this
        exact hc this
      simp [hc, hne, hlower]
  · have hlower : expected.toLower = c.toLower ↔ expected = c := by
      refine ⟨fun heq => ?_, fun heq => by rw [heq]⟩
      rw [toLower_of_not_ascii he] at heq
      by_cases hc : c.toNat < 128
      · exact absurd (heq ▸ toLower_ascii hc) he
      · rwa [toLower_of_not_ascii hc] at heq
    simp [he, hlower]

lemma eq_slash_of_toLower {c d : Char} (h : c.toLower = d.toLower) : c = '/' ↔ d = '/' := by
  have hslash : ∀ c : Char, c.toLower = '/' ↔ c = '/' := by
    intro c
    by_cases hupper : c.isUpper
    · have halpha : c.toLower.isAlpha := by simp [Char.isAlpha, hupper]
      constructor
      · intro heq
        rw [heq] at halpha
        cases halpha
      · rintro rfl
        cases hupper
    · rw [Char.toLower_eq_of_not_isUpper hupper]
  rw [← hslash c, ← hslash d, h]

variable (pattern : Text)

lemma nextRow_congr {c d : Char} (h : c.toLower = d.toLower) (previous : ℕ → Bool) (index : ℕ) :
    nextRow pattern true c previous index = nextRow pattern true d previous index := by
  have hslash : decide (c ≠ '/') = decide (d ≠ '/') := by
    rw [decide_eq_decide, not_iff_not]
    exact eq_slash_of_toLower h
  have hequal : ∀ expected, charEqual expected c true = charEqual expected d true := by
    intro expected
    rw [charEqual_insensitive, charEqual_insensitive, h]
  induction index using nextRow.induct pattern <;>
    simp only [nextRow, if_true, if_false, *]

lemma globStatesMatch_congr {a b : Text} (h : CaseEq a b) :
    globStatesMatch pattern a true = globStatesMatch pattern b true := by
  have hrows : ∀ (a b : Text), CaseEq a b → ∀ row,
      a.foldl (fun previous c => nextRow pattern true c previous) row =
        b.foldl (fun previous c => nextRow pattern true c previous) row := by
    intro a
    induction a with
    | nil =>
      intro b hb row
      obtain rfl : b = [] := by simpa [CaseEq, eq_comm] using hb
      rfl
    | cons c a ih =>
      intro b hb row
      cases b with
      | nil => simp [CaseEq] at hb
      | cons d b =>
        obtain ⟨hc, hrest⟩ := List.cons.inj hb
        have hrow : nextRow pattern true c row = nextRow pattern true d row :=
          funext (nextRow_congr pattern hc row)
        rw [foldl_cons, foldl_cons, hrow]
        exact ih b hrest _
  exact congrFun (hrows a b h _) pattern.length

lemma globMatch_congr (base : Option Text) {a b : Text}
    (h : CaseEq a b) : globMatch pattern a base true = globMatch pattern b base true := by
  have hbase : (fun base => globStatesMatch base a true) = fun base => globStatesMatch base b true :=
    funext fun base => globStatesMatch_congr base h
  rw [globMatch, globMatch, globStatesMatch_congr pattern h, hbase]

lemma map_intercalate (names : List Text) :
    (['/'].intercalate names).map Char.toLower =
      ['/'].intercalate (names.map (List.map Char.toLower)) := by
  induction names with
  | nil => rfl
  | cons name names ih =>
    cases names with
    | nil => simp
    | cons other names =>
      rw [intercalate_cons_cons, map_append, map_append, ih]
      exact intercalate_cons_cons.symm

lemma caseEq_drivePath {letter other : Char} {names others : List Text}
    (hletter : letter.toLower = other.toLower)
    (hnames : names.map (List.map Char.toLower) = others.map (List.map Char.toLower)) :
    CaseEq (drivePath letter names) (drivePath other others) := by
  have hempty : names = [] ↔ others = [] := by
    rw [← map_eq_nil_iff (f := List.map Char.toLower), hnames, map_eq_nil_iff]
  have hroot : ∀ c : Char, ([c, ':', '/'] : Text).getLast? = some '/' := fun _ => rfl
  unfold CaseEq drivePath joinSegments
  by_cases hne : names = []
  · rw [if_pos hne, if_pos (hempty.mp hne)]
    simp [hletter]
  · rw [if_neg hne, if_neg fun h => hne (hempty.mpr h), if_pos (hroot letter), if_pos (hroot other),
      map_append, map_append, map_intercalate, map_intercalate, hnames]
    simp [hletter]

/-! ### The decision -/

/-- On this drive, in this directory, the text names the file. -/
def Opens (drive : Char) (dir : List Text) (text : Text)
    (file : Char × List Text) : Prop :=
  ∃ letter names, Spells drive dir text letter names ∧ letter.toLower = file.1.toLower ∧
    names.map (List.map Char.toLower) = file.2.map (List.map Char.toLower)

/-- The path of the file that a text names, in the text's own letters. -/
def Names (drive : Char) (dir : List Text) (text path : Text) : Prop :=
  ∃ letter names, Spells drive dir text letter names ∧ path = drivePath letter.toUpper names

lemma names_caseEq {a b : Text} {file : Char × List Text} (ha : Opens drive dir a file)
    (hb : Opens drive dir b file) :
    ∃ path other, Names drive dir a path ∧ Names drive dir b other ∧ CaseEq path other := by
  obtain ⟨letter, names, hspells, hletter, hnames⟩ := ha
  obtain ⟨letter', names', hspells', hletter', hnames'⟩ := hb
  refine ⟨_, _, ⟨_, _, hspells, rfl⟩, ⟨_, _, hspells', rfl⟩, ?_⟩
  refine caseEq_drivePath ?_ (hnames.trans hnames'.symm)
  rw [Char.toLower_toUpper_eq_toLower, Char.toLower_toUpper_eq_toLower, hletter, hletter']

lemma candidates_named {cwd text path : Text} (hcwd : DriveRooted cwd drive dir)
    (hnames : Names drive dir text path) (hread : ReadAsOpened cwd text)
    (husable : normalizeCandidate text cwd ≠ none) :
    normalizeCandidates text cwd = some [⟨path, .windows⟩] := by
  obtain ⟨letter, names, hspells, rfl⟩ := hnames
  rcases normalizeCandidates_spelling hcwd hspells hread
    (fun h => husable (normalizeCandidate_unusable h cwd)) with hnone | hsome
  · exact absurd (by rw [normalizeCandidate, hnone]; rfl) husable
  · exact hsome

/-- A pattern matches the file that a text names. -/
def CapturePolicy.Hides (U : Unicode) (policy : CapturePolicy) (path : Text) : Prop :=
  ∃ pattern ∈ policy.patterns, pattern.flavor = .windows ∧ globMatch pattern.path
    (policy.foldCandidate U ⟨path, .windows⟩).path pattern.directoryBase true = true

/-- Two spellings of one file that the policy reads as such; a folding policy also folds their
letters alike. -/
def SpelledAlike (U : Unicode) (foldCase : Bool) (cwd : Text) (drive : Char) (dir : List Text)
    (text text' : Text) : Prop :=
  ReadAsOpened cwd text ∧ ReadAsOpened cwd text' ∧ (∃ file, Opens drive dir text file ∧
    Opens drive dir text' file) ∧ (foldCase = true → ∀ path path', Names drive dir text path →
      Names drive dir text' path' → CaseEq path path' → CaseEq (U.foldPath path) (U.foldPath path'))

lemma CapturePolicy.Hides.congr {U : Unicode} {policy : CapturePolicy} {path other : Text}
    (h : policy.Hides U path) (heq : CaseEq path other)
    (hfold : policy.foldCase → CaseEq (U.foldPath path) (U.foldPath other)) :
    policy.Hides U other := by
  obtain ⟨pattern, hpattern, hflavor, hmatch⟩ := h
  refine ⟨pattern, hpattern, hflavor, ?_⟩
  have hfolded : CaseEq (policy.foldCandidate U ⟨path, .windows⟩).path
      (policy.foldCandidate U ⟨other, .windows⟩).path := by
    unfold foldCandidate
    split
    · rename_i hcase
      exact hfold hcase
    · exact heq
  rwa [← globMatch_congr pattern.path pattern.directoryBase hfolded]

/-- A file tool that is dropped under some spellings of its files is kept under no others: under
none if one of the others is no path, or is read as Windows opens it and names a matched file. -/
theorem spellings_decide_alike (U : Unicode) {policy : CapturePolicy} {agent agent' : AgentKind}
    {raw raw' : Value} {cwd : Text} {paths paths' : List Text} {drive : Char}
    {dir : List Text} (hactive : policy.state = .active) (hcwd : DriveRooted cwd drive dir)
    (hfile : (extract agent raw).family = .file) (hglobs : (extract agent raw).globs = false)
    (hpaths : (extract agent raw).paths = some paths)
    (hfile' : (extract agent' raw').family = .file) (hglobs' : (extract agent' raw').globs = false)
    (hpaths' : (extract agent' raw').paths = some paths')
    (hread : (∀ text ∈ paths, ∃ text' ∈ paths', SpelledAlike U policy.foldCase cwd drive dir text text')
      ∨ ∃ text' ∈ paths', Unusable text' ∨ ReadAsOpened cwd text' ∧
        ∃ path, Names drive dir text' path ∧ policy.Hides U path)
    (hdrop : (policy.inspect U agent raw cwd).protocol.disposition = .drop) :
    (policy.inspect U agent' raw' cwd).protocol.disposition ≠ .keep := by
  intro hkeep
  obtain ⟨husable', hmiss⟩ := CapturePolicy.keep_inv hactive hfile' hglobs' hpaths' hkeep
  have hnotHidden : ∀ text' ∈ paths', ReadAsOpened cwd text' → ∀ path,
      Names drive dir text' path → ¬policy.Hides U path := by
    rintro text' htext' hopened path hnames ⟨pattern, hpattern, hflavor, hmatch⟩
    have hcandidates := candidates_named hcwd hnames hopened (husable' text' htext')
    have hfalse := CapturePolicy.matchPaths_false hmiss text' htext' _ hcandidates _
      (mem_singleton.mpr rfl) pattern hpattern hflavor
    rw [hflavor, decide_eq_true rfl, Bool.true_or, hmatch] at hfalse
    cases hfalse
  rcases hread with hread | ⟨text', htext', hunusable | ⟨hopened, path, hnames, hhides⟩⟩
  · obtain ⟨husable, hhit⟩ := CapturePolicy.drop_inv hactive hfile hglobs hpaths hdrop
    obtain ⟨text, htext, first, hfirst, candidate, hcandidate, pattern, hpattern, hflavor, hmatch⟩ :=
      CapturePolicy.matchPaths_true hhit
    obtain ⟨text', htext', hopened, hopened', ⟨file, hopens, hopens'⟩, hfold⟩ := hread text htext
    obtain ⟨path, other, hnames, hnames', heq⟩ := names_caseEq hopens hopens'
    have hcandidates := candidates_named hcwd hnames hopened (husable text htext)
    obtain rfl := Option.some.inj (hcandidates.symm.trans hfirst)
    obtain rfl := mem_singleton.mp hcandidate
    rw [hflavor, decide_eq_true rfl, Bool.true_or] at hmatch
    have hhides : policy.Hides U path := ⟨pattern, hpattern, hflavor, hmatch⟩
    exact hnotHidden text' htext' hopened' other hnames'
      (hhides.congr heq fun hcase => hfold hcase _ _ hnames hnames' heq)
  · exact husable' text' htext' (normalizeCandidate_unusable hunusable cwd)
  · exact hnotHidden text' htext' hopened path hnames hhides

lemma legible_of_none {text : Text}
    (h : ∀ part ∈ text.splitOnP isSeparator, holdsExpansion part = false) : Legible text := by
  intro part hpart hholds
  rw [h part hpart] at hholds
  cases hholds

lemma driveRooted_repo : DriveRooted "C:\\repo".toList 'C' ["repo".toList] := by
  have hname : WindowsName "repo".toList := ⟨by decide, by simp [isSeparator], by decide, by simp⟩
  refine ⟨'C', '\\', "repo".toList, ["repo".toList], rfl, by decide, rfl, ?_, by decide,
    by decide +kernel⟩
  show SpelledPath ["repo".toList ++ [] ++ []] ["repo".toList]
  exact .last hname (forall_mem_nil _) (.inl rfl)

lemma opens_relative {body name file : Text} (drive : Char) (dir : List Text)
    (filler : Text) (hbody : body.splitOnP isSeparator = [name, file ++ filler]) (hname : WindowsName name)
    (hfile : WindowsName file) (hfiller : Filler filler) :
    Opens drive dir body (drive, resolve [] (dir ++ [name, file])) := by
  refine ⟨drive, _, .relative ?_, rfl, rfl⟩
  have hparts : SpelledPath [name ++ [], file ++ filler ++ []] [name, file] :=
    .name hname (forall_mem_nil _) (.last hfile hfiller (.inl rfl))
  rw [hbody]
  simpa using hparts

theorem spellings_decide_alike_dotted :
    let policy := CapturePolicy.resolveForHost asciiUnicode (.parsed ["docs/*.md".toList])
      "C:/repo".toList none true
    (policy.inspect asciiUnicode .claudeCode (readCall "docs\\secret.md")
        "C:\\repo".toList).protocol.disposition = .drop ∧
      (policy.inspect asciiUnicode .claudeCode (readCall "docs/secret.md. ")
        "C:\\repo".toList).protocol.disposition ≠ .keep := by
  intro policy
  have hdrop : (policy.inspect asciiUnicode .claudeCode (readCall "docs\\secret.md")
      "C:\\repo".toList).protocol.disposition = .drop := by decide +kernel
  have hdocs : WindowsName "docs".toList := ⟨by decide, by simp [isSeparator], by decide, by simp⟩
  have hsecret : WindowsName "secret.md".toList :=
    ⟨by decide, by simp [isSeparator], by decide, by simp⟩
  have hpaths : (extract .claudeCode (readCall "docs\\secret.md")).paths =
      some ["docs\\secret.md".toList] := by decide +kernel
  have hpaths' : (extract .claudeCode (readCall "docs/secret.md. ")).paths =
      some ["docs/secret.md. ".toList] := by decide +kernel
  have hcwd : Legible "C:\\repo".toList := legible_of_none (by decide)
  have hread : SpelledAlike asciiUnicode true "C:\\repo".toList 'C' ["repo".toList]
      "docs\\secret.md".toList "docs/secret.md. ".toList := by
    refine ⟨⟨legible_of_none (by decide +kernel), by decide +kernel, .inr (.inr hcwd)⟩,
      ⟨legible_of_none (by decide +kernel), by decide +kernel, .inr (.inr hcwd)⟩, ⟨_,
        opens_relative 'C' _ [] rfl hdocs hsecret (forall_mem_nil _),
        opens_relative 'C' _ ['.', ' '] rfl hdocs hsecret (by simp [Filler])⟩,
      fun _ _ _ _ _ heq => heq⟩
  exact ⟨hdrop, spellings_decide_alike asciiUnicode (by decide +kernel : policy.state = .active)
    driveRooted_repo (by decide +kernel) (by decide +kernel) hpaths (by decide +kernel)
    (by decide +kernel) hpaths'
    (.inl (forall_mem_singleton.mpr ⟨_, mem_singleton.mpr rfl, hread⟩)) hdrop⟩

/-- A dot behind a name with brackets leaves the reach of the pattern. -/
theorem bracketed_kept :
    DriveRooted "C:\\repo".toList 'C' ["repo".toList] ∧
      Opens 'C' ["repo".toList] "docs\\report(1).md".toList
        ('C', resolve [] (["repo".toList] ++ ["docs".toList, "report(1).md".toList])) ∧
      Opens 'C' ["repo".toList] "docs\\report(1).md.".toList
        ('C', resolve [] (["repo".toList] ++ ["docs".toList, "report(1).md".toList])) ∧
      ((ignoring ["docs/*.md"] "C:/repo").inspect asciiUnicode .claudeCode
        (readCall "docs\\report(1).md") "C:\\repo".toList).protocol.disposition = .drop ∧
      ((ignoring ["docs/*.md"] "C:/repo").inspect asciiUnicode .claudeCode
        (readCall "docs\\report(1).md.") "C:\\repo".toList).protocol.disposition = .keep := by
  have hdocs : WindowsName "docs".toList := ⟨by decide, by simp [isSeparator], by decide, by simp⟩
  have hreport : WindowsName "report(1).md".toList :=
    ⟨by decide, by simp [isSeparator], by decide, by simp⟩
  refine ⟨driveRooted_repo, ?_, ?_, by decide +kernel, by decide +kernel⟩
  · exact opens_relative 'C' _ [] rfl hdocs hreport (forall_mem_nil _)
  · exact opens_relative 'C' _ ['.'] rfl hdocs hreport (by simp [Filler])

end Capture
