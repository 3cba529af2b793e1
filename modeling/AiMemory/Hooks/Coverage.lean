/-
What the readings of a glob path cover.

A `**` segment stands for any list of names.  When every `**` of an absolute path is replaced
and `.` and `..` are then resolved, the result is an instance of one of the readings, as long
as no `..` steps back from two `**` in a row or from a segment with more than `**` in it.
-/
import AiMemory.Lib.Wildcards
import AiMemory.Hooks.Posix

open Strings Wildcards List

namespace Capture

def PlainSegment (segment : Text) : Prop := IsName segment ∧ '/' ∉ segment

/-- Each `**` segment is replaced by a list of names. -/
def Instance : List Text → List Text → Prop := Expands globstar PlainSegment

def segmentsOf (path : Text) : List Text := (path.splitOn '/').filter (· ≠ [])

/-- Whether a `..` meets a reading, top segment first, that it takes the wrong segments of: one
with two `**` on top of a name, which may both stand for nothing, or one with a `**` inside other
text on top of something.  Past sixteen live readings nothing is read any more. -/
def misread (U : Unicode) : List (List Text) → List Text → List Text → Bool
  | _, _, [] => false
  | live, stack, part :: rest =>
    let parent := rest ≠ [] && part ≠ dotdot && couldNameParent U part
    let live := live.foldl (forkReading part parent) []
    if maxGlobstarReadings < live.length then false
    else if part ≠ dotdot then misread U live (part :: stack) rest
    else match stack with
    | [] => misread U live [] rest
    | top :: below =>
      if top = globstar then
        if below.all (· = globstar) then misread U live stack rest
        else decide (below.head? = some globstar) || misread U live stack rest ||
          misread U live below.tail rest
      else if holdsGlobstar top then decide (below ≠ []) || misread U live [] rest
      else misread U live below rest

lemma Instance.significant {parts expanded : List Text} (h : Instance parts expanded) :
    Instance (significant parts) (significant expanded) := by
  refine Expands.filter (by decide) ?_ h
  rintro segment ⟨⟨hne, hdot, -⟩, -⟩
  simp [hne, hdot]

lemma mem_keep (readings : List (List Text)) (parts : List Text) :
    parts ∈ keep readings parts := by
  unfold keep
  split
  · assumption
  · exact mem_append_right _ (mem_singleton.mpr rfl)

variable {readings : List (List Text)} {part : Text} {parts rest expanded reading path : List Text}

lemma subset_keep {parts reading : List Text}
    (h : reading ∈ readings) : reading ∈ keep readings parts := by
  unfold keep
  split
  · exact h
  · exact mem_append_left _ h

lemma subset_forkReading {parent : Bool} {next : List (List Text)}
    {parts reading : List Text} (h : reading ∈ next) :
    reading ∈ forkReading part parent next parts := by
  have hup : reading ∈ if parent then keep next parts.dropLast else next := by
    split
    · exact subset_keep h
    · exact h
  unfold forkReading
  dsimp only
  split
  · exact subset_keep hup
  · split
    · exact subset_keep (subset_keep hup)
    · exact subset_keep hup

lemma mem_foldl_forkReading {parent : Bool}
    {readings next : List (List Text)} {parts reading : List Text}
    (hparts : parts ∈ readings) (h : ∀ next, reading ∈ forkReading part parent next parts) :
    reading ∈ readings.foldl (forkReading part parent) next := by
  have hlater : ∀ (readings next : List (List Text)), reading ∈ next →
      reading ∈ readings.foldl (forkReading part parent) next := by
    intro readings
    induction readings with
    | nil => exact fun _ hmem => hmem
    | cons other readings ih => exact fun next hmem => ih _ (subset_forkReading hmem)
  induction readings generalizing next with
  | nil => cases hparts
  | cons other readings ih =>
    rcases mem_cons.mp hparts with rfl | hparts
    · exact hlater readings _ (h next)
    · exact ih hparts

lemma forkReading_push (hpart : part ≠ dotdot) (parent : Bool)
    (next : List (List Text)) (parts : List Text) :
    parts ++ [part] ∈ forkReading part parent next parts := by
  unfold forkReading
  rw [if_pos hpart]
  exact mem_keep _ _

lemma forkReading_none (hlast : parts.getLast?.any holdsGlobstar) (parent : Bool)
    (next : List (List Text)) :
    parts.dropLast.dropLast ∈ forkReading dotdot parent next parts := by
  unfold forkReading
  rw [if_neg (not_not.mpr rfl), if_pos hlast]
  exact subset_keep (mem_keep _ _)

lemma forkReading_stay (hlast : parts.getLast?.any holdsGlobstar) (parent : Bool)
    (next : List (List Text)) : parts ∈ forkReading dotdot parent next parts := by
  unfold forkReading
  rw [if_neg (not_not.mpr rfl), if_pos hlast]
  exact mem_keep _ _

lemma forkReading_pop (hlast : parts.getLast?.any holdsGlobstar = false) (parent : Bool)
    (next : List (List Text)) : parts.dropLast ∈ forkReading dotdot parent next parts := by
  unfold forkReading
  rw [if_neg (not_not.mpr rfl), if_neg (by rw [hlast]; exact Bool.false_ne_true)]
  exact mem_keep _ _

/-! ### Segment by segment -/

/-- A reading covers a resolved path. -/
structure Covers (reading path : List Text) : Prop where
  isInstance : Instance reading path
  names : ∀ segment ∈ reading, PlainSegment segment

lemma names_snoc {reading : List Text}
    (h : ∀ segment ∈ reading, PlainSegment segment) (hpart : PlainSegment part) :
    ∀ segment ∈ reading ++ [part], PlainSegment segment := by
  intro segment hsegment
  rcases mem_append.mp hsegment with hsegment | hsegment
  · exact h segment hsegment
  · rwa [mem_singleton.mp hsegment]

lemma Covers.star {reading path items : List Text} (h : Covers reading path)
    (hitems : ∀ s ∈ items, PlainSegment s) : Covers (reading ++ [globstar]) (path ++ items) :=
  ⟨expands_snoc_star.mpr ⟨path, items, rfl, hitems, h.isInstance⟩,
    names_snoc h.names ⟨⟨by decide, by decide, by decide⟩, by decide⟩⟩

lemma Covers.other {reading path : List Text} (h : Covers reading path)
    (hstar : part ≠ globstar) (hpart : PlainSegment part) :
    Covers (reading ++ [part]) (path ++ [part]) :=
  ⟨(expands_snoc hstar).mpr ⟨path, rfl, h.isInstance⟩, names_snoc h.names hpart⟩

/-- What a `..` leaves of a covering reading covers what it leaves of the path. -/
theorem Covers.up {U : Unicode} {live : List (List Text)} {rest reading path : List Text}
    (h : Covers reading path)
    (hlive : (live.foldl (forkReading dotdot false) []).length ≤ maxGlobstarReadings)
    (hread : misread U live reading.reverse (dotdot :: rest) = false) :
    ∃ next, (∀ parent others, next ∈ forkReading dotdot parent others reading) ∧
      Covers next path.dropLast ∧
      misread U (live.foldl (forkReading dotdot false) []) next.reverse rest = false := by
  obtain ⟨hinst, hnames⟩ := h
  have hparent : (rest ≠ [] && dotdot ≠ dotdot && couldNameParent U dotdot : Bool) = false := by simp
  rw [misread.eq_def] at hread
  dsimp only at hread
  rw [hparent, if_neg (Nat.not_lt.mpr hlive), if_neg (not_not.mpr rfl)] at hread
  rcases eq_nil_or_concat' reading with rfl | ⟨before, top, rfl⟩
  · cases hinst
    exact ⟨[], forkReading_pop rfl, ⟨.nil, hnames⟩, hread⟩
  have hbefore : ∀ segment ∈ before, PlainSegment segment :=
    fun segment hsegment => hnames segment (mem_append_left _ hsegment)
  have htop : (before ++ [top]).getLast?.any holdsGlobstar = holdsGlobstar top := by
    rw [getLast?_append]
    rfl
  simp only [reverse_append, reverse_singleton, singleton_append] at hread
  by_cases hstar : top = globstar
  · subst hstar
    have hlast : (before ++ [globstar]).getLast?.any holdsGlobstar := htop
    rw [if_pos rfl] at hread
    by_cases hall : before.reverse.all (· = globstar)
    · -- a reading of `**` alone covers whatever the `..` leaves
      rw [if_pos hall] at hread
      have hstars : ∀ s ∈ before ++ [globstar], s = globstar := by
        simp only [all_eq_true, mem_reverse, decide_eq_true_eq] at hall
        simpa [or_imp, forall_and] using hall
      have hpath := Expands.plain hinst hnames
      refine ⟨_, forkReading_stay hlast, ⟨?_, hnames⟩, by simpa using hread⟩
      exact expands_stars hstars (fun s hs => hpath s (dropLast_subset _ hs)) (by simp)
    rw [if_neg hall] at hread
    simp only [Bool.or_eq_false_iff, decide_eq_false_iff_not] at hread
    obtain ⟨⟨hbelow, hstay⟩, hnone⟩ := hread
    obtain ⟨first, items, rfl, hitems, hfirst⟩ := expands_snoc_star.mp hinst
    rcases eq_nil_or_concat' items with rfl | ⟨some, last, rfl⟩
    · -- the `**` stands for nothing, and the `..` takes the segment before it
      refine ⟨_, forkReading_none hlast, ?_⟩
      rw [append_nil, dropLast_concat]
      rcases eq_nil_or_concat' before with rfl | ⟨lower, below, rfl⟩
      · cases hfirst
        exact ⟨⟨.nil, fun _ hmem => (nomatch hmem)⟩, hnone⟩
      · have hne : below ≠ globstar := by
          rintro rfl
          exact hbelow (by simp)
        obtain ⟨front, rfl, hfront⟩ := (expands_snoc hne).mp hfirst
        rw [dropLast_concat, dropLast_concat]
        refine ⟨⟨hfront, fun s hs => hbefore s (mem_append_left _ hs)⟩, ?_⟩
        rw [reverse_append] at hnone
        exact hnone
    · -- it stands for a directory that the `..` takes
      refine ⟨_, forkReading_stay hlast, ⟨?_, hnames⟩, ?_⟩
      · rw [← append_assoc, dropLast_concat]
        exact expands_snoc_star.mpr ⟨first, some, rfl,
          fun s hs => hitems s (mem_append_left _ hs), hfirst⟩
      · rw [reverse_append]
        exact hstay
  rw [if_neg hstar] at hread
  obtain ⟨front, rfl, hfront⟩ := (expands_snoc hstar).mp hinst
  rw [dropLast_concat]
  by_cases hholds : holdsGlobstar top
  · -- the root is all that is left
    rw [if_pos hholds, Bool.or_eq_false_iff, decide_eq_false_iff_not, not_not,
      reverse_eq_nil_iff] at hread
    obtain ⟨rfl, hroot⟩ := hread
    exact ⟨[], forkReading_none (htop.trans hholds), ⟨hfront, hbefore⟩, hroot⟩
  · rw [if_neg hholds] at hread
    rw [Bool.not_eq_true] at hholds
    refine ⟨_, forkReading_pop (htop.trans hholds), ?_⟩
    rw [dropLast_concat]
    exact ⟨⟨hfront, hbefore⟩, hread⟩

/-- The segments of a path, empty and `.` segments left out. -/
def PathSegments (parts : List Text) : Prop :=
  ∀ segment ∈ parts, segment ≠ [] ∧ segment ≠ ['.'] ∧ '/' ∉ segment

lemma resolve_items {items : List Text} (h : ∀ s ∈ items, PlainSegment s)
    (path : List Text) : resolve path items = path ++ items :=
  resolve_names fun s hs => (h s hs).1

variable (U : Unicode)

lemma covers_step {live : List (List Text)}
    (hinst : Instance (part :: rest) expanded) (hpart : part ≠ [] ∧ part ≠ ['.'] ∧ '/' ∉ part)
    (hmem : reading ∈ readings) (h : Covers reading path)
    (hlive : live = readings.foldl
      (forkReading part (rest ≠ [] && part ≠ dotdot && couldNameParent U part)) [])
    (hfew : live.length ≤ maxGlobstarReadings)
    (hread : misread U readings reading.reverse (part :: rest) = false) :
    ∃ first out next, expanded = first ++ out ∧ Instance rest out ∧ next ∈ live ∧
      Covers next (resolve path first) ∧ misread U live next.reverse rest = false := by
  have hpush : part ≠ dotdot → misread U live (reading ++ [part]).reverse rest = false := by
    intro hdots
    rw [misread.eq_def] at hread
    dsimp only at hread
    rwa [← hlive, if_neg (Nat.not_lt.mpr hfew), if_pos hdots, ← reverse_concat] at hread
  cases hinst with
  | @star _ out items hitems hout =>
    refine ⟨items, out, reading ++ [globstar], rfl, hout, ?_, ?_, hpush (by decide)⟩
    · rw [hlive]
      exact mem_foldl_forkReading hmem fun next => forkReading_push (by decide) _ next reading
    · rw [resolve_items hitems]
      exact h.star hitems
  | @other _ out _ hstar hout =>
    by_cases hdots : part = dotdot
    · subst hdots
      have hparent : (rest ≠ [] && dotdot ≠ dotdot && couldNameParent U dotdot : Bool) = false := by
        simp
      rw [hparent] at hlive
      subst hlive
      obtain ⟨next, hnext, hcovers, hlater⟩ := h.up hfew hread
      exact ⟨[dotdot], out, next, rfl, hout, mem_foldl_forkReading hmem (hnext _), hcovers, hlater⟩
    · have hname : PlainSegment part := ⟨⟨hpart.1, hpart.2.1, hdots⟩, hpart.2.2⟩
      refine ⟨[part], out, reading ++ [part], rfl, hout, ?_, ?_, hpush hdots⟩
      · rw [hlive]
        exact mem_foldl_forkReading hmem fun next => forkReading_push hdots _ next reading
      · rw [resolve_items fun s hs => mem_singleton.mp hs ▸ hname]
        exact h.other hstar hname

lemma covers_run
    {readings result : List (List Text)} (hinst : Instance rest expanded)
    (hrest : PathSegments rest) (hmem : reading ∈ readings) (h : Covers reading path)
    (hread : misread U readings reading.reverse rest = false)
    (hrun : readSegments U readings rest = some result) :
    ∃ last ∈ result, Covers last (resolve path expanded) := by
  induction rest generalizing expanded reading path readings with
  | nil =>
    cases hinst
    obtain rfl : readings = result := Option.some.inj hrun
    exact ⟨reading, hmem, h⟩
  | cons part rest ih =>
    rw [readSegments] at hrun
    split at hrun
    · cases hrun
    · rename_i hfew
      obtain ⟨first, out, next, rfl, hout, hnext, hcovers, hlater⟩ := covers_step U hinst
        (hrest part mem_cons_self) hmem h rfl (Nat.not_lt.mp hfew) hread
      rw [resolve_append]
      exact ih hout (fun s hs => hrest s (mem_cons_of_mem _ hs)) hnext hcovers hlater hrun

/-! ### A whole path -/

/-- A path whose segments the reader of globs does not misread. -/
structure Readable (U : Unicode) (path : Text) : Prop where
  short : path.length ≤ maxCandidatePathChars
  noBackslash : '\\' ∉ path
  noColon : path[1]? ≠ some ':'
  read : misread U [[]] [] (significant (path.splitOn '/')) = false

lemma segmentsOf_posixPath (h : ∀ s ∈ parts, PlainSegment s) :
    segmentsOf (posixPath parts) = parts := by
  by_cases hne : parts = []
  · rw [hne]
    rfl
  · rw [segmentsOf, splitOn_posixPath hne fun s hs => (h s hs).2, filter_cons_of_neg (by simp)]
    refine filter_eq_self.mpr fun s hs => ?_
    simp [(h s hs).1.1]

lemma pathSegments_significant (path : Text) :
    PathSegments (significant (path.splitOn '/')) := by
  intro segment hsegment
  obtain ⟨hmem, hkeep⟩ := mem_filter.mp hsegment
  have hkeep := of_decide_eq_true hkeep
  exact ⟨hkeep.1, hkeep.2, notMem_segment hmem⟩

lemma all_isWhitespace_slash {path : Text} (h : path.head? = some '/') :
    path.all isWhitespace = false := by
  cases path with
  | nil => cases h
  | cons c rest =>
    obtain rfl : c = '/' := Option.some.inj h
    have hslash : isWhitespace '/' = false := by decide
    rw [all_cons, hslash, Bool.false_and]

lemma normalizeReadings_joined {argument cwd raw : Text}
    (hraw : candidateRaw argument cwd = some ([raw], .posix))
    (hdir : PosixDir raw) (hparts : significant (raw.splitOn '/') = parts) :
    normalizeReadings U argument cwd = none ∨
      ∃ readings, readSegments U [[]] parts = some readings ∧ normalizeReadings U argument cwd =
          some (some (readings.map fun parts => ⟨posixPath parts, .posix⟩)) := by
  have htail : ((raw.drop 1).splitOn '/').filter (fun part => part ≠ [] ∧ part ≠ ['.']) = parts :=
    (significant_drop hdir.absolute).trans hparts
  rw [normalizeReadings, hraw]
  simp only [collectReadings, rawReadings, splitRoot_posix hdir, htail]
  cases hrun : readSegments U [[]] parts with
  | none => exact .inl rfl
  | some readings =>
    simp only [Option.map_some, nil_append]
    split
    · exact .inl rfl
    · exact .inr ⟨readings, rfl, rfl⟩

lemma normalizeReadings_absolute {path cwd root : Text}
    (habs : path.head? = some '/') (hroot : normalizeRoot cwd = some root)
    (hflavor : flavorOf root = .posix) (hread : Readable U path) :
    normalizeReadings U path cwd = none ∨
      ∃ readings, readSegments U [[]] (significant (path.splitOn '/')) = some readings ∧
        normalizeReadings U path cwd =
          some (some (readings.map fun parts => ⟨posixPath parts, .posix⟩)) := by
  have habsolute : isAbsolute path := by
    cases path with
    | nil => cases habs
    | cons c rest =>
      obtain rfl : c = '/' := Option.some.inj habs
      rfl
  obtain ⟨raw, hraw, hdir, hsegments⟩ := candidateRaw_joined hroot hflavor
    (all_isWhitespace_slash habs) hread.short (isDriveRelative_slash habs hread.noColon)
    (if_pos habsolute) habs hread.noBackslash
  exact normalizeReadings_joined U hraw hdir hsegments

/-- Whatever the `**` of an absolute path stand for, the file is an instance of a reading. -/
theorem normalizeReadings_covers (U : Unicode) {path cwd root : Text}
    (habs : path.head? = some '/') (hroot : normalizeRoot cwd = some root)
    (hflavor : flavorOf root = .posix) (hread : Readable U path) :
    normalizeReadings U path cwd = none ∨
      ∃ readings, normalizeReadings U path cwd = some (some readings) ∧
        ∀ expanded, Instance (path.splitOn '/') expanded →
          ∃ reading ∈ readings, Instance (segmentsOf reading.path) (resolve [] expanded) := by
  rcases normalizeReadings_absolute U habs hroot hflavor hread with hnone | ⟨result, hrun, heq⟩
  · exact .inl hnone
  refine .inr ⟨_, heq, fun expanded hinst => ?_⟩
  have hstart : Covers [] [] := ⟨.nil, fun _ hmem => nomatch hmem⟩
  obtain ⟨last, hlast, hcovers⟩ := covers_run U hinst.significant (pathSegments_significant path)
    (mem_singleton.mpr rfl) hstart hread.read hrun
  refine ⟨_, mem_map_of_mem hlast, ?_⟩
  rw [segmentsOf_posixPath hcovers.names, ← resolve_significant]
  exact hcovers.isInstance

theorem normalizeReadings_covers_sibling :
    normalizeReadings asciiUnicode "/a/**/../b".toList "/repo".toList = none ∨
      ∃ readings,
        normalizeReadings asciiUnicode "/a/**/../b".toList "/repo".toList = some (some readings) ∧
        ∀ expanded, Instance ("/a/**/../b".toList.splitOn '/') expanded →
          ∃ reading ∈ readings, Instance (segmentsOf reading.path) (resolve [] expanded) :=
  normalizeReadings_covers asciiUnicode rfl
    (by decide : normalizeRoot "/repo".toList = some "/repo".toList) (by decide)
    ⟨by decide, by decide, by decide, by decide⟩

/-- Two `**` in a row that both stand for nothing: the `..` behind them steps back from `a`,
which no reading does. -/
theorem misses_two_empty :
    ¬(normalizeReadings asciiUnicode "/a/**/**/../b".toList "/repo".toList = none ∨
      ∃ readings,
        normalizeReadings asciiUnicode "/a/**/**/../b".toList "/repo".toList =
          some (some readings) ∧
        ∀ expanded, Instance ("/a/**/**/../b".toList.splitOn '/') expanded →
          ∃ reading ∈ readings, Instance (segmentsOf reading.path) (resolve [] expanded)) := by
  have hreadings : normalizeReadings asciiUnicode "/a/**/**/../b".toList "/repo".toList =
      some (some [⟨"/a/b".toList, .posix⟩, ⟨"/a/**/**/b".toList, .posix⟩]) := by decide
  have hother : ∀ {l out : List Text} {s : Text}, s ≠ globstar → Instance l out →
      Instance (s :: l) (s :: out) := Expands.other
  have hnone : ∀ {l out : List Text}, Instance l out → Instance (globstar :: l) ([] ++ out) :=
    fun h => Expands.star (fun _ hmem => (nomatch hmem)) h
  have hinst : Instance ("/a/**/**/../b".toList.splitOn '/') [[], ['a'], dotdot, ['b']] := by
    show Instance [[], ['a'], globstar, globstar, dotdot, ['b']] [[], ['a'], dotdot, ['b']]
    exact hother (by decide) (hother (by decide) (hnone (hnone
      (hother (by decide) (hother (by decide) .nil)))))
  have hresolve : resolve [] [[], ['a'], dotdot, ['b']] = [['b']] := by decide
  -- both readings start with `a`
  have hfirst : ∀ {l : List Text}, ¬Instance (['a'] :: l) [['b']] := by
    intro l h
    obtain ⟨_, hhead, -⟩ := Expands.cons_inv (by decide) h
    exact absurd (List.cons.inj hhead).1 (by decide)
  rw [hreadings]
  rintro (hnever | ⟨readings, heq, hcover⟩)
  · cases hnever
  · obtain rfl := Option.some.inj (Option.some.inj heq)
    obtain ⟨reading, hmem, hreading⟩ := hcover _ hinst
    rw [hresolve] at hreading
    rcases mem_cons.mp hmem with rfl | hmem
    · exact hfirst hreading
    · obtain rfl := mem_singleton.mp hmem
      exact hfirst hreading

end Capture
