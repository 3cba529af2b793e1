/-
The readings of a path and its lexical resolution.

Lexically a `..` takes the segment before it, whatever it is.  The readings take it as the
shell does, so they leave the lexical path at a `..` behind a `**`.  One of them keeps the
segments that the lexical path has up to there, which is enough to compare it with what the
lexical path is below.
-/
import AiMemory.Hooks.Coverage

open Strings List

namespace Capture

/-- How many `..` take a reading back to a segment it holds, top segment first: one for each
segment, and one for a `**` with the segment before it. -/
def owed : List Text → ℕ
  | [] => 0
  | [_] => 1
  | top :: below :: rest => 1 + if holdsGlobstar top then owed rest else owed (below :: rest)

lemma owed_cons (top : Text) (rest : List Text) :
    owed rest ≤ owed (top :: rest) ∧ owed (top :: rest) ≤ 1 + owed rest := by
  induction rest generalizing top with
  | nil => exact ⟨Nat.zero_le _, Nat.le_refl _⟩
  | cons below rest ih =>
    obtain ⟨hle, hge⟩ := ih below
    rw [owed]
    split
    · exact ⟨hge, Nat.add_le_add_left hle 1⟩
    · exact ⟨Nat.le_add_left .., Nat.le_refl _⟩

/-- A reading is the path, or both agree up to a `**` of the reading, and the path has as many
segments behind there as the reading owes. -/
inductive Follows (reading path : List Text) : Prop
  | same (h : reading = path)
  | apart (front stack behind : List Text) (star : Text)
    (hreading : reading = front ++ star :: stack.reverse) (hpath : path = front ++ behind)
    (hstar : holdsGlobstar star = true) (hslash : '/' ∉ star) (howed : owed stack ≤ behind.length)

namespace Follows

variable {reading path : List Text}

lemma push (h : Follows reading path) (part : Text) :
    Follows (reading ++ [part]) (path ++ [part]) := by
  cases h with
  | same h => exact .same (by rw [h])
  | apart front stack behind star hreading hpath hstar hslash howed =>
    refine .apart front (part :: stack) (behind ++ [part]) star ?_ ?_ hstar hslash ?_
    · rw [hreading, append_assoc, cons_append, reverse_cons]
    · rw [hpath, append_assoc]
    · rw [length_append, length_singleton, Nat.add_comm]
      exact Nat.le_trans (owed_cons part stack).2 (Nat.add_le_add_left howed 1)

lemma dotdot_apart {front stack behind : List Text} {star : Text}
    (hstar : holdsGlobstar star) (hslash : '/' ∉ star) (howed : owed stack ≤ behind.length) :
    ∃ next, (∀ parent others,
        next ∈ forkReading dotdot parent others (front ++ star :: stack.reverse)) ∧
      Follows next (front ++ behind).dropLast := by
  have hsnoc : ∀ top below, front ++ star :: (top :: below : List Text).reverse =
      (front ++ star :: below.reverse) ++ [top] := by simp
  have hparent : ∀ (init : List Text) (last : Text),
      (front ++ (init ++ [last])).dropLast = front ++ init := by
    intro init last
    rw [← append_assoc, dropLast_concat]
  cases stack with
  | nil =>
    have hlast : (front ++ [star]).getLast?.any holdsGlobstar := by
      rw [getLast?_append]
      exact hstar
    rcases eq_nil_or_concat' behind with rfl | ⟨init, last, rfl⟩
    · -- both step back from the segment before the `**`
      refine ⟨_, forkReading_none hlast, .same ?_⟩
      rw [reverse_nil, dropLast_concat, append_nil]
    · refine ⟨_, forkReading_stay hlast, .apart front [] init star rfl (hparent ..) hstar hslash ?_⟩
      exact Nat.zero_le _
  | cons top below =>
    rcases eq_nil_or_concat' behind with rfl | ⟨init, last, rfl⟩
    · have hpos : 0 < owed (top :: below) := by
        cases below with
        | nil => exact Nat.one_pos
        | cons _ _ =>
          rw [owed]
          omega
      exact absurd howed (Nat.not_le.mpr hpos)
    rw [length_append, length_singleton] at howed
    rw [hsnoc, hparent]
    have hlast : ((front ++ star :: below.reverse) ++ [top]).getLast? = some top := by
      rw [getLast?_append]
      rfl
    by_cases htop : holdsGlobstar top
    · have hany : ((front ++ star :: below.reverse) ++ [top]).getLast?.any holdsGlobstar := by
        rw [hlast]
        exact htop
      cases below with
      | nil =>
        rcases eq_nil_or_concat' init with rfl | ⟨init, last', rfl⟩
        · -- the `**` on top takes the one the reading left the path at
          refine ⟨_, forkReading_none hany, .same ?_⟩
          rw [dropLast_concat, reverse_nil, dropLast_concat, append_nil]
        · refine ⟨_, forkReading_stay hany, .apart front [top] _ star ?_ rfl hstar hslash ?_⟩
          · rw [reverse_nil, append_assoc]
            rfl
          · rw [length_append]
            exact Nat.le_add_left ..
      | cons second below =>
        refine ⟨_, forkReading_none hany, .apart front below init star ?_ rfl hstar hslash ?_⟩
        · rw [dropLast_concat, hsnoc, dropLast_concat]
        · rw [owed, if_pos htop] at howed
          omega
    · have hany : ((front ++ star :: below.reverse) ++ [top]).getLast?.any holdsGlobstar = false := by
        rw [hlast]
        exact (Bool.not_eq_true _).mp htop
      refine ⟨_, forkReading_pop hany, .apart front below init star ?_ rfl hstar hslash ?_⟩
      · rw [dropLast_concat]
      · cases below with
        | nil => exact Nat.zero_le _
        | cons second below =>
          rw [owed, if_neg htop] at howed
          omega

lemma dotdot (h : Follows reading path) (hpath : ∀ segment ∈ path, '/' ∉ segment) :
    ∃ next, (∀ parent others, next ∈ forkReading dotdot parent others reading) ∧
      Follows next path.dropLast := by
  cases h with
  | same h =>
    subst h
    by_cases hlast : reading.getLast?.any holdsGlobstar
    · -- the reading stays, and the path leaves it
      obtain ⟨star, hstar, hholds⟩ := (Option.any_eq_true _ _).mp hlast
      obtain ⟨front, rfl⟩ := getLast?_eq_some_iff.mp hstar
      refine ⟨_, forkReading_stay hlast, .apart front [] [] star rfl ?_ hholds ?_ (Nat.zero_le _)⟩
      · rw [dropLast_concat, append_nil]
      · exact hpath star (mem_append_right _ (mem_singleton.mpr rfl))
    · rw [Bool.not_eq_true] at hlast
      exact ⟨_, forkReading_pop hlast, .same rfl⟩
  | apart front stack behind star hreading hpath hstar hslash howed =>
    subst hreading hpath
    exact dotdot_apart hstar hslash howed

end Follows

lemma follows_step (parent : Bool) {part : Text} {reading path : List Text}
    {readings : List (List Text)} (hpart : part ≠ [] ∧ part ≠ ['.'] ∧ '/' ∉ part)
    (hpath : ∀ segment ∈ path, '/' ∉ segment) (hmem : reading ∈ readings)
    (h : Follows reading path) :
    ∃ next ∈ readings.foldl (forkReading part parent) [], Follows next (resolveStep path part) := by
  rw [resolveStep, if_neg (by simp [hpart.1, hpart.2.1])]
  by_cases hdots : part = dotdot
  · obtain ⟨next, hnext, hfollows⟩ := h.dotdot hpath
    refine ⟨next, mem_foldl_forkReading hmem ?_, ?_⟩
    · rw [hdots]
      exact hnext parent
    · exact (if_pos hdots).symm ▸ hfollows
  · refine ⟨reading ++ [part], ?_, ?_⟩
    · exact mem_foldl_forkReading hmem fun next => forkReading_push hdots parent next reading
    · exact (if_neg hdots).symm ▸ h.push part

lemma follows_run (U : Unicode) {rest reading path : List Text}
    {readings result : List (List Text)} (hrest : PathSegments rest)
    (hpath : ∀ segment ∈ path, '/' ∉ segment) (hmem : reading ∈ readings)
    (h : Follows reading path) (hread : readSegments U readings rest = some result) :
    ∃ last ∈ result, Follows last (resolve path rest) := by
  induction rest generalizing reading path readings with
  | nil =>
    obtain rfl : readings = result := Option.some.inj hread
    exact ⟨reading, hmem, h⟩
  | cons part rest ih =>
    rw [readSegments] at hread
    split at hread
    · cases hread
    · obtain ⟨hpart, hrest⟩ := forall_mem_cons.mp hrest
      obtain ⟨next, hnext, hfollows⟩ := follows_step
        (rest ≠ [] && part ≠ dotdot && couldNameParent U part) hpart hpath hmem h
      refine ih hrest ?_ hnext hfollows hread
      exact resolve_all hpath fun p hp _ => mem_singleton.mp hp ▸ hpart.2.2

/-- A glob that is the text of a file, or agrees with it up to the segment of a `**`. -/
inductive Agrees (glob file : Text) : Prop
  | same (h : glob = file)
  | apart (front before behind more : Text)
    (hglob : glob = front ++ '/' :: (before ++ '*' :: '*' :: behind)) (hfile : file = front ++ more)
    (hbefore : '/' ∉ before) (hfront : front.head? = some '/' ∨ front = [])
    (hdense : ∀ segment ∈ (front.splitOn '/').tail, segment ≠ [])
    (hmore : more = [] ∨ more.head? = some '/')

def pathText (parts : List Text) : Text := parts.flatMap ('/' :: ·)

lemma posixPath_eq_pathText {parts : List Text} (hne : parts ≠ []) :
    posixPath parts = pathText parts := by
  rw [posixPath_of_ne_nil hne]
  induction parts with
  | nil => exact absurd rfl hne
  | cons part parts ih =>
    cases parts with
    | nil => simp [pathText]
    | cons second parts =>
      rw [intercalate_cons_cons, pathText, flatMap_cons, append_assoc,
        singleton_append, ih (by simp)]
      rfl

lemma head?_pathText (parts : List Text) :
    (pathText parts).head? = some '/' ∨ pathText parts = [] := by
  cases parts with
  | nil => exact .inr rfl
  | cons part parts => exact .inl rfl

lemma pathText_dense {parts : List Text} (h : ∀ part ∈ parts, PlainSegment part) :
    ∀ segment ∈ ((pathText parts).splitOn '/').tail, segment ≠ [] := by
  by_cases hne : parts = []
  · rw [hne]
    exact fun _ hmem => nomatch hmem
  · rw [← posixPath_eq_pathText hne, splitOn_posixPath hne fun part hpart => (h part hpart).2]
    exact fun segment hmem => (h segment hmem).1.1

lemma Follows.agrees {reading path : List Text} (h : Follows reading path)
    (hpath : ∀ part ∈ path, PlainSegment part) : Agrees (posixPath reading) (posixPath path) := by
  cases h with
  | same h => exact .same (by rw [h])
  | apart front stack behind star hreading hfile hstar hslash _ =>
    obtain ⟨⟨before, after⟩, hsplit⟩ := Option.isSome_iff_exists.mp hstar
    have htext : star = before ++ '*' :: '*' :: after := by
      rw [splitOnce_some hsplit, append_assoc]
      rfl
    have hfront : ∀ part ∈ front, PlainSegment part := fun part hpart =>
      hpath part (hfile ▸ mem_append_left _ hpart)
    have hbefore : '/' ∉ before := fun hmem => hslash (htext ▸ mem_append_left _ hmem)
    have hglob : posixPath reading =
        pathText front ++ '/' :: (before ++ '*' :: '*' :: (after ++ pathText stack.reverse)) := by
      rw [hreading, posixPath_eq_pathText (by simp), pathText, flatMap_append, flatMap_cons, htext]
      simp [pathText]
    by_cases hne : path = []
    · obtain ⟨rfl, rfl⟩ := append_eq_nil_iff.mp (hfile.symm.trans hne)
      refine .apart [] before _ ['/'] hglob ?_ hbefore (.inr rfl) ?_ (.inr rfl)
      · rw [hne]
        rfl
      · exact pathText_dense hfront
    · refine .apart _ before _ (pathText behind) hglob ?_ hbefore (head?_pathText front)
        (pathText_dense hfront) (head?_pathText behind).symm
      rw [posixPath_eq_pathText hne, hfile, pathText, flatMap_append]
      rfl

/-- A candidate that has readings has one that agrees with the file it names. -/
theorem normalizeReadings_agrees (U : Unicode) {argument cwd : Text}
    (h : ReadAsNamed cwd argument) (habs : cwd.head? = some '/') (hcolon : cwd[1]? ≠ some ':')
    (hblank : argument.all isWhitespace = false) (hlen : argument.length ≤ maxCandidatePathChars)
    (hdrive : isDriveRelative argument = false) :
    normalizeReadings U argument cwd = none ∨
      ∃ readings, normalizeReadings U argument cwd = some (some readings) ∧
        ∃ glob, ⟨glob, .posix⟩ ∈ readings ∧ Agrees glob (posixFile argument cwd) := by
  obtain ⟨raw, hraw, hdir, hsegments⟩ := h.candidateRaw habs hcolon hblank hlen hdrive
  rcases normalizeReadings_joined U hraw hdir hsegments with hnone | ⟨result, hrun, heq⟩
  · exact .inl hnone
  refine .inr ⟨_, heq, ?_⟩
  have hparts : PathSegments (significant (rootedSegments argument cwd)) := by
    rw [← hsegments]
    exact pathSegments_significant raw
  have hstart : ∀ segment ∈ ([] : List Text), '/' ∉ segment := fun _ hmem => nomatch hmem
  obtain ⟨last, hlast, hfollows⟩ := follows_run U hparts hstart (mem_singleton.mpr rfl)
    (.same rfl) hrun
  refine ⟨posixPath last, mem_map_of_mem hlast, ?_⟩
  rw [posixFile, ← resolve_rootedSegments, ← resolve_significant]
  refine hfollows.agrees (resolve_all (fun _ hmem => nomatch hmem) fun part hpart hname => ?_)
  exact ⟨hname, (hparts part hpart).2.2⟩

/-- Folding goes name by name: it neither makes nor removes a separator. -/
structure FoldsNames (U : Unicode) : Prop where
  nil : U.foldPath [] = []
  append : ∀ c, c = '/' ∨ c = '*' → ∀ a b,
    U.foldPath (a ++ c :: b) = U.foldPath a ++ c :: U.foldPath b
  name : ∀ s, s ≠ [] → '/' ∉ s → U.foldPath s ≠ [] ∧ '/' ∉ U.foldPath s

namespace FoldsNames

variable {U : Unicode} (hU : FoldsNames U)
include hU

lemma cons {c : Char} (hc : c = '/' ∨ c = '*') (s : Text) :
    U.foldPath (c :: s) = c :: U.foldPath s := by
  have hfold := hU.append c hc [] s
  rwa [hU.nil] at hfold

lemma intercalate (parts : List Text) :
    U.foldPath (['/'].intercalate parts) = ['/'].intercalate (parts.map U.foldPath) := by
  induction parts with
  | nil => exact hU.nil
  | cons part parts ih =>
    cases parts with
    | nil => simp
    | cons second parts =>
      rw [map_cons, map_cons, intercalate_cons_cons, intercalate_cons_cons,
        append_assoc, singleton_append, hU.append '/' (.inl rfl), ih, append_assoc]
      rfl

lemma notMem {s : Text} (h : '/' ∉ s) : '/' ∉ U.foldPath s := by
  by_cases hne : s = []
  · rw [hne, hU.nil]
    exact not_mem_nil
  · exact (hU.name s hne h).2

lemma splitOn (s : Text) :
    (U.foldPath s).splitOn '/' = (s.splitOn '/').map U.foldPath := by
  have hparts : ∀ part ∈ (s.splitOn '/').map U.foldPath, '/' ∉ part := by
    intro part hpart
    obtain ⟨segment, hsegment, rfl⟩ := mem_map.mp hpart
    exact hU.notMem (notMem_segment hsegment)
  have hne : (s.splitOn '/').map U.foldPath ≠ [] := by
    obtain ⟨first, rest, heq⟩ := exists_splitOn '/' s
    simp [heq]
  rw [← splitOn_intercalate '/' hparts hne, ← hU.intercalate, intercalate_splitOn]

lemma head {s : Text} (h : s.head? = some '/' ∨ s = []) :
    (U.foldPath s).head? = some '/' ∨ U.foldPath s = [] := by
  rcases h with h | rfl
  · obtain ⟨tail, rfl⟩ := head?_eq_some_iff.mp h
    exact .inl (by rw [hU.cons (.inl rfl)]; rfl)
  · exact .inr hU.nil

lemma agrees {glob file : Text} (h : Agrees glob file) :
    Agrees (U.foldPath glob) (U.foldPath file) := by
  cases h with
  | same h => exact .same (by rw [h])
  | apart front before behind more hglob hfile hbefore hfront hdense hmore =>
    refine .apart (U.foldPath front) (U.foldPath before) (U.foldPath behind) (U.foldPath more) ?_ ?_
      (hU.notMem hbefore) (hU.head hfront) ?_ (hU.head hmore.symm).symm
    · rw [hglob, hU.append '/' (.inl rfl), hU.append '*' (.inr rfl), hU.cons (.inr rfl)]
    · rw [hfile]
      rcases hmore with rfl | hmore
      · rw [hU.nil, append_nil, append_nil]
      · obtain ⟨tail, rfl⟩ := head?_eq_some_iff.mp hmore
        rw [hU.append '/' (.inl rfl), hU.cons (.inl rfl)]
    · rw [hU.splitOn, ← map_tail]
      intro segment hsegment
      obtain ⟨part, hpart, rfl⟩ := mem_map.mp hsegment
      exact (hU.name part (hdense part hpart) (notMem_segment (mem_of_mem_tail hpart))).1

end FoldsNames

end Capture
