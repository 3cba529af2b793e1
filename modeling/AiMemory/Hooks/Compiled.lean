/-
What compiled patterns and the readings of a candidate look like.

Both begin with a root: `/`, a drive, or a server and its share.  Behind it no segment is empty.
A pattern has no three stars in a row: none as it is written, and none that its directory or its
normalization adds.
-/
import AiMemory.Hooks.Commands
import AiMemory.Hooks.Declared
import AiMemory.Hooks.Windows

open Strings Globs Fallible List Option

namespace Capture

inductive Rooted : List Text → Prop
  | posix {parts : List Text} (h : ∀ part ∈ parts, part ≠ []) : Rooted ([] :: parts)
  | share {parts : List Text} (h : ∀ part ∈ parts, part ≠ []) : Rooted ([] :: [] :: parts)
  | drive {drive : Text} {parts : List Text} (hne : drive ≠ []) (hfree : GlobFree drive)
    (h : ∀ part ∈ parts, part ≠ []) : Rooted (drive :: parts)

def RootedPath (path : Text) : Prop :=
  Rooted (path.splitOn '/') ∨ ∃ lead, GlobFree lead ∧ path.splitOn '/' = [lead, []]

variable {path root marker : Text} {home : Option Text}

lemma RootedPath.head (h : RootedPath path) : path.head? ≠ some '*' := by
  intro hstar
  obtain ⟨rest, rfl⟩ := head?_eq_some_iff.mp hstar
  obtain ⟨first, more, -, hsplit⟩ := splitOn_cons_of_ne (c := '/') (a := '*') (by decide) rest
  have hfree : ¬GlobFree ('*' :: first) := fun hfree =>
    absurd (hfree '*' mem_cons_self) (by decide)
  rcases h with h | ⟨lead, hlead, heq⟩
  · rw [hsplit] at h
    cases h with
    | drive _ hdrive _ => exact hfree hdrive
  · rw [hsplit] at heq
    exact hfree ((List.cons.inj heq).1 ▸ hlead)

inductive Root : Text → Prop
  | posix : Root ['/']
  | share {server share : Text} (hserver : server ≠ [] ∧ '/' ∉ server)
    (hshare : share ≠ [] ∧ '/' ∉ share) : Root ('/' :: '/' :: server ++ '/' :: share)
  | drive {letter : Char} (hletter : letter.isAlpha = true) : Root [letter, ':', '/']

lemma isGlobChar_of_isAlpha {c : Char} (h : c.isAlpha) : isGlobChar c = false := by
  have hstar : c ≠ '*' := by
    rintro rfl
    cases h
  have hmark : c ≠ '?' := by
    rintro rfl
    cases h
  simp [isGlobChar, hstar, hmark]

lemma globFree_drive {letter : Char} (h : letter.isAlpha) : GlobFree [letter, ':'] := by
  refine forall_mem_cons.mpr ⟨isGlobChar_of_isAlpha h, ?_⟩
  exact forall_mem_singleton.mpr rfl

lemma rooted_joinSegments {parts : List Text} (hroot : Root root)
    (hparts : ∀ part ∈ parts, part ≠ [] ∧ '/' ∉ part) : RootedPath (joinSegments root parts) := by
  have hne : ∀ part ∈ parts, part ≠ [] := fun part hpart => (hparts part hpart).1
  have hslash : ∀ part ∈ parts, '/' ∉ part := fun part hpart => (hparts part hpart).2
  cases hroot with
  | posix =>
    by_cases hempty : parts = []
    · subst hempty
      exact .inr ⟨[], fun _ hc => (nomatch hc), rfl⟩
    · left
      have hlast : (['/'] : Text).getLast? = some '/' := rfl
      rw [joinSegments, if_neg hempty, if_pos hlast, singleton_append, splitOn_cons, if_pos rfl,
        splitOn_intercalate '/' hslash hempty]
      exact .posix hne
  | @share server share hserver hshare =>
    left
    have hall : ∀ part ∈ server :: share :: parts, part ≠ [] ∧ '/' ∉ part :=
      forall_mem_cons.mpr ⟨hserver, forall_mem_cons.mpr ⟨hshare, hparts⟩⟩
    have hlast : ('/' :: '/' :: server ++ '/' :: share).getLast? ≠ some '/' := by
      intro hlast
      rw [getLast?_append_of_ne_nil _ (by simp), getLast?_cons] at hlast
      cases hshare' : share.getLast? with
      | none => exact hshare.1 (getLast?_eq_none_iff.mp hshare')
      | some c =>
        rw [hshare'] at hlast
        obtain rfl : c = '/' := some.inj hlast
        exact hshare.2 (mem_of_getLast? hshare')
    have hjoin : joinSegments ('/' :: '/' :: server ++ '/' :: share) parts =
        '/' :: '/' :: ['/'].intercalate (server :: share :: parts) := by
      rw [joinSegments, if_neg hlast]
      cases parts with
      | nil => simp
      | cons part parts => simp [intercalate_cons_cons]
    rw [hjoin, splitOn_cons, if_pos rfl, splitOn_cons, if_pos rfl,
      splitOn_intercalate '/' (fun part hpart => (hall part hpart).2) (by simp)]
    exact .share fun part hpart => (hall part hpart).1
  | @drive letter hletter =>
    have hsep : ∀ rest : Text, (letter :: ':' :: '/' :: rest).splitOn '/' =
        [letter, ':'] :: rest.splitOn '/' := by
      intro rest
      have hno : '/' ∉ [letter, ':'] := by
        have hne : '/' ≠ letter := by
          rintro rfl
          cases hletter
        simp [hne]
      have hcut : letter :: ':' :: '/' :: rest = [letter, ':'] ++ '/' :: rest := rfl
      rw [hcut, splitOn_append_cons_self, splitOn_eq_singleton hno]
      rfl
    by_cases hempty : parts = []
    · subst hempty
      exact .inr ⟨[letter, ':'], globFree_drive hletter, hsep []⟩
    · left
      have hpath : joinSegments [letter, ':', '/'] parts =
          letter :: ':' :: '/' :: ['/'].intercalate parts := by
        rw [joinSegments, if_neg hempty]
        rfl
      rw [hpath, hsep, splitOn_intercalate '/' hslash hempty]
      exact .drive (by simp) (globFree_drive hletter) hne

/-! ### Texts without three stars -/

theorem infix_of_mem_splitOnP {p : Char → Bool} {s segment : Text}
    (h : segment ∈ s.splitOnP p) : segment <:+: s := by
  -- the first segment is a beginning of the text
  have hboth : segment <:+: s ∧ ∀ first ∈ (s.splitOnP p).head?, first <+: s := by
    induction s generalizing segment with
    | nil =>
      obtain rfl := mem_singleton.mp h
      exact ⟨infix_rfl, fun first hfirst => by cases hfirst; exact prefix_rfl⟩
    | cons a s ih =>
      rw [splitOnP_cons_eq_if_modifyHead] at h ⊢
      by_cases ha : p a
      · rw [if_pos ha] at h ⊢
        refine ⟨?_, fun first hfirst => by cases hfirst; exact nil_prefix⟩
        rcases mem_cons.mp h with rfl | h
        · exact nil_infix
        · exact (ih h).1.trans (suffix_cons a s).isInfix
      · rw [if_neg ha] at h ⊢
        cases hsplit : s.splitOnP p with
        | nil => exact absurd hsplit (splitOnP_ne_nil p s)
        | cons first rest =>
          have hhead : a :: first <+: a :: s := by
            refine cons_prefix_cons.mpr ⟨rfl, ?_⟩
            exact (ih (hsplit ▸ mem_cons_self)).2 first (by rw [hsplit]; rfl)
          rw [hsplit, modifyHead_cons] at h
          refine ⟨?_, fun found hfound => by cases hfound; exact hhead⟩
          rcases mem_cons.mp h with rfl | h
          · exact hhead.isInfix
          · have hrest := (ih (hsplit ▸ mem_cons_of_mem _ h)).1
            exact hrest.trans (suffix_cons a s).isInfix
  exact hboth.1

namespace NoTriple

variable {a b : Text}

lemma of_infix (h : NoTriple b) (hpiece : a <:+: b) : NoTriple a :=
  fun htriple => h (htriple.trans hpiece)

lemma of_globFree (h : GlobFree a) : NoTriple a := by
  intro htriple
  have hstar := htriple.subset mem_cons_self
  exact absurd (h '*' hstar) (by decide)

lemma nil : NoTriple [] := of_globFree fun _ hc => nomatch hc

lemma append (ha : NoTriple a) (hb : NoTriple b) {c : Char} (hc : c ≠ '*') :
    NoTriple (a ++ c :: b) := by
  rintro ⟨front, back, heq⟩
  rw [append_assoc] at heq
  rcases append_eq_append_iff.mp heq with ⟨cut, rfl, hcut⟩ | ⟨cut, rfl, hcut⟩
  · -- the stars begin before the character
    rcases cut with _ | ⟨c₁, _ | ⟨c₂, _ | ⟨c₃, cut⟩⟩⟩
    · exact hc (List.cons.inj hcut).1.symm
    · exact hc (List.cons.inj (List.cons.inj hcut).2).1.symm
    · exact hc (List.cons.inj (List.cons.inj (List.cons.inj hcut).2).2).1.symm
    · simp only [cons_append, nil_append, List.cons.injEq] at hcut
      obtain ⟨rfl, rfl, rfl, -⟩ := hcut
      exact ha ⟨front, cut, by simp⟩
  · cases cut with
    | nil => exact hc (List.cons.inj hcut).1
    | cons d cut => exact hb ⟨cut, back, by rw [append_assoc]; exact (List.cons.inj hcut).2.symm⟩

lemma map (h : NoTriple a) {f : Char → Char} (hf : ∀ c, f c = '*' → c = '*') :
    NoTriple (a.map f) := by
  rintro ⟨front, back, heq⟩
  rw [eq_comm, map_eq_append_iff] at heq
  obtain ⟨left, _, rfl, hleft, -⟩ := heq
  obtain ⟨_, stars, rfl, -, hstars⟩ := map_eq_append_iff.mp hleft
  refine h.of_infix (a := stars) ⟨_, _, rfl⟩ ?_
  obtain ⟨c₁, stars₁, rfl, h₁, hstars⟩ := map_eq_cons_iff.mp hstars
  obtain ⟨c₂, stars₂, rfl, h₂, hstars⟩ := map_eq_cons_iff.mp hstars
  obtain ⟨c₃, stars₃, rfl, h₃, hstars⟩ := map_eq_cons_iff.mp hstars
  rw [hf _ h₁, hf _ h₂, hf _ h₃, map_eq_nil_iff.mp hstars]

lemma intercalate {parts : List Text} (h : ∀ part ∈ parts, NoTriple part) :
    NoTriple (['/'].intercalate parts) := by
  induction parts with
  | nil => exact nil
  | cons part parts ih =>
    obtain ⟨hpart, hrest⟩ := forall_mem_cons.mp h
    cases parts with
    | nil => rwa [intercalate_singleton]
    | cons second parts =>
      rw [intercalate_cons_cons, append_assoc, singleton_append]
      exact hpart.append (ih hrest) (by decide)

lemma joinSegments {root : Text} {parts : List Text} (hroot : NoTriple root)
    (hparts : ∀ part ∈ parts, NoTriple part) : NoTriple (joinSegments root parts) := by
  rw [Capture.joinSegments]
  split
  · exact hroot
  · split
    · rename_i hlast
      obtain ⟨front, rfl⟩ := getLast?_eq_some_iff.mp hlast
      rw [append_assoc, singleton_append]
      exact (hroot.of_infix (prefix_append ..).isInfix).append (intercalate hparts) (by decide)
    · rw [append_assoc, singleton_append]
      exact hroot.append (intercalate hparts) (by decide)

lemma join (ha : NoTriple a) (hb : NoTriple b) : NoTriple (join a b) := by
  obtain ⟨cut, hcut, -⟩ := trimEndBy_append isSeparator a
  refine append (ha.of_infix ?_) hb (by decide)
  exact ⟨[], cut, hcut.symm⟩

end NoTriple

/-! ### Normalization -/

structure Splits (path root : Text) (tail : List Text) : Prop where
  isRoot : Root root
  noTriple : NoTriple path → NoTriple root
  parts : ∀ segment ∈ tail, segment <:+: path ∧ ∀ c ∈ segment, isSeparator c = false

lemma splits_splitRoot {tail : List Text} (h : splitRoot path = some (root, tail)) :
    Splits path root tail := by
  have htail : ∀ n, ∀ segment ∈ (path.drop n).splitOnP isSeparator,
      segment <:+: path ∧ ∀ c ∈ segment, isSeparator c = false := by
    intro n segment hsegment
    refine ⟨(infix_of_mem_splitOnP hsegment).trans ?_, notSeparator_segment hsegment⟩
    exact (drop_suffix n path).isInfix
  have hslash : ∀ segment : Text, (∀ c ∈ segment, isSeparator c = false) → '/' ∉ segment :=
    fun segment hsegment hmem => absurd (hsegment '/' hmem) (by decide)
  unfold splitRoot at h
  split at h
  · split at h
    · rename_i server share more hparts
      obtain ⟨rfl, rfl⟩ := Prod.mk.inj (some.inj h)
      have hall : ∀ segment ∈ server :: share :: more,
          segment ≠ [] ∧ segment <:+: path ∧ ∀ c ∈ segment, isSeparator c = false := by
        intro segment hsegment
        rw [← hparts] at hsegment
        obtain ⟨hmem, hne⟩ := mem_filter.mp hsegment
        exact ⟨of_decide_eq_true hne, htail 2 segment hmem⟩
      obtain ⟨hserver, hall⟩ := forall_mem_cons.mp hall
      obtain ⟨hshare, hall⟩ := forall_mem_cons.mp hall
      refine ⟨.share ⟨hserver.1, hslash _ hserver.2.2⟩ ⟨hshare.1, hslash _ hshare.2.2⟩, ?_,
        fun segment hsegment => (hall segment hsegment).2⟩
      intro hpath
      have hroot : NoTriple ([] ++ '/' :: ([] ++ '/' :: (server ++ '/' :: share))) := by
        refine NoTriple.nil.append (NoTriple.nil.append ?_ (by decide)) (by decide)
        exact (hpath.of_infix hserver.2.1).append (hpath.of_infix hshare.2.1) (by decide)
      exact hroot
    · cases h
  · split at h
    · rename_i hdrive
      obtain ⟨hletter, -⟩ := Bool.and_eq_true_iff.mp hdrive
      cases h
      unfold validDrivePrefix at hletter
      split at hletter
      · rename_i letter rest _
        have hupper : letter.toUpper.isAlpha := by
          rw [Char.isAlpha_toUpper_eq_isAlpha]
          exact hletter
        have hfree : GlobFree [letter.toUpper, ':', '/'] :=
          forall_mem_cons.mpr ⟨isGlobChar_of_isAlpha hupper,
            forall_mem_cons.mpr ⟨rfl, forall_mem_singleton.mpr rfl⟩⟩
        exact ⟨.drive hupper, fun _ => .of_globFree hfree, htail 3⟩
      · cases hletter
    · split at h
      · cases h
        have hfree : GlobFree ['/'] := by
          intro c hc
          rw [mem_singleton.mp hc]
          rfl
        exact ⟨.posix, fun _ => .of_globFree hfree, htail 1⟩
      · cases h

lemma normalizeSegments_inv {normal : Text} (h : normalizeSegments path = some normal) :
    RootedPath normal ∧ (NoTriple path → NoTriple normal) := by
  obtain ⟨⟨root, tail⟩, hsplit, rfl⟩ := map_eq_some_iff.mp h
  have hspec := splits_splitRoot hsplit
  constructor
  · have hslash : ∀ part ∈ resolve [] tail, '/' ∉ part :=
      resolve_all (forall_mem_nil _) fun part hpart _ hmem =>
        absurd ((hspec.parts part hpart).2 '/' hmem) (by decide)
    refine rooted_joinSegments hspec.isRoot fun part hpart => ?_
    exact ⟨(resolve_isName tail part hpart).1, hslash part hpart⟩
  · intro hpath
    have hparts : ∀ part ∈ resolve [] tail, NoTriple part :=
      resolve_all (forall_mem_nil _) fun part hpart _ =>
        hpath.of_infix (hspec.parts part hpart).1
    exact .joinSegments (hspec.noTriple hpath) hparts

lemma infix_windowsSegment {segment name : Text} (h : windowsSegment segment = some name) :
    name <:+: segment := by
  rw [windowsSegment] at h
  split at h
  · cases h
    exact infix_rfl
  · have hfirst : (segment.splitOn ':').headD segment <:+: segment := by
      obtain ⟨first, rest, hsplit⟩ := exists_splitOn ':' segment
      rw [hsplit, headD_cons]
      exact infix_of_mem_splitOnP (hsplit ▸ mem_cons_self)
    have htrim : ∀ p : Char → Bool, trimEndBy p ((segment.splitOn ':').headD segment) <:+: segment := by
      intro p
      obtain ⟨cut, hcut, -⟩ := trimEndBy_append p ((segment.splitOn ':').headD segment)
      exact List.IsInfix.trans ⟨[], cut, hcut.symm⟩ hfirst
    dsimp only at h
    split at h
    · cases h
      exact htrim _
    · split at h
      · cases h
      · cases h
        exact htrim _

lemma noTriple_windowsSegments {spelling : Text} (h : windowsSegments path = some spelling)
    (hpath : NoTriple path) : NoTriple spelling := by
  obtain ⟨⟨root, tail⟩, hsplit, rfl⟩ := map_eq_some_iff.mp h
  have hspec := splits_splitRoot hsplit
  refine .joinSegments (hspec.noTriple hpath) fun part hpart => ?_
  obtain ⟨segment, hsegment, hread⟩ := mem_filterMap.mp hpart
  exact hpath.of_infix ((infix_windowsSegment hread).trans (hspec.parts segment hsegment).1)

lemma noTriple_undevice {opened : Text} (h : undevice path = some opened)
    (hpath : NoTriple path) : NoTriple opened := by
  have hrest : ∀ rest, stripDevice path = some rest → rest <:+: path := by
    intro rest hstrip
    unfold stripDevice at hstrip
    split at hstrip
    · cases hstrip
      exact (suffix_append ['/', '/', '?', '/'] _).isInfix
    · cases hstrip
      exact (suffix_append ['/', '/', '.', '/'] _).isInfix
    · cases hstrip
      exact (suffix_append ['/', '?', '?', '/'] _).isInfix
    · cases hstrip
  rw [undevice] at h
  split at h
  · cases h
    exact hpath
  · rename_i rest hstrip
    have htriple := hpath.of_infix (hrest rest hstrip)
    split at h
    · cases h
      have htail := htriple.of_infix (drop_suffix 4 rest).isInfix
      have hslashes : NoTriple ([] ++ '/' :: ([] ++ '/' :: rest.drop 4)) :=
        NoTriple.nil.append (NoTriple.nil.append htail (by decide)) (by decide)
      exact hslashes
    · split at h
      · cases h
        exact htriple
      · cases h

lemma isAlpha_localShare {server share : Text} {letter : Char}
    (h : localShare server share = some letter) : letter.isAlpha := by
  unfold localShare at h
  split at h
  · split at h
    · split at h
      · rename_i hletter
        exact some.inj h ▸ hletter
      · cases h
    · cases h
  · cases h

lemma noTriple_rootedSpellings {candidate rooted : Text} {native : Option Text}
    (h : rootedSpellings candidate [] path = some (rooted, native)) (hpath : NoTriple path) :
    NoTriple rooted := by
  rw [rootedSpellings] at h
  split at h
  · -- what is behind the share is a part of the path
    have hslash : ∀ text : Text, (splitSlash text).2 <:+: text := by
      intro text
      rw [splitSlash]
      cases hsplit : splitOnce ['/'] text with
      | none => exact nil_infix
      | some parts =>
        obtain ⟨before, after⟩ := parts
        have heq := splitOnce_some hsplit
        exact ⟨before ++ ['/'], [], by rw [append_nil]; exact heq.symm⟩
    have hbehind : (splitSlash (splitSlash (path.drop 2)).2).2 <:+: path :=
      ((hslash _).trans (hslash _)).trans (drop_suffix 2 path).isInfix
    dsimp only at h
    split at h
    · rename_i letter hshare
      cases h
      have hdrive := NoTriple.of_globFree (globFree_drive (isAlpha_localShare hshare))
      exact hdrive.append (hpath.of_infix hbehind) (by decide)
    · cases h
      exact hpath
  · split at h
    · cases h
    · split at h
      · cases h
        exact hpath
      · cases h
        exact NoTriple.nil.join hpath

lemma noTriple_windowsSpelling {spelling : Text} (h : windowsSpelling path [] = some spelling)
    (hpath : NoTriple path) : NoTriple spelling := by
  obtain ⟨spellings, hspellings, hfirst⟩ := bind_eq_some_iff.mp h
  obtain ⟨opened, hopened, hrooted⟩ := bind_eq_some_iff.mp hspellings
  obtain ⟨⟨rooted, native⟩, hrooted, hread⟩ := bind_eq_some_iff.mp hrooted
  obtain ⟨read, hsegments, hread⟩ := bind_eq_some_iff.mp hread
  have hmap : NoTriple (path.map fun c => if c = '\\' then '/' else c) := by
    refine hpath.map fun c hc => ?_
    split at hc
    · cases hc
    · exact hc
  have hopen := noTriple_undevice hopened hmap
  have hdrive : NoTriple (if validDrivePrefix opened && opened.length = 2 then opened ++ ['/']
      else opened) := by
    split
    · exact hopen.append NoTriple.nil (by decide)
    · exact hopen
  have hspell := noTriple_windowsSegments hsegments (noTriple_rootedSpellings hrooted hdrive)
  -- the first spelling is the one read
  split at hread
  · cases hread
    cases hfirst
    exact hspell
  · obtain ⟨other, -, hread⟩ := bind_eq_some_iff.mp hread
    cases hread
    cases hfirst
    exact hspell

lemma noTriple_normalizeRoot (h : normalizeRoot path = some root) (hpath : NoTriple path) :
    NoTriple root := by
  rw [normalizeRoot] at h
  split at h
  · cases h
  · split at h
    · obtain ⟨spelling, hspelling, hnormal⟩ := bind_eq_some_iff.mp h
      exact (normalizeSegments_inv hnormal).2 (noTriple_windowsSpelling hspelling hpath)
    · exact (normalizeSegments_inv h).2 hpath

def everything : Text := ['/', '*', '*']

structure CompiledPattern.Sound (pattern : CompiledPattern) : Prop
    extends CompiledPattern.Derived pattern where
  noTriple : NoTriple pattern.path
  rooted : RootedPath pattern.path
  base : ∀ dir, dir ≠ [] → pattern.path = dir ++ everything → pattern.directoryBase = some dir
  named : ∀ dir, pattern.directoryBase = some dir → dir ≠ []

lemma directoryBaseOf_append {dir : Text} (hne : dir ≠ []) :
    directoryBaseOf (dir ++ everything) = some dir := by
  have hsuffix : everything.isSuffixOf (dir ++ everything) :=
    isSuffixOf_iff_suffix.mpr (suffix_append ..)
  have htake : (dir ++ everything).take ((dir ++ everything).length - 3) = dir := by
    simp [everything]
  rw [directoryBaseOf]
  refine (if_pos hsuffix).trans ?_
  dsimp only
  rw [htake, if_neg hne]

lemma directoryBaseOf_ne_nil {dir : Text} (h : directoryBaseOf path = some dir) : dir ≠ [] := by
  rw [directoryBaseOf] at h
  split at h
  · cases h
    split
    · exact cons_ne_nil _ _
    · assumption
  · cases h

lemma noTriple_validateGlob {source : Text} (h : validateGlob source = .ok ()) :
    NoTriple source := by
  rintro ⟨front, back, heq⟩
  obtain ⟨before, after, hsplit, -⟩ := splitOnce_first ['*', '*', '*'] front back
  rw [← append_assoc, heq] at hsplit
  unfold validateGlob at h
  rw [hsplit] at h
  split at h
  · cases h
  · split at h
    · cases h
    · split at h
      · cases h
      · split at h
        · cases h
        · cases h

lemma sound_compilePattern {source : Text} {pattern : CompiledPattern} (hmarker : NoTriple marker)
    (hhome : ∀ directory ∈ home, NoTriple directory)
    (h : compilePattern marker home source = .ok pattern) : pattern.Sound := by
  have hderived := derived_compilePattern h
  obtain ⟨expanded, path, hvalid, hexpanded, hpath, rfl⟩ := compilePattern_inv h
  obtain ⟨spelled, hspelled, hnormal⟩ := bind_eq_some_iff.mp hpath
  obtain ⟨hrooted, htriple⟩ := normalizeSegments_inv hnormal
  have hsource := noTriple_validateGlob hvalid
  have hjoined : NoTriple expanded := by
    rcases hexpanded with ⟨directory, hdirectory, rfl⟩ | rfl | rfl
    · exact (hhome directory hdirectory).join (hsource.of_infix (drop_suffix 2 source).isInfix)
    · exact hsource
    · exact hmarker.join hsource
  have hspelling : NoTriple spelled := by
    split at hspelled
    · exact noTriple_windowsSpelling hspelled hjoined
    · exact some.inj hspelled ▸ hjoined
  refine ⟨hderived, htriple hspelling, hrooted, ?_, fun dir => directoryBaseOf_ne_nil⟩
  rintro dir hne rfl
  exact directoryBaseOf_append hne

lemma sound_compile {ignorePaths : List Text} {patterns : List CompiledPattern}
    (hmarker : GlobFree marker) (hhome : ∀ directory ∈ home, GlobFree directory)
    (h : compile ignorePaths marker home = .ok patterns) : ∀ pattern ∈ patterns, pattern.Sound := by
  have hall : ∀ (root : Text) (directory : Option Text), NoTriple root →
      (∀ directory' ∈ directory, NoTriple directory') →
      ignorePaths.mapM (compilePattern root directory) = .ok patterns →
        ∀ pattern ∈ patterns, pattern.Sound := by
    intro root directory hroot hdirectory hmap pattern hpattern
    obtain ⟨source, -, hsource⟩ := of_mem_mapM_eq_ok hmap hpattern
    exact sound_compilePattern hroot hdirectory hsource
  unfold compile at h
  split at h
  · cases h
  · split at h
    · cases h
    · rename_i root hroot
      have hroot' := noTriple_normalizeRoot hroot (.of_globFree hmarker)
      split at h
      · split at h
        · cases h
        · rename_i directory hdirectory
          obtain ⟨given, hgiven, hnormal⟩ := bind_eq_some_iff.mp hdirectory
          have htriple := noTriple_normalizeRoot hnormal (.of_globFree (hhome given hgiven))
          exact hall _ _ hroot' (fun _ heq => some.inj heq ▸ htriple) h
      · exact hall root none hroot' (fun _ hnone => (nomatch hnone)) h

/-! ### Folded texts -/

/-- What folding does to globs: it keeps them, and makes no other character one. -/
structure FoldsGlobs (U : Unicode) : Prop extends FoldsNames U where
  mark : ∀ a b, U.foldPath (a ++ '?' :: b) = U.foldPath a ++ '?' :: U.foldPath b
  star_notMem : ∀ s, '*' ∉ s → '*' ∉ U.foldPath s
  mark_notMem : ∀ s, '?' ∉ s → '?' ∉ U.foldPath s

lemma globFree_iff {s : Text} : GlobFree s ↔ '*' ∉ s ∧ '?' ∉ s := by
  constructor
  · intro h
    exact ⟨fun hmem => absurd (h _ hmem) (by decide), fun hmem => absurd (h _ hmem) (by decide)⟩
  · rintro ⟨hstar, hmark⟩ c hc
    have hstar' : c ≠ '*' := fun heq => hstar (heq ▸ hc)
    have hmark' : c ≠ '?' := fun heq => hmark (heq ▸ hc)
    simp [isGlobChar, hstar', hmark']

namespace FoldsGlobs

variable {U : Unicode} (hU : FoldsGlobs U)
include hU

variable {s : Text}

lemma globFree : GlobFree (U.foldPath s) ↔ GlobFree s := by
  rw [globFree_iff, globFree_iff]
  constructor
  · rintro ⟨hstar, hmark⟩
    constructor
    · intro hmem
      obtain ⟨a, b, rfl⟩ := append_of_mem hmem
      rw [hU.append '*' (.inr rfl)] at hstar
      exact hstar (mem_append_right _ mem_cons_self)
    · intro hmem
      obtain ⟨a, b, rfl⟩ := append_of_mem hmem
      rw [hU.mark] at hmark
      exact hmark (mem_append_right _ mem_cons_self)
  · rintro ⟨hstar, hmark⟩
    exact ⟨hU.star_notMem s hstar, hU.mark_notMem s hmark⟩

lemma eq_nil (h : U.foldPath s = []) : s = [] := by
  by_contra hne
  by_cases hslash : '/' ∈ s
  · obtain ⟨a, b, rfl⟩ := append_of_mem hslash
    rw [hU.append '/' (.inl rfl)] at h
    exact absurd h (by simp)
  · exact (hU.name s hne hslash).1 h

lemma append_inv {c : Char} (hc : c = '/' ∨ c = '*') {a b : Text} (h : U.foldPath s = a ++ c :: b) :
    ∃ a' b', s = a' ++ c :: b' ∧ U.foldPath a' = a ∧ U.foldPath b' = b := by
  have hfree : ∀ text, c ∉ text → c ∉ U.foldPath text := by
    rcases hc with rfl | rfl
    · exact fun _ => hU.notMem
    · exact hU.star_notMem
  -- by the occurrences in the text, from the first on
  induction hlen : s.length using Nat.strong_induction_on generalizing s a with
  | _ n ih =>
    subst hlen
    by_cases hmem : c ∈ s
    · obtain ⟨x, y, rfl, hx⟩ := eq_append_cons_of_mem hmem
      have hfold : U.foldPath (x ++ c :: y) = U.foldPath x ++ c :: U.foldPath y := hU.append c hc x y
      rcases append_eq_append_iff.mp (hfold.symm.trans h) with ⟨cut, ha, hcut⟩ | ⟨cut, hx', hcut⟩
      · cases cut with
        | nil =>
          rw [append_nil] at ha
          exact ⟨x, y, rfl, ha.symm, (List.cons.inj hcut).2⟩
        | cons d cut =>
          obtain ⟨rfl, hy⟩ := List.cons.inj hcut
          have hless : y.length < (x ++ c :: y).length := by
            rw [length_append, length_cons]
            omega
          obtain ⟨a', b', rfl, rfl, rfl⟩ := ih y.length hless hy rfl
          refine ⟨x ++ c :: a', b', by simp, ?_, rfl⟩
          rw [hU.append c hc, ha]
      · cases cut with
        | nil =>
          rw [append_nil] at hx'
          exact ⟨x, y, rfl, hx', (List.cons.inj hcut).2.symm⟩
        | cons d cut =>
          cases hcut
          exact absurd (hx' ▸ mem_append_right _ mem_cons_self) (hfree x hx)
    · refine absurd ?_ (hfree s hmem)
      rw [h]
      exact mem_append_right _ mem_cons_self

lemma noTriple (h : NoTriple s) : NoTriple (U.foldPath s) := by
  rintro ⟨front, back, heq⟩
  have hstars : U.foldPath s = front ++ '*' :: '*' :: '*' :: back := by simp [← heq]
  obtain ⟨a, s₁, rfl, -, h₁⟩ := hU.append_inv (.inr rfl) hstars
  obtain ⟨b, s₂, rfl, hb, h₂⟩ := hU.append_inv (a := []) (.inr rfl) h₁
  obtain ⟨c, s₃, rfl, hc, -⟩ := hU.append_inv (a := []) (.inr rfl) h₂
  obtain rfl := hU.eq_nil hb
  obtain rfl := hU.eq_nil hc
  exact h ⟨a, s₃, by simp⟩

lemma rooted {path : Text} (h : RootedPath path) : RootedPath (U.foldPath path) := by
  have hsegment : ∀ part ∈ path.splitOn '/', part ≠ [] → U.foldPath part ≠ [] :=
    fun part hpart hne => (hU.name part hne (notMem_segment hpart)).1
  rw [RootedPath, hU.splitOn]
  rcases h with h | ⟨lead, hlead, hsplit⟩
  · left
    generalize path.splitOn '/' = parts at h hsegment
    have hmap : ∀ names : List Text, names ⊆ parts → (∀ part ∈ names, part ≠ []) →
        ∀ folded ∈ names.map U.foldPath, folded ≠ [] := by
      intro names hsub hnames folded hfolded
      obtain ⟨part, hpart, rfl⟩ := mem_map.mp hfolded
      exact hsegment part (hsub hpart) (hnames part hpart)
    cases h with
    | posix hnames =>
      rw [map_cons, hU.nil]
      exact .posix (hmap _ (subset_cons_self ..) hnames)
    | share hnames =>
      rw [map_cons, map_cons, hU.nil]
      refine .share (hmap _ ?_ hnames)
      exact subset_cons_of_subset _ (subset_cons_self ..)
    | drive hne hfree hnames =>
      refine .drive (hsegment _ mem_cons_self hne) (hU.globFree.mpr hfree) ?_
      exact hmap _ (subset_cons_self ..) hnames
  · right
    refine ⟨U.foldPath lead, hU.globFree.mpr hlead, ?_⟩
    rw [hsplit, map_cons, map_cons, hU.nil]
    rfl

end FoldsGlobs

lemma CompiledPattern.Sound.folded {U : Unicode} (hU : FoldsGlobs U) {pattern : CompiledPattern}
    (h : pattern.Sound) : (pattern.folded U).Sound := by
  refine ⟨h.toDerived.folded hU.toFoldsNames, hU.noTriple h.noTriple, hU.rooted h.rooted, ?_, ?_⟩
  case refine_2 =>
    intro folded hfolded hnil
    obtain ⟨dir, hdir, rfl⟩ := map_eq_some_iff.mp hfolded
    exact h.named dir hdir (hU.eq_nil hnil)
  intro dir hne hpath
  change U.foldPath pattern.path = dir ++ '/' :: '*' :: '*' :: [] at hpath
  obtain ⟨dir', stars, horiginal, rfl, hstars⟩ := hU.append_inv (.inl rfl) hpath
  obtain ⟨a, stars, rfl, ha, hstars⟩ := hU.append_inv (a := []) (.inr rfl) hstars
  obtain ⟨b, rest, rfl, hb, hrest⟩ := hU.append_inv (a := []) (.inr rfl) hstars
  obtain rfl := hU.eq_nil ha
  obtain rfl := hU.eq_nil hb
  obtain rfl := hU.eq_nil hrest
  have hne' : dir' ≠ [] := by
    rintro rfl
    exact hne hU.nil
  change pattern.directoryBase.map U.foldPath = _
  rw [h.base dir' hne' horiginal]
  rfl

lemma sound_resolveForHost {U : Unicode} {source : CaptureSource} {foldCase : Bool}
    (hU : foldCase → FoldsGlobs U) (hmarker : GlobFree marker)
    (hhome : ∀ directory ∈ home, GlobFree directory) :
    ∀ pattern ∈ (CapturePolicy.resolveForHost U source marker home foldCase).patterns,
      pattern.Sound := by
  intro pattern hpattern
  unfold CapturePolicy.resolveForHost at hpattern
  split at hpattern
  · cases hpattern
  · cases hpattern
  · split at hpattern
    · cases hpattern
    · split at hpattern
      · cases hpattern
      · rename_i patterns hcompile
        dsimp only at hpattern
        split at hpattern
        · rename_i hfold
          obtain ⟨original, horiginal, rfl⟩ := mem_map.mp hpattern
          exact (sound_compile hmarker hhome hcompile original horiginal).folded (hU hfold)
        · exact sound_compile hmarker hhome hcompile pattern hpattern

lemma forkReading_all {P : Text → Prop} {part : Text} {parent : Bool}
    {next : List (List Text)} {parts : List Text}
    (hnext : ∀ reading ∈ next, ∀ segment ∈ reading, P segment) (hparts : ∀ segment ∈ parts, P segment)
    (hpart : P part) : ∀ reading ∈ forkReading part parent next parts,
      ∀ segment ∈ reading, P segment := by
  have hkeep : ∀ (readings : List (List Text)) (added : List Text),
      (∀ reading ∈ readings, ∀ segment ∈ reading, P segment) → (∀ segment ∈ added, P segment) →
        ∀ reading ∈ keep readings added, ∀ segment ∈ reading, P segment := by
    intro readings added hreadings hadded
    rw [keep]
    split
    · exact hreadings
    · refine forall_mem_append.mpr ⟨hreadings, ?_⟩
      exact forall_mem_singleton.mpr hadded
  have hdrop : ∀ segment ∈ parts.dropLast, P segment := fun segment hsegment =>
    hparts segment (dropLast_subset _ hsegment)
  have hstart : ∀ reading ∈ (if parent then keep next parts.dropLast else next),
      ∀ segment ∈ reading, P segment := by
    split
    · exact hkeep _ _ hnext hdrop
    · exact hnext
  rw [forkReading]
  split
  · refine hkeep _ _ hstart (forall_mem_append.mpr ⟨hparts, ?_⟩)
    exact forall_mem_singleton.mpr hpart
  · split
    · refine hkeep _ _ (hkeep _ _ hstart fun segment hsegment => ?_) hparts
      exact hdrop segment (dropLast_subset _ hsegment)
    · exact hkeep _ _ hstart hdrop

lemma readSegments_all {U : Unicode} {P : Text → Prop} {rest : List Text}
    {readings result : List (List Text)}
    (hreadings : ∀ reading ∈ readings, ∀ segment ∈ reading, P segment)
    (hrest : ∀ segment ∈ rest, P segment) (h : readSegments U readings rest = some result) :
    ∀ reading ∈ result, ∀ segment ∈ reading, P segment := by
  induction rest generalizing readings with
  | nil =>
    obtain rfl : readings = result := some.inj h
    exact hreadings
  | cons part rest ih =>
    obtain ⟨hpart, hrest⟩ := forall_mem_cons.mp hrest
    rw [readSegments] at h
    split at h
    · cases h
    · refine ih ?_ hrest h
      -- each reading is followed by readings of its own segments and this one
      have hfold : ∀ (found next : List (List Text)), found ⊆ readings →
          (∀ reading ∈ next, ∀ segment ∈ reading, P segment) →
          ∀ reading ∈ found.foldl
              (forkReading part (rest ≠ [] && part ≠ dotdot && couldNameParent U part)) next,
            ∀ segment ∈ reading, P segment := by
        intro found
        induction found with
        | nil => exact fun next _ hnext => hnext
        | cons first found ihfound =>
          intro next hsub hnext
          obtain ⟨hfirst, hfound⟩ := cons_subset.mp hsub
          exact ihfound _ hfound (forkReading_all hnext (hreadings first hfirst) hpart)
      exact hfold readings [] (List.Subset.refl _) (forall_mem_nil _)

/-- Every reading of a candidate is rooted. -/
theorem rooted_normalizeReadings {U : Unicode} {candidate cwd : Text}
    {readings : List Normalized} (h : normalizeReadings U candidate cwd = some (some readings)) :
    ∀ reading ∈ readings, RootedPath reading.path := by
  have hraw : ∀ raw flavor found, rawReadings U raw flavor = some (some found) →
      ∀ reading ∈ found, RootedPath reading.path := by
    intro raw flavor found hfound reading hreading
    rw [rawReadings] at hfound
    split at hfound
    · cases hfound
    · rename_i root tail hsplit
      obtain ⟨result, hresult, heq⟩ := map_eq_some_iff.mp hfound
      cases heq
      obtain ⟨parts, hparts, rfl⟩ := mem_map.mp hreading
      have hspec := splits_splitRoot hsplit
      refine rooted_joinSegments hspec.isRoot (readSegments_all ?_ ?_ hresult parts hparts)
      · intro start hstart
        obtain rfl := mem_singleton.mp hstart
        exact forall_mem_nil _
      · intro segment hsegment
        obtain ⟨hmem, hkeep⟩ := mem_filter.mp hsegment
        refine ⟨(of_decide_eq_true hkeep).1, fun hslash => ?_⟩
        exact absurd ((hspec.parts segment hmem).2 '/' hslash) (by decide)
  have hcollect : ∀ raws all, (∀ reading ∈ all, RootedPath reading.path) →
      ∀ flavor, collectReadings U flavor raws all = some (some readings) →
        ∀ reading ∈ readings, RootedPath reading.path := by
    intro raws
    induction raws with
    | nil =>
      intro all hall flavor hcollect
      cases hcollect
      exact hall
    | cons raw raws ih =>
      intro all hall flavor hcollect
      rw [collectReadings] at hcollect
      split at hcollect
      · cases hcollect
      · cases hcollect
      · rename_i found hfound
        split at hcollect
        · cases hcollect
        · refine ih _ ?_ flavor hcollect
          exact forall_mem_append.mpr ⟨hall, hraw raw flavor found hfound⟩
  rw [normalizeReadings] at h
  split at h
  · cases h
  · rename_i raws flavor _
    exact hcollect raws [] (forall_mem_nil _) flavor h

end Capture
