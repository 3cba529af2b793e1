/-
Relative destinations of the exported links (`ai-memory-wiki`, `markdown.rs`).

An exported wikilink becomes an ordinary link to a path relative to its page.  What the export
writes, percent signs escaped and in brackets where it must be, resolves to the page again.
-/
import AiMemory.Store.Words
import AiMemory.Wiki.Links
import Mathlib.Data.List.TakeWhile

open Strings Utf8 List

namespace Wiki

open Store

/-! ### Destinations -/

/-- The path from the directory `dir` to the page at `target`. -/
def relativeHref (dir : List Text) (target : Text) : Text :=
  let components := target.splitOn '/'
  let common := ((dir.zip components.dropLast).takeWhile fun pair => pair.1 = pair.2).length
  ['/'].intercalate (List.replicate (dir.length - common) ['.', '.'] ++ components.drop common)

/-- A literal `%` leaves as `%25`. -/
def escapePercent (path : Text) : Text :=
  path.flatMap fun c => if c = '%' then ['%', '2', '5'] else [c]

variable (page : PagePath)

/-- The href of a local wikilink of `page`, without an anchor. -/
def localHref (target : Text) : Text :=
  escapePercent (relativeHref (pageDir page) target)

def isAsciiControl (c : Char) : Bool := c.toNat < 32 || c.toNat = 127

/-- The depth of open parentheses, and whether the href can stand bare so far. -/
def destinationStep (state : ℕ × Bool) (c : Char) : ℕ × Bool :=
  if c = '(' then (state.1 + 1, state.2)
  else if c = ')' then if state.1 = 0 then (state.1, false) else (state.1 - 1, state.2)
  else if c = ' ' || isAsciiControl c then (state.1, false)
  else state

def markdownDestination (href : Text) : Option Text :=
  let (depth, bare) := href.foldl destinationStep (0, decide (href.head? ≠ some '<'))
  if bare && decide (depth = 0) then some href
  else if '<' ∈ href ∨ '>' ∈ href then none
  else some ('<' :: (href ++ ['>']))

def destinationText : Text → Text
  | '<' :: rest => rest.dropLast
  | destination => destination

/-- The page that an ordinary link of `page` leads to. -/
def resolveDestination (destination : Text) : Option Text :=
  (decodeMarkdownDestinationPath (destinationText destination)).bind fun path =>
    resolveRelative page path false

/-- A path in the project: no segment is empty, `.` or `..`. -/
def Normalised (path : Text) : Prop :=
  ∀ segment ∈ path.splitOn '/', isDotSegment segment = false

lemma not_dotSegment {segment : Text} :
    isDotSegment segment = false ↔ segment ≠ [] ∧ segment ≠ ['.'] ∧ segment ≠ ['.', '.'] := by
  simp [isDotSegment, and_assoc]

lemma resolveParts_plain {segments : List Text}
    (h : ∀ segment ∈ segments, isDotSegment segment = false) (parts : List Text) :
    resolveParts parts segments = some (parts ++ segments) := by
  induction segments generalizing parts with
  | nil => rw [append_nil]; rfl
  | cons segment segments ih =>
    obtain ⟨hfirst, hrest⟩ := forall_mem_cons.mp h
    obtain ⟨hempty, hdot, hdots⟩ := not_dotSegment.mp hfirst
    rw [resolveParts, if_neg (not_or.mpr ⟨hempty, hdot⟩), if_neg hdots, ih hrest, append_assoc]
    rfl

lemma resolveParts_ups (front back rest : List Text) :
    resolveParts (front ++ back) (List.replicate back.length ['.', '.'] ++ rest) =
      resolveParts front rest := by
  induction back using List.reverseRecOn with
  | nil => rw [append_nil]; rfl
  | append_singleton back part ih =>
    rw [length_append, length_singleton, replicate_succ, cons_append,
      resolveParts, if_neg (by decide), if_pos rfl, if_neg (by simp), ← append_assoc,
      dropLast_concat]
    exact ih

lemma resolveParts_mem {segments parts out : List Text} (h : resolveParts parts segments = some out)
    (hparts : ∀ part ∈ parts, isDotSegment part = false) :
    ∀ part ∈ out, part ∈ parts ∨ part ∈ segments ∧ isDotSegment part = false := by
  induction segments generalizing parts with
  | nil =>
    cases h
    exact fun part hpart => .inl hpart
  | cons segment segments ih =>
    rw [resolveParts] at h
    split at h
    · intro part hpart
      exact (ih h hparts part hpart).imp_right fun hmem => ⟨mem_cons_of_mem _ hmem.1, hmem.2⟩
    rename_i hempty
    split at h
    · split at h
      · cases h
      · have hfewer : ∀ part ∈ parts.dropLast, isDotSegment part = false :=
          fun part hpart => hparts part (mem_of_mem_dropLast hpart)
        intro part hpart
        exact (ih h hfewer part hpart).imp mem_of_mem_dropLast
          fun hmem => ⟨mem_cons_of_mem _ hmem.1, hmem.2⟩
    · rename_i hdots
      have hsegment : isDotSegment segment = false :=
        not_dotSegment.mpr ⟨fun h => hempty (.inl h), fun h => hempty (.inr h), hdots⟩
      have hmore : ∀ part ∈ parts ++ [segment], isDotSegment part = false :=
        forall_mem_append.mpr ⟨hparts, by simpa using hsegment⟩
      intro part hpart
      rcases ih h hmore part hpart with hmem | ⟨hmem, hplain⟩
      · rcases mem_append.mp hmem with hmem | hmem
        · exact .inl hmem
        · rw [mem_singleton.mp hmem]
          exact .inr ⟨mem_cons_self, hsegment⟩
      · exact .inr ⟨mem_cons_of_mem _ hmem, hplain⟩

lemma pageDir_plain : ∀ part ∈ pageDir page,
    isDotSegment part = false ∧ '/' ∉ part := by
  intro part hpart
  obtain ⟨hmem, hne⟩ := mem_filter.mp hpart
  refine ⟨?_, notMem_segment hmem⟩
  by_cases hslash : '/' ∈ page.chars
  · have hsplit := beforeLast_append hslash
    refine page.plain part ?_
    rw [hsplit, splitOn_append_cons_self]
    exact mem_append_left _ hmem
  · have hempty : beforeLast '/' page.chars = [] := by
      have hall : ∀ c ∈ page.chars.reverse, (decide (c ≠ '/')) = true := by
        intro c hc
        rw [decide_eq_true_iff]
        rintro rfl
        exact hslash (mem_reverse.mp hc)
      rw [beforeLast, dropWhile_eq_nil_iff.2 hall]
      rfl
    rw [hempty] at hmem
    rw [mem_singleton.mp hmem] at hne
    cases hne

lemma takeWhile_zip_eq (dir components : List Text) : ∃ shared up down,
    dir = shared ++ up ∧ components = shared ++ down ∧
      ((dir.zip components).takeWhile fun pair => pair.1 = pair.2).length = shared.length := by
  induction dir generalizing components with
  | nil => exact ⟨[], [], components, rfl, rfl, rfl⟩
  | cons part dir ih =>
    cases components with
    | nil => exact ⟨[], part :: dir, [], rfl, rfl, rfl⟩
    | cons component components =>
      by_cases hsame : part = component
      · obtain ⟨shared, up, down, hdir, hcomponents, hlength⟩ := ih components
        refine ⟨part :: shared, up, down, by rw [hdir]; rfl, by rw [hcomponents, hsame]; rfl, ?_⟩
        rw [zip_cons_cons, takeWhile_cons_of_pos (by simpa using hsame), length_cons, hlength]
        rfl
      · refine ⟨[], part :: dir, component :: components, rfl, rfl, ?_⟩
        rw [zip_cons_cons, takeWhile_cons_of_neg (by simpa using hsame)]
        rfl

lemma relativeHref_eq (dir : List Text) (target : Text) : ∃ shared up down,
    dir = shared ++ up ∧ target.splitOn '/' = shared ++ down ∧ down ≠ [] ∧ relativeHref dir target =
        ['/'].intercalate (List.replicate up.length ['.', '.'] ++ down) := by
  obtain ⟨shared, up, down, hdir, hcomponents, hlength⟩ :=
    takeWhile_zip_eq dir (target.splitOn '/').dropLast
  have hne := splitOn_ne_nil '/' target
  have hsplit : target.splitOn '/' = shared ++ (down ++ [(target.splitOn '/').getLast hne]) := by
    rw [← append_assoc, ← hcomponents, dropLast_append_getLast]
  refine ⟨shared, up, down ++ [(target.splitOn '/').getLast hne], hdir, hsplit, by simp, ?_⟩
  have hdrop : (target.splitOn '/').drop shared.length =
      down ++ [(target.splitOn '/').getLast hne] := by
    conv_lhs => rw [hsplit, drop_left]
  simp only [relativeHref, hlength, hdrop]
  rw [hdir, length_append, Nat.add_sub_cancel_left]

lemma head?_ne_of_splitOn {s first : Text} {rest : List Text}
    (h : s.splitOn '/' = first :: rest) (hfirst : first ≠ []) : s.head? ≠ some '/' := by
  intro hhead
  obtain ⟨behind, rfl⟩ := head?_eq_some_iff.mp hhead
  rw [splitOn_cons, if_pos rfl] at h
  exact hfirst (List.cons.inj h).1.symm

lemma resolveRelative_relativeHref {target : Text} (h : Normalised target) :
    resolveRelative page (relativeHref (pageDir page) target) false = some target := by
  obtain ⟨shared, up, down, hdir, htarget, hne, hhref⟩ := relativeHref_eq (pageDir page) target
  have hdown : ∀ segment ∈ down, isDotSegment segment = false := fun segment hmem =>
    h segment (by rw [htarget]; exact mem_append_right _ hmem)
  have hsegments : (relativeHref (pageDir page) target).splitOn '/' =
      List.replicate up.length ['.', '.'] ++ down := by
    rw [hhref]
    refine splitOn_intercalate _ (fun segment hmem => ?_) (by simp [hne])
    rcases mem_append.mp hmem with hmem | hmem
    · rw [(mem_replicate.mp hmem).2]
      decide
    · exact notMem_segment (by rw [htarget]; exact mem_append_right _ hmem)
  -- the first segment is no empty one, so the path does not start at the root
  obtain ⟨first, rest, hfirst⟩ := exists_splitOn '/' (relativeHref (pageDir page) target)
  have hnonempty : first ≠ [] := by
    have hmem : first ∈ List.replicate up.length ['.', '.'] ++ down := by
      rw [← hsegments, hfirst]
      exact mem_cons_self
    rcases mem_append.mp hmem with hmem | hmem
    · rw [(mem_replicate.mp hmem).2]
      decide
    · exact (not_dotSegment.mp (hdown first hmem)).1
  have hhead := head?_ne_of_splitOn hfirst hnonempty
  have htrim : (relativeHref (pageDir page) target).dropWhile (· = '/') =
      relativeHref (pageDir page) target := by
    refine dropWhile_eq_self fun c hc => decide_eq_false ?_
    rintro rfl
    exact hhead hc
  rw [resolveRelative, Bool.false_or, if_neg (by simpa using hhead), htrim, hsegments, hdir,
    resolveParts_ups, resolveParts_plain hdown, ← htarget]
  show (if target.splitOn '/' = [] then none else _) = _
  rw [if_neg (splitOn_ne_nil '/' target), intercalate_splitOn]

lemma normalised_resolveRelative {page : PagePath} {target path : Text} {rootRelative : Bool}
    (h : resolveRelative page target rootRelative = some path) : Normalised path := by
  rw [resolveRelative] at h
  obtain ⟨parts, hparts, hpath⟩ := Option.bind_eq_some_iff.mp h
  split at hpath
  · cases hpath
  rename_i hne
  cases hpath
  have hstart : ∀ part ∈ (if rootRelative || target.head? = some '/' then [] else pageDir page),
      isDotSegment part = false ∧ '/' ∉ part := by
    split
    · exact fun part hpart => absurd hpart not_mem_nil
    · exact pageDir_plain page
  have hmem := resolveParts_mem hparts fun part hpart => (hstart part hpart).1
  have hslash : ∀ part ∈ parts, '/' ∉ part := by
    intro part hpart
    rcases hmem part hpart with hpart | ⟨hpart, -⟩
    · exact (hstart part hpart).2
    · exact notMem_segment hpart
  intro segment hsegment
  rw [splitOn_intercalate _ hslash hne] at hsegment
  rcases hmem segment hsegment with hsegment | ⟨-, hplain⟩
  · exact (hstart segment hsegment).1
  · exact hplain

lemma decodeBytes_append {literal : List UInt8} (h : ∀ b ∈ literal, b ≠ 37) (fuel : ℕ)
    (rest : List UInt8) : decodeBytes (literal.length + fuel) (literal ++ rest) =
      (decodeBytes fuel rest).map (literal ++ ·) := by
  induction literal with
  | nil =>
    rw [length_nil, Nat.zero_add, nil_append]
    cases decodeBytes fuel rest <;> rfl
  | cons b literal ih =>
    obtain ⟨hb, hliteral⟩ := forall_mem_cons.mp h
    rw [length_cons, Nat.succ_add, cons_append, decodeBytes, if_neg hb, ih hliteral]
    cases decodeBytes fuel rest <;> rfl

lemma not_percent {c : Char} (h : c ≠ '%') : ∀ b ∈ String.utf8EncodeChar c, b ≠ 37 := by
  rintro b hb rfl
  rcases utf8EncodeChar_cases c with ⟨-, hencode, hlt⟩ | hhigh
  · rw [hencode, mem_singleton] at hb
    have hnat : c.toNat = 37 := by
      have hvalue := congrArg UInt8.toNat hb
      rw [UInt8.toNat_ofNat'] at hvalue
      have h37 : (37 : UInt8).toNat = 37 := rfl
      omega
    exact h (by rw [← Char.ofNat_toNat c, hnat])
  · exact absurd (hhigh 37 hb) (by decide)

variable (s : Text)

lemma decodeBytes_escapePercent (extra : ℕ) :
    decodeBytes ((bytes (escapePercent s)).length + extra) (bytes (escapePercent s)) =
      some (bytes s) := by
  induction s generalizing extra with
  | nil => cases extra <;> rfl
  | cons c s ih =>
    by_cases hc : c = '%'
    · subst hc
      have hbytes : bytes (escapePercent ('%' :: s)) = 37 :: 50 :: 53 :: bytes (escapePercent s) :=
        rfl
      have hfuel : (bytes (escapePercent ('%' :: s))).length + extra =
          ((bytes (escapePercent s)).length + (extra + 2)) + 1 := by
        rw [hbytes]
        simp only [length_cons]
        omega
      rw [hfuel, hbytes]
      show (decodeBytes ((bytes (escapePercent s)).length + (extra + 2))
        (bytes (escapePercent s))).map (37 :: ·) = _
      rw [ih]
      rfl
    · have hbytes : bytes (escapePercent (c :: s)) =
          String.utf8EncodeChar c ++ bytes (escapePercent s) := by
        rw [escapePercent, flatMap_cons, if_neg hc]
        rfl
      rw [hbytes, length_append, Nat.add_assoc, decodeBytes_append (not_percent hc), ih]
      rfl

lemma escapePercent_eq_self {s : Text} (h : '%' ∉ s) : escapePercent s = s := by
  rw [escapePercent]
  refine (flatMap_congr fun c hc => if_neg ?_).trans (flatMap_singleton' s)
  rintro rfl
  exact h hc

lemma decode_escapePercent :
    decodeMarkdownDestinationPath (escapePercent s) = some s := by
  rw [decodeMarkdownDestinationPath]
  split
  · rename_i hnone
    refine congrArg some (escapePercent_eq_self fun hmem => hnone ?_)
    exact mem_flatMap.mpr ⟨'%', hmem, by simp⟩
  · have hdecode := decodeBytes_escapePercent s 0
    rw [Nat.add_zero] at hdecode
    rw [hdecode]
    show (String.fromUTF8? ⟨(bytes s).toArray⟩).map String.toList = some s
    rw [fromUTF8?_bytes]
    exact congrArg some String.toList_ofList

/-! ### Reading a destination -/

theorem foldl_destinationStep_false (depth : ℕ) :
    (s.foldl destinationStep (depth, false)).2 = false := by
  induction s generalizing depth with
  | nil => rfl
  | cons c s ih =>
    rw [foldl_cons, destinationStep]
    split_ifs
    all_goals exact ih _

lemma markdownDestination_some {href destination : Text}
    (h : markdownDestination href = some destination) :
    (destination = href ∧ href.head? ≠ some '<' ∧
        href.foldl destinationStep (0, true) = (0, true)) ∨
      (destination = '<' :: (href ++ ['>']) ∧ '>' ∉ href) := by
  rw [markdownDestination] at h
  cases hfold : href.foldl destinationStep (0, decide (href.head? ≠ some '<')) with
  | mk depth bare =>
    rw [hfold] at h
    dsimp only at h
    split at h
    · rename_i hbare
      rw [Bool.and_eq_true, decide_eq_true_iff] at hbare
      obtain ⟨rfl, rfl⟩ := hbare
      have hhead : href.head? ≠ some '<' := by
        intro hhead
        have hfalse := foldl_destinationStep_false href 0
        rw [hhead, show decide (some '<' ≠ some '<') = false from rfl] at hfold
        rw [hfold] at hfalse
        cases hfalse
      rw [decide_eq_true hhead] at hfold
      exact .inl ⟨(Option.some.inj h).symm, hhead, hfold⟩
    · split at h
      · cases h
      · rename_i hangle
        exact .inr ⟨(Option.some.inj h).symm, fun hmem => hangle (.inr hmem)⟩

lemma destinationText_eq {href destination : Text}
    (h : markdownDestination href = some destination) : destinationText destination = href := by
  rcases markdownDestination_some h with ⟨rfl, hhead, -⟩ | ⟨rfl, -⟩
  · cases destination with
    | nil => rfl
    | cons c rest =>
      rw [destinationText]
      rintro rest' heq
      exact hhead (congrArg List.head? heq)
  · rw [destinationText, dropLast_concat]

lemma bareDestination_cons (depth probes : ℕ) (prevWs : Bool) (taken : Text) (c : Char)
    (rest : Text) : bareDestination depth probes prevWs taken (c :: rest) =
    if c = '(' then
      bareDestination (depth + 1) probes (isAsciiWhitespace c) (taken ++ [c]) rest
    else if c = ')' then
      if depth = 0 then some (trimEndBy isWhitespace taken, taken.length)
      else bareDestination (depth - 1) probes (isAsciiWhitespace c) (taken ++ [c]) rest
    else if isAsciiWhitespace c && !prevWs && decide (depth = 0) &&
        decide (probes < maxTitleProbes) then
      match closingParenAfterDestination (c :: rest) with
      | some close => some (taken, taken.length + close)
      | none => bareDestination depth (probes + 1) (isAsciiWhitespace c) (taken ++ [c]) rest
    else bareDestination depth probes (isAsciiWhitespace c) (taken ++ [c]) rest := by
  exact rfl

lemma bareDestination_bare {href : Text} {depth : ℕ}
    (h : href.foldl destinationStep (depth, true) = (0, true)) (probes : ℕ) (prevWs : Bool)
    (taken rest : Text) : bareDestination depth probes prevWs taken (href ++ ')' :: rest) =
      some (trimEndBy isWhitespace (taken ++ href), (taken ++ href).length) := by
  induction href generalizing depth probes prevWs taken with
  | nil =>
    obtain rfl : depth = 0 := (Prod.mk.inj h).1
    rw [nil_append, append_nil, bareDestination_cons, if_neg (by decide), if_pos rfl, if_pos rfl]
  | cons c href ih =>
    have hword : taken ++ c :: href = taken ++ [c] ++ href := by simp
    have hlost : ∀ n, (href.foldl destinationStep (n, false)) ≠ (0, true) := by
      intro n heq
      have hfalse := foldl_destinationStep_false href n
      rw [heq] at hfalse
      cases hfalse
    rw [foldl_cons, destinationStep] at h
    rw [cons_append, bareDestination_cons, hword]
    by_cases hopen : c = '('
    · rw [if_pos hopen] at h ⊢
      exact ih h ..
    rw [if_neg hopen] at h ⊢
    by_cases hclose : c = ')'
    · rw [if_pos hclose] at h ⊢
      by_cases hdepth : depth = 0
      · rw [if_pos hdepth] at h
        exact absurd h (hlost _)
      · rw [if_neg hdepth] at h ⊢
        exact ih h ..
    rw [if_neg hclose] at h ⊢
    by_cases hblank : (c = ' ' || isAsciiControl c)
    · rw [if_pos hblank] at h
      exact absurd h (hlost _)
    · have hws : isAsciiWhitespace c = false := by
        rw [Bool.not_eq_true, Bool.or_eq_false_iff, decide_eq_false_iff_not] at hblank
        obtain ⟨hspace, hcontrol⟩ := hblank
        have hne : ∀ d : Char, d.toNat < 32 → c ≠ d := by
          rintro d hd rfl
          rw [isAsciiControl, decide_eq_true hd] at hcontrol
          cases hcontrol
        simp [isAsciiWhitespace, hspace, hne '\t' (by decide), hne '\n' (by decide),
          hne '\x0c' (by decide), hne '\r' (by decide)]
      rw [if_neg hblank] at h
      rw [hws, Bool.false_and, Bool.false_and, Bool.false_and, if_neg Bool.false_ne_true]
      exact ih h ..

def parseTrimmed (leading : ℕ) : Text → Option (Text × ℕ)
  | '<' :: behind =>
    (splitOnce ['>'] behind).bind fun parts =>
      (closingParenAfterDestination parts.2).map fun close =>
        (parts.1, leading + 1 + parts.1.length + 1 + close)
  | trimmed => (bareDestination 0 0 false [] trimmed).map fun found => (found.1, leading + found.2)

lemma parseLinkDestination_eq : parseLinkDestination s =
    parseTrimmed ((takeBytes maxLinkDestinationBytes s).length -
      (trimStart (takeBytes maxLinkDestinationBytes s)).length)
      (trimStart (takeBytes maxLinkDestinationBytes s)) := by
  rw [parseLinkDestination]
  generalize trimStart (takeBytes maxLinkDestinationBytes s) = trimmed
  cases trimmed with
  | nil => rfl
  | cons first behind =>
    by_cases hfirst : first = '<'
    · subst hfirst
      rfl
    · simp [parseTrimmed, hfirst]

lemma parseTrimmed_bare {s : Text} (h : s.head? ≠ some '<') (leading : ℕ) :
    parseTrimmed leading s =
      (bareDestination 0 0 false [] s).map fun found => (found.1, leading + found.2) := by
  unfold parseTrimmed
  split
  · exact absurd rfl h
  · rfl

lemma parseLinkDestination_destination {href destination : Text}
    (h : markdownDestination href = some destination)
    (hlength : byteLen destination < maxLinkDestinationBytes)
    (hends : trim href = href) (behind : Text) :
    parseLinkDestination (destination ++ ')' :: behind) = some (href, destination.length) := by
  obtain ⟨rest, hrest⟩ : ∃ rest, Store.takeBytes maxLinkDestinationBytes (destination ++ ')' :: behind) =
      destination ++ ')' :: rest := by
    have hparen : Char.utf8Size ')' ≤ maxLinkDestinationBytes - byteLen destination := by
      have hsize : Char.utf8Size ')' = 1 := by decide
      omega
    rw [Store.takeBytes_append_of_le hlength.le, Store.takeBytes, if_pos hparen]
    exact ⟨_, rfl⟩
  rw [parseLinkDestination_eq, hrest]
  rcases markdownDestination_some h with ⟨rfl, hhead, hfold⟩ | ⟨rfl, hangle⟩
  · have htrim : trimStart (destination ++ ')' :: rest) = destination ++ ')' :: rest := by
      refine dropWhile_eq_self fun c hc => ?_
      cases destination with
      | nil =>
        obtain rfl : ')' = c := Option.some.inj hc
        decide
      | cons first destination =>
        have hfirst : (trim (first :: destination)).head? = some c := by rwa [hends]
        exact head?_trimBy c hfirst
    have hend : trimEndBy isWhitespace destination = destination := by
      refine trimEndBy_eq_self fun c hc => getLast?_trimBy (s := destination) c ?_
      show (trim destination).getLast? = some c
      rwa [hends]
    have hbare := bareDestination_bare hfold 0 false [] rest
    rw [nil_append, hend] at hbare
    have hopen : (destination ++ ')' :: rest).head? ≠ some '<' := by
      cases destination with
      | nil => exact fun h => absurd (Option.some.inj h) (by decide)
      | cons first destination => exact hhead
    rw [htrim, Nat.sub_self, parseTrimmed_bare hopen, hbare, Option.map_some, Nat.zero_add]
  · have htrim : trimStart ('<' :: (href ++ ['>']) ++ ')' :: rest) =
        '<' :: (href ++ '>' :: ')' :: rest) := by
      rw [cons_append, append_assoc]
      rfl
    have hsplit : splitOnce ['>'] (href ++ '>' :: ')' :: rest) = some (href, ')' :: rest) :=
      splitOnce_singleton_eq_some.mpr ⟨rfl, hangle⟩
    have hclose : closingParenAfterDestination (')' :: rest) = some 0 := by
      have hblank : trimStart (')' :: rest) = ')' :: rest := rfl
      rw [closingParenAfterDestination, hblank]
      simp
    rw [htrim, parseTrimmed]
    simp only [hsplit, hclose, Option.bind_some, Option.map_some]
    simp
    omega

lemma resolveDestination_localHref {page : PagePath} {target destination : Text}
    (htarget : Normalised target)
    (hdestination : markdownDestination (localHref page target) = some destination) :
    resolveDestination page destination = some target := by
  have hdecode : decodeMarkdownDestinationPath (localHref page target) =
      some (relativeHref (pageDir page) target) := decode_escapePercent _
  have hback : resolveRelative page (relativeHref (pageDir page) target) false = some target :=
    resolveRelative_relativeHref page htarget
  rw [resolveDestination, destinationText_eq hdestination, hdecode, Option.bind_some, hback]

/-- The links of a page: an exported link resolves to its target, and is read as it was written
when it is of ordinary length; and no link leads out of the project. -/
theorem local_link_resolves (page : PagePath) :
    (∀ target destination, Normalised target →
      markdownDestination (localHref page target) = some destination →
        resolveDestination page destination = some target ∧
        ∀ behind, byteLen destination < maxLinkDestinationBytes →
          trim (localHref page target) = localHref page target →
          parseLinkDestination (destination ++ ')' :: behind) =
            some (localHref page target, destination.length)) ∧
    ∀ destination rootRelative path,
      resolveRelative page destination rootRelative = some path → Normalised path := by
  refine ⟨fun target destination htarget hdestination => ⟨?_, fun behind hlength hends => ?_⟩,
    fun destination rootRelative path h => normalised_resolveRelative h⟩
  · exact resolveDestination_localHref htarget hdestination
  · exact parseLinkDestination_destination hdestination hlength hends behind

def notesPage : PagePath := ⟨"notes/old/x.md".toList, by decide, by decide⟩

/-- A page two directories away whose name needs the brackets and an escape. -/
theorem local_link_resolves_spaced :
    markdownDestination (localHref notesPage "notes/50% off.md".toList) =
        some "<../50%25 off.md>".toList ∧
      resolveDestination notesPage "<../50%25 off.md>".toList = some "notes/50% off.md".toList ∧
      parseLinkDestination ("<../50%25 off.md>".toList ++ ")".toList) =
        some ("../50%25 off.md".toList, 17) ∧
      Normalised "a.md".toList := by
  have hdestination : markdownDestination (localHref notesPage "notes/50% off.md".toList) =
      some "<../50%25 off.md>".toList := by decide +kernel
  have htarget : Normalised "notes/50% off.md".toList := by
    rw [Normalised]
    decide +kernel
  obtain ⟨hresolve, hread⟩ := (local_link_resolves notesPage).1 _ _ htarget hdestination
  refine ⟨hdestination, hresolve, ?_, ?_⟩
  · exact hread [] (by decide +kernel) (by decide +kernel)
  · exact (local_link_resolves notesPage).2 "/b/./../a.md".toList false _ (by decide +kernel)

end Wiki
