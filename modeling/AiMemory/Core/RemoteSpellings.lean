/-
The spellings of one remote (`ai-memory-core`, `repository_identity.rs`).

A host and a list of path segments are written as `host:path` or as a URL, with or without a
user and a port, with doubled or trailing slashes, and with `.git` at the end or not.
-/
import AiMemory.Core.RepositoryIdentity

open Strings Utf8 List

namespace Identities

open Store

variable {fold : CaseFolding}

/-! ### Spellings -/

/-- The Unicode table lowers an ASCII character as `char::to_ascii_lowercase` does. -/
def CaseFolding.Ascii (fold : CaseFolding) : Prop := ∀ c : Char, c.toNat < 0x80 → fold.lower c = [c.toLower]

def isHostChar (c : Char) : Bool := c.isAlphanum || c = '.' || c = '-'

def isSegmentChar (c : Char) : Bool := c.isAlphanum || c = '.' || c = '_' || c = '-'

def isSchemeChar (c : Char) : Bool := c.isAlphanum || c = '+' || c = '-' || c = '.'

def gitSuffix : Text := ".git".toList

/-- A host and path segments; no segment ends in `.git`, in any letter case. -/
structure IsRemote (host : Text) (segments : List Text) : Prop where
  length : 2 ≤ host.length
  segment : ∀ segment ∈ segments, ∀ c ∈ segment, isSegmentChar c = true
  git : ∀ segment ∈ segments, ¬ gitSuffix <:+ asciiLowercase segment

inductive Form
  | scp (user : Option Text)
  | url (scheme : Text) (user port : Option Text)

/-- A remote as written: `.git` and slashes may follow the path. -/
structure Spelling where
  form : Form
  host : Text
  path : Text
  git : Bool
  slashes : ℕ

def userPart : Option Text → Text
  | none => []
  | some user => user ++ ['@']

def portPart : Option Text → Text
  | none => []
  | some port => ':' :: port

namespace Spelling

def wholePath (s : Spelling) : Text :=
  s.path ++ (if s.git then gitSuffix else []) ++ List.replicate s.slashes '/'

def text (s : Spelling) : Text :=
  match s.form with
  | .scp user => userPart user ++ (s.host ++ ':' :: s.wholePath)
  | .url scheme user port =>
    scheme ++ ("://".toList ++ (userPart user ++ (s.host ++ portPart port ++ '/' :: s.wholePath)))

/-- The spelling is one of this remote. What has two slashes behind the colon is a URL. -/
structure Of (s : Spelling) (host : Text) (segments : List Text) : Prop where
  chars : ∀ c ∈ s.host, isHostChar c = true
  host : asciiLowercase s.host = asciiLowercase host
  path : fields '/' s.path = segments
  form : match s.form with
    | .scp user => (∀ u, user = some u → '/' ∉ u) ∧ ¬ "//".toList <+: s.wholePath
    | .url scheme user port => (∀ c ∈ scheme, isSchemeChar c = true) ∧
      asciiLowercase scheme ≠ "file".toList ∧ (∀ u, user = some u → '/' ∉ u) ∧
      ∀ p, port = some p → p.all (·.isDigit) = true

end Spelling

def identityOf (host : Text) (segments : List Text) : Option Text :=
  if segments = [] then none
  else some (['/'].intercalate (asciiLowercase host :: segments.map asciiLowercase))

variable {c : Char} {front : Text}

lemma lt_of_alphanum (h : c.isAlphanum) : 48 ≤ c.toNat ∧ c.toNat < 0x7B := by
  simp only [Char.isAlphanum, Char.isAlpha, Char.isUpper, Char.isLower, Char.isDigit,
    Bool.or_eq_true, Bool.and_eq_true, decide_eq_true_eq, ge_iff_le, UInt32.le_iff_toNat_le] at h
  have hnat : c.val.toNat = c.toNat := rfl
  simp only [hnat] at h
  rcases h with (⟨hlow, hhigh⟩ | ⟨hlow, hhigh⟩) | ⟨hlow, hhigh⟩ <;>
    exact ⟨le_trans (by decide) hlow, lt_of_le_of_lt hhigh (by decide)⟩

/-- What a spelling is written with: no blank, and none of the characters that part it. -/
structure Plain (c : Char) : Prop where
  ascii : c.toNat < 0x80
  solid : isWhitespace c = false
  apart : c ∉ [':', '@', '\\']

lemma plain_of_alphanum (h : c.isAlphanum ∨ c ∈ ['.', '-', '_', '+', '/']) : Plain c := by
  rcases h with h | h
  · obtain ⟨hlow, hhigh⟩ := lt_of_alphanum h
    refine ⟨by omega, ?_, fun hmem => ?_⟩
    · simp only [isWhitespace, Bool.or_eq_false_iff, Bool.and_eq_false_iff, decide_eq_false_iff_not]
      omega
    · simp only [mem_cons, not_mem_nil, or_false] at hmem
      rcases hmem with rfl | rfl | rfl <;> cases h
  · simp only [mem_cons, not_mem_nil, or_false] at h
    rcases h with rfl | rfl | rfl | rfl | rfl <;> exact ⟨by decide, by decide, by decide⟩

lemma plain_host (h : isHostChar c) : Plain c ∧ c ≠ '/' := by
  refine ⟨plain_of_alphanum ?_, fun hc => absurd (hc ▸ h) (by decide)⟩
  simp only [isHostChar, Bool.or_eq_true, decide_eq_true_eq] at h
  rcases h with (h | rfl) | rfl
  · exact .inl h
  · simp
  · simp

lemma plain_scheme (h : isSchemeChar c) : Plain c := by
  refine plain_of_alphanum ?_
  simp only [isSchemeChar, Bool.or_eq_true, decide_eq_true_eq] at h
  rcases h with ((h | rfl) | rfl) | rfl
  · exact .inl h
  · simp
  · simp
  · simp

lemma plain_segment (h : isSegmentChar c) : Plain c := by
  refine plain_of_alphanum ?_
  simp only [isSegmentChar, Bool.or_eq_true, decide_eq_true_eq] at h
  rcases h with ((h | rfl) | rfl) | rfl
  · exact .inl h
  · simp
  · simp
  · simp

lemma toLower_eq_iff {d : Char} (hd : d.toNat ≤ 64) : c.toLower = d ↔ c = d := by
  constructor
  · intro h
    rcases toLower_cases c with hsame | ⟨hlow, hhigh, hnat⟩
    · exact hsame ▸ h
    · rw [h] at hnat
      omega
  · rintro rfl
    rcases toLower_cases c with hsame | ⟨hlow, hhigh, hnat⟩
    · exact hsame
    · omega

lemma toLowercase_ascii (hfold : fold.Ascii) {s : Text} (h : ∀ c ∈ s, c.toNat < 0x80) :
    fold.toLowercase s = asciiLowercase s := by
  have hfrom : ∀ before, fold.lowerFrom before s = asciiLowercase s := by
    induction s with
    | nil => exact fun _ => rfl
    | cons c s ih =>
      intro before
      have hc := h c mem_cons_self
      have hsigma : c ≠ 'Σ' := fun hc' => absurd (hc' ▸ hc) (by decide)
      have hrest := ih (fun d hd => h d (mem_cons_of_mem _ hd)) (before ++ [c])
      rw [CaseFolding.lowerFrom, CaseFolding.lowerChar, if_neg hsigma, hfold c hc, hrest]
      rfl
  exact hfrom []

lemma stripGit_append (s : Text) : stripGit (s ++ gitSuffix) = s := by
  have hsuffix : ".git".toList.isSuffixOf (s ++ gitSuffix) :=
    isSuffixOf_iff_suffix.mpr (suffix_append ..)
  have hlen : (s ++ gitSuffix).length - 4 = s.length := by
    rw [length_append]
    exact Nat.add_sub_cancel _ 4
  rw [stripGit, if_pos hsuffix, hlen, take_left]

lemma stripGit_eq_self {s : Text} (h : ¬ gitSuffix <:+ s) : stripGit s = s :=
  if_neg fun hsuffix => h (isSuffixOf_iff_suffix.mp hsuffix)

lemma trimEnd_slashes (s : Text) (n : ℕ) :
    trimEndBy isSlash (s ++ List.replicate n '/') = trimEndBy isSlash s := by
  rw [trimEndBy, reverse_append, reverse_replicate,
    dropWhile_append_of_pos fun c hc => by rw [eq_of_mem_replicate hc]; rfl]
  rfl

lemma trim_git (s : Text) (n : ℕ) :
    stripGit (trimEndBy isSlash (s ++ gitSuffix ++ List.replicate n '/')) = s := by
  have hlast : ∀ c ∈ (s ++ gitSuffix).getLast?, isSlash c = false := by
    intro c hc
    rw [getLast?_append, show gitSuffix.getLast? = some 't' from rfl, Option.some_or] at hc
    cases hc
    decide
  rw [trimEnd_slashes, trimEndBy_eq_self hlast, stripGit_append]

section Tidy

variable {host path : Text} {segments : List Text}

lemma fields_remote (hhost : '/' ∉ host) (hne : host ≠ []) (hpath : fields '/' path = segments) :
    fields '/' (trimEndBy isSlash (host ++ '/' :: path)) = host :: segments := by
  rw [show trimEndBy isSlash = trimEndBy (· = '/') from rfl, fields_trimEndBy, fields_append,
    fields_of_notMem hne hhost, hpath]
  rfl

lemma head?_remote (hhost : '/' ∉ host) (hne : host ≠ []) :
    (trimEndBy isSlash (host ++ '/' :: path)).head? ≠ some '/' :=
  fun h => head?_host hne hhost (head?_trimEndBy h)

lemma git_remote (hhost : '/' ∉ host) (hne : host ≠ []) (hpath : fields '/' path = segments)
    (hsegments : segments ≠ []) (hgit : ∀ segment ∈ segments, ¬ gitSuffix <:+ segment) :
    ¬ gitSuffix <:+ trimEndBy isSlash (host ++ '/' :: path) := by
  intro hsuffix
  have hfields := fields_remote hhost hne hpath
  have hends : (trimEndBy isSlash (host ++ '/' :: path)).getLast? ≠ some '/' :=
    fun h => absurd (getLast?_trimEndBy _ h) (by decide)
  generalize trimEndBy isSlash (host ++ '/' :: path) = whole at hsuffix hfields hends
  rcases eq_nil_or_concat (whole.splitOn '/') with hnil | ⟨init, last, hsplit⟩
  · rw [fields, hnil] at hfields
    cases hfields
  rw [concat_eq_append] at hsplit
  have hlast : last ∈ (whole.splitOn '/').getLast? := by rw [hsplit, getLast?_concat]; rfl
  have hin := suffix_last_segment (by decide) hsuffix hlast
  have hfull : last ≠ [] := by
    rintro rfl
    exact absurd (suffix_nil.mp hin) (by decide)
  rw [fields, hsplit, filter_append, filter_cons_of_pos (by simpa using hfull),
    filter_nil] at hfields
  -- with a segment behind it, the host is not the last field
  have hmem : last ∈ segments := by
    have hback := congrArg List.getLast? hfields
    rw [getLast?_concat, getLast?_cons_of_ne_nil hsegments] at hback
    exact mem_of_getLast? hback.symm
  exact hgit last hmem hin

lemma tidied (hhost : '/' ∉ host) (hne : host ≠ []) (hpath : fields '/' path = segments)
    (hgit : ∀ segment ∈ segments, ¬ gitSuffix <:+ segment) (git : Bool) (n : ℕ) :
    let tidied := collapse '/' (trimEndBy isSlash (stripGit (trimEndBy isSlash
      ((host ++ '/' :: path) ++ (if git then gitSuffix else []) ++ List.replicate n '/'))))
    if segments = [] then '/' ∉ tidied else tidied = ['/'].intercalate (host :: segments) := by
  intro tidied
  split
  · rename_i hnone
    -- only slashes follow the host
    have hslashes : path = List.replicate path.length '/' := by
      refine eq_replicate_iff.mpr ⟨rfl, fun c hc => ?_⟩
      by_contra hcne
      obtain ⟨field, hfield, -⟩ := exists_mem_fields hc hcne
      rw [hpath, hnone] at hfield
      cases hfield
    have htrim : trimEndBy isSlash (host ++ '/' :: path) = host := by
      rw [hslashes, ← replicate_succ, trimEnd_slashes]
      exact trimEndBy_eq_self fun c hc =>
        decide_eq_false fun hcs => hhost (hcs ▸ mem_of_getLast? hc)
    intro hmem
    have hin := mem_collapse hmem
    cases git with
    | true =>
      rw [if_pos rfl, trim_git, htrim] at hin
      exact hhost hin
    | false =>
      rw [if_neg Bool.false_ne_true, append_nil, trimEnd_slashes, htrim] at hin
      exact hhost (mem_stripGit (mem_trimEndBy hin))
  · rename_i hsome
    have hends := getLast?_trimEndBy (p := isSlash) (s := host ++ '/' :: path)
    have hwhole : trimEndBy isSlash (stripGit (trimEndBy isSlash
        ((host ++ '/' :: path) ++ (if git then gitSuffix else []) ++ List.replicate n '/'))) =
          trimEndBy isSlash (host ++ '/' :: path) := by
      cases git with
      | true => rw [if_pos rfl, trim_git]
      | false =>
        rw [if_neg Bool.false_ne_true, append_nil, trimEnd_slashes,
          stripGit_eq_self (git_remote hhost hne hpath hsome hgit)]
        exact trimEndBy_eq_self hends
    have hfields := fields_remote hhost hne hpath
    show collapse '/' _ = _
    rw [hwhole, collapse_eq_intercalate (fun hnil => ?_) (head?_remote hhost hne)
      (fun h => absurd (hends _ h) (by decide)), hfields]
    rw [hnil] at hfields
    cases hfields

end Tidy

/-! ### Reading -/

theorem dropWhile_append_cons {p : Char → Bool} (hc : p c = false) (s t : Text) :
    (s ++ c :: t).dropWhile p = s.dropWhile p ++ c :: t := by
  induction s with
  | nil => rw [nil_append, dropWhile_cons_of_neg (by simp [hc])]; rfl
  | cons a s ih =>
    rw [cons_append, dropWhile_cons, dropWhile_cons]
    split
    · exact ih
    · rfl

lemma trimEndBy_append_cons {p : Char → Bool} (hc : p c = false) (s t : Text) :
    trimEndBy p (s ++ c :: t) = s ++ c :: trimEndBy p t := by
  rw [trimEndBy, reverse_append, reverse_cons, append_assoc, singleton_append,
    dropWhile_append_cons hc, reverse_append, reverse_cons, reverse_reverse,
    append_assoc]
  rfl

lemma trim_append_cons (hc : isWhitespace c = false) (s t : Text) :
    trim (s ++ c :: t) = s.dropWhile isWhitespace ++ c :: trimEndBy isWhitespace t := by
  rw [trim, trimBy, dropWhile_append_cons hc, trimEndBy_append_cons hc]

lemma trim_url (scheme rest : Text) : trim (scheme ++ ("://".toList ++ rest)) =
    scheme.dropWhile isWhitespace ++ ("://".toList ++ trimEndBy isWhitespace rest) := by
  have hend : trimEndBy isWhitespace (['/'] ++ '/' :: rest) =
      ['/'] ++ '/' :: trimEndBy isWhitespace rest := trimEndBy_append_cons (by decide) _ _
  have htrim := trim_append_cons (c := ':') (by decide) scheme (['/'] ++ '/' :: rest)
  rw [hend] at htrim
  exact htrim

lemma trimEnd_solid {s : Text} (h : ∀ c ∈ s, isWhitespace c = false) :
    trimEndBy isWhitespace s = s :=
  trimEndBy_eq_self fun c hc => h c (mem_of_getLast? hc)

lemma dropWhile_solid {s : Text} (h : ∀ c ∈ s, isWhitespace c = false) :
    s.dropWhile isWhitespace = s :=
  dropWhile_eq_self fun c hc => h c (mem_of_mem_head? hc)

lemma takeWhile_authority (hfront : '/' ∉ front) (rest : Text) :
    (front ++ rest).takeWhile (· ≠ '/') = front ++ rest.takeWhile (· ≠ '/') ∧
      (front ++ rest).dropWhile (· ≠ '/') = rest.dropWhile (· ≠ '/') := by
  have hall : ∀ c ∈ front, decide (c ≠ '/') = true :=
    fun c hc => decide_eq_true fun hcs => hfront (hcs ▸ hc)
  exact ⟨takeWhile_append_of_pos hall, dropWhile_append_of_pos hall⟩

lemma afterLast_append (c : Char) (s t : Text) :
    afterLast c (s ++ c :: t) = afterLast c t := by
  have hstop : ∀ x y : Text, (x ++ c :: y).takeWhile (· ≠ c) = x.takeWhile (· ≠ c) := by
    intro x y
    induction x with
    | nil => simp
    | cons a x ih => rw [cons_append, takeWhile_cons, takeWhile_cons, ih]
  rw [afterLast, reverse_append, reverse_cons, append_assoc, singleton_append, hstop, afterLast]

lemma afterLast_of_notMem {s : Text} (h : c ∉ s) : afterLast c s = s := by
  have hall : ∀ d ∈ s.reverse, decide (d ≠ c) = true := fun d hd =>
    decide_eq_true fun hdc => h (hdc ▸ mem_reverse.mp hd)
  rw [afterLast, takeWhile_eq_self_iff.mpr hall, reverse_reverse]

lemma beforeLast_of_notMem {t : Text} (h : c ∉ t) (s : Text) :
    beforeLast c (s ++ c :: t) = s := by
  have hsplit := beforeLast_append (c := c) (s := s ++ c :: t) (by simp)
  rw [afterLast_append, afterLast_of_notMem h] at hsplit
  exact (append_left_inj _).mp hsplit.symm

lemma afterCredentials_user {user : Text} (huser : '/' ∉ user) (rest : Text) :
    afterCredentials (user ++ '@' :: rest) = afterCredentials rest := by
  have hfront : '/' ∉ user ++ ['@'] := by simpa using huser
  obtain ⟨htake, hdrop⟩ := takeWhile_authority hfront rest
  rw [append_assoc, singleton_append] at htake hdrop
  rw [afterCredentials, htake, hdrop, if_pos (by simp), append_assoc, singleton_append,
    afterLast_append, afterCredentials]
  split
  · rfl
  · rename_i hat
    rw [afterLast_of_notMem hat, takeWhile_append_dropWhile]

lemma afterCredentials_none (hslash : '/' ∉ front) (hat : '@' ∉ front) (rest : Text) :
    afterCredentials (front ++ '/' :: rest) = front ++ '/' :: rest := by
  refine if_neg ?_
  rw [(takeWhile_authority hslash _).1]
  simpa using hat

lemma afterCredentials_userPart {user : Option Text} (huser : ∀ u, user = some u → '/' ∉ u)
    (rest : Text) : afterCredentials (userPart user ++ rest) = afterCredentials rest := by
  cases user with
  | none => rfl
  | some u =>
    rw [userPart, append_assoc, singleton_append]
    exact afterCredentials_user (huser u rfl) rest

lemma splitOnce_scheme {scheme : Text} (h : ':' ∉ scheme) (rest : Text) :
    splitOnce "://".toList (scheme ++ ("://".toList ++ rest)) = some (scheme, rest) := by
  induction scheme with
  | nil => rfl
  | cons a scheme ih =>
    obtain ⟨ha, h⟩ := ne_and_not_mem_of_not_mem_cons h
    have hno : ¬ "://".toList.isPrefixOf (a :: (scheme ++ ("://".toList ++ rest))) := by
      intro hp
      obtain ⟨t, ht⟩ := isPrefixOf_iff_prefix.mp hp
      exact ha (List.cons.inj ht).1
    rw [cons_append, splitOnce, if_neg hno, ih h]
    rfl

lemma splitOnce_front {rest : Text} (hfront : '/' ∉ front) (hhead : rest.head? ≠ some '/')
    (hrest : splitOnce "://".toList rest = none) :
    splitOnce "://".toList (front ++ rest) = none := by
  induction front with
  | nil => exact hrest
  | cons a front ih =>
    have hno : ¬ "://".toList.isPrefixOf (a :: (front ++ rest)) := by
      intro hp
      obtain ⟨t, ht⟩ := isPrefixOf_iff_prefix.mp hp
      have hsecond : (front ++ rest).head? = some '/' := by
        rw [← (List.cons.inj ht).2]
        rfl
      cases front with
      | nil => exact hhead hsecond
      | cons b front =>
        cases hsecond
        simp at hfront
    rw [cons_append, splitOnce, if_neg hno, ih fun h => hfront (mem_cons_of_mem _ h)]
    rfl

lemma splitOnce_colon {path : Text} (hcolon : ':' ∉ path) (hslashes : ¬ "//".toList <+: path) :
    splitOnce "://".toList (':' :: path) = none := by
  have hnone : ∀ t : Text, ':' ∉ t → splitOnce "://".toList t = none := by
    intro t ht
    cases hsplit : splitOnce "://".toList t with
    | none => rfl
    | some parts =>
      refine absurd ?_ ht
      rw [splitOnce_some hsplit]
      simp
  have hno : ¬ "://".toList.isPrefixOf (':' :: path) := fun hp =>
    hslashes (cons_prefix_cons.mp (List.isPrefixOf_iff_prefix.mp hp)).2
  rw [splitOnce, if_neg hno, hnone path hcolon]
  rfl

lemma urlForm_spelled {host path : Text} {port : Option Text}
    (hhost : ∀ c ∈ host, isHostChar c = true) (hne : host ≠ [])
    (hport : ∀ p, port = some p → p.all (·.isDigit)) :
    urlForm (host ++ portPart port ++ '/' :: path) =
      if path = [] then none else some (host ++ '/' :: path) := by
  have hplain : ∀ c ∈ host, c ≠ '/' ∧ c ≠ ':' := fun c hc =>
    ⟨(plain_host (hhost c hc)).2, fun h => (plain_host (hhost c hc)).1.apart (by simp [h])⟩
  have hdigits : ∀ p, port = some p → '/' ∉ p ∧ ':' ∉ p := fun p hp =>
    ⟨fun h => absurd (all_eq_true.mp (hport p hp) _ h) (by decide),
      fun h => absurd (all_eq_true.mp (hport p hp) _ h) (by decide)⟩
  have hslash : '/' ∉ host ++ portPart port := by
    rw [mem_append]
    rintro (h | h)
    · exact (hplain _ h).1 rfl
    · cases port with
      | none => cases h
      | some p => simp [portPart, (hdigits p rfl).1] at h
  have hstrip : stripPort (host ++ portPart port) = host := by
    cases port with
    | none =>
      rw [portPart, append_nil]
      exact if_neg fun h => (hplain _ h.1).2 rfl
    | some p =>
      rw [portPart, stripPort, afterLast_append, afterLast_of_notMem (hdigits p rfl).2,
        if_pos ⟨by simp, hport p rfl⟩, beforeLast_of_notMem (hdigits p rfl).2]
  obtain ⟨htake, hdrop⟩ := takeWhile_authority hslash ('/' :: path)
  rw [urlForm, htake, hdrop]
  simp [hstrip, hne]

lemma scpForm_spelled {host path : Text} (hhost : ∀ c ∈ host, isHostChar c = true)
    (hlen : 2 ≤ host.length) (hpath : '\\' ∉ path) :
    scpForm (host ++ ':' :: path) = if path = [] then none else some (host ++ '/' :: path) := by
  have hplain : ∀ c ∈ host, c ≠ '/' ∧ c ≠ ':' := fun c hc =>
    ⟨(plain_host (hhost c hc)).2, fun h => (plain_host (hhost c hc)).1.apart (by simp [h])⟩
  have hsplit : splitOnce [':'] (host ++ ':' :: path) = some (host, path) :=
    splitOnce_singleton_eq_some.mpr ⟨rfl, fun h => (hplain _ h).2 rfl⟩
  have hbytes := length_le_byteLen host
  rw [scpForm, hsplit, Option.bind_eq_bind, Option.bind_some]
  dsimp only
  rw [if_neg fun h => (hplain _ h).1 rfl]
  by_cases hnil : path = []
  · rw [if_pos (.inr hnil), if_pos hnil]
  · rw [if_neg (by simp only [hnil, or_false]; omega), if_neg hpath, if_neg hnil]

lemma normalizeRemoteUrl_eq (fold : CaseFolding) (raw : Text) : normalizeRemoteUrl fold raw =
    (remoteForm (trim raw)).bind fun normalized =>
      if tidy fold normalized = [] ∨ '/' ∉ tidy fold normalized then none
      else some (tidy fold normalized) := by
  rw [normalizeRemoteUrl]
  split
  · rename_i hnil
    rw [hnil]
    rfl
  · rfl

/-! ### The identity -/

section Spelled

variable {host : Text} {segments : List Text} {s : Spelling}

lemma plain_wholePath (h : IsRemote host segments) (hs : s.Of host segments) :
    ∀ c ∈ s.wholePath, Plain c := by
  have hgit : ∀ c ∈ gitSuffix, Plain c := by
    intro c hc
    have hmem : c = '.' ∨ c = 'g' ∨ c = 'i' ∨ c = 't' := by simpa [gitSuffix] using hc
    rcases hmem with rfl | rfl | rfl | rfl <;> exact ⟨by decide, by decide, by decide⟩
  have hslash : Plain '/' := plain_of_alphanum (.inr (by simp))
  intro c hc
  rw [Spelling.wholePath, mem_append, mem_append] at hc
  rcases hc with (hc | hc) | hc
  · by_cases hcs : c = '/'
    · exact hcs ▸ hslash
    · obtain ⟨segment, hsegment, hmem⟩ := exists_mem_fields hc hcs
      exact plain_segment (h.segment segment (hs.path ▸ hsegment) c hmem)
  · split at hc
    · exact hgit c hc
    · cases hc
  · exact eq_of_mem_replicate hc ▸ hslash

lemma two_le_host (h : IsRemote host segments) (hs : s.Of host segments) : 2 ≤ s.host.length := by
  have hsame := congrArg List.length hs.host
  rw [asciiLowercase, asciiLowercase, length_map, length_map] at hsame
  exact hsame ▸ h.length

variable {user : Option Text}

lemma trim_scp {host path : Text} (huser : ∀ u, user = some u → '/' ∉ u)
    (hhost : ∀ c ∈ host, isHostChar c = true) (hpath : ∀ c ∈ path, Plain c) :
    ∃ user', (∀ u, user' = some u → '/' ∉ u) ∧
      trim (userPart user ++ (host ++ ':' :: path)) = userPart user' ++ (host ++ ':' :: path) := by
  have hend := trimEnd_solid fun c hc => (hpath c hc).solid
  cases user with
  | none =>
    refine ⟨none, huser, ?_⟩
    rw [userPart, nil_append, trim_append_cons (by decide),
      dropWhile_solid fun c hc => (plain_host (hhost c hc)).1.solid, hend]
  | some u =>
    refine ⟨some (u.dropWhile isWhitespace), fun v hv hmem => ?_, ?_⟩
    · cases hv
      exact huser u rfl ((dropWhile_suffix _).subset hmem)
    · rw [userPart, append_assoc, singleton_append, trim_append_cons (by decide),
        trimEndBy_append_cons (by decide), hend, userPart, append_assoc, singleton_append]

lemma remoteForm_scp {host path : Text} (hlen : 2 ≤ host.length)
    (huser : ∀ u, user = some u → '/' ∉ u) (hhost : ∀ c ∈ host, isHostChar c = true)
    (hpath : ∀ c ∈ path, Plain c) (hslashes : ¬ "//".toList <+: path) :
    remoteForm (userPart user ++ (host ++ ':' :: path)) =
      if path = [] then none else some (host ++ '/' :: path) := by
  have hplain : ∀ c ∈ host, Plain c ∧ c ≠ '/' := fun c hc => plain_host (hhost c hc)
  have hback : '\\' ∉ path := fun hmem => (hpath _ hmem).apart (by simp)
  have hfront : '/' ∉ userPart user ++ host := by
    rw [mem_append]
    rintro (hmem | hmem)
    · cases user with
      | none => cases hmem
      | some u => simp [userPart, huser u rfl] at hmem
    · exact (hplain _ hmem).2 rfl
  have hnone := splitOnce_front hfront (by simp)
    (splitOnce_colon (fun hmem => (hpath _ hmem).apart (by simp)) hslashes)
  rw [append_assoc] at hnone
  have hnouser : afterCredentials (host ++ ':' :: path) = host ++ ':' :: path := by
    refine if_neg fun hmem => ?_
    have hin := (takeWhile_sublist _).subset hmem
    rw [mem_append, mem_cons] at hin
    rcases hin with hin | hin | hin
    · exact (hplain _ hin).1.apart (by simp)
    · cases hin
    · exact (hpath _ hin).apart (by simp)
  rw [remoteForm, hnone]
  dsimp only
  rw [afterCredentials_userPart huser, hnouser, scpForm_spelled hhost hlen hback]

lemma remoteForm_url {scheme host path : Text} {port : Option Text} (hne : host ≠ [])
    (hscheme : ∀ c ∈ scheme, isSchemeChar c = true) (hfile : asciiLowercase scheme ≠ "file".toList)
    (huser : ∀ u, user = some u → '/' ∉ u) (hhost : ∀ c ∈ host, isHostChar c = true)
    (hport : ∀ p, port = some p → p.all (·.isDigit)) :
    remoteForm (scheme ++ ("://".toList ++ (userPart user ++ (host ++ portPart port ++ '/' :: path)))) =
      if path = [] then none else some (host ++ '/' :: path) := by
  have hcolon : ':' ∉ scheme := fun hmem => (plain_scheme (hscheme _ hmem)).apart (by simp)
  have hfront : ∀ c ∈ host ++ portPart port, c ≠ '@' ∧ c ≠ '/' := by
    intro c hc
    rcases mem_append.mp hc with hc | hc
    · obtain ⟨hplain, hslash⟩ := plain_host (hhost c hc)
      exact ⟨fun heq => hplain.apart (by simp [heq]), hslash⟩
    · cases port with
      | none => cases hc
      | some p =>
        rcases mem_cons.mp hc with rfl | hc
        · decide
        · have hdigit := all_eq_true.mp (hport p rfl) c hc
          constructor
          · rintro rfl
            cases hdigit
          · rintro rfl
            cases hdigit
  rw [remoteForm, splitOnce_scheme hcolon]
  dsimp only
  rw [if_neg hfile, afterCredentials_userPart huser, afterCredentials_none
    (fun hmem => (hfront _ hmem).2 rfl) (fun hmem => (hfront _ hmem).1 rfl),
    urlForm_spelled hhost hne hport]

lemma remoteForm_text (h : IsRemote host segments) (hs : s.Of host segments) :
    remoteForm (trim s.text) =
      if s.wholePath = [] then none else some (s.host ++ '/' :: s.wholePath) := by
  have hpath := plain_wholePath h hs
  have hlen := two_le_host h hs
  have hform := hs.form
  rw [Spelling.text]
  cases hcase : s.form with
  | scp user =>
    rw [hcase] at hform
    obtain ⟨user', huser', htrim⟩ := trim_scp hform.1 hs.chars hpath
    dsimp only
    rw [htrim, remoteForm_scp hlen huser' hs.chars hpath hform.2]
  | url scheme user port =>
    rw [hcase] at hform
    obtain ⟨hscheme, hfile, huser, hport⟩ := hform
    have hne : s.host ≠ [] := by
      intro hnil
      rw [hnil] at hlen
      cases hlen
    have hend : trimEndBy isWhitespace (userPart user ++
        (s.host ++ portPart port ++ '/' :: s.wholePath)) =
          userPart user ++ (s.host ++ portPart port ++ '/' :: s.wholePath) := by
      rw [← append_assoc, trimEndBy_append_cons (by decide),
        trimEnd_solid fun c hc => (hpath c hc).solid]
    dsimp only
    rw [trim_url, dropWhile_solid fun c hc => (plain_scheme (hscheme c hc)).solid, hend,
      remoteForm_url hne hscheme hfile huser hs.chars hport]

lemma plain_text (h : IsRemote host segments) (hs : s.Of host segments) :
    ∀ c ∈ s.host ++ '/' :: s.wholePath, Plain c := by
  intro c hc
  rcases mem_append.mp hc with hc | hc
  · exact (plain_host (hs.chars c hc)).1
  · rcases mem_cons.mp hc with rfl | hc
    · exact plain_of_alphanum (.inr (by simp))
    · exact plain_wholePath h hs c hc

lemma at_notMem_tidy (hfold : fold.Ascii) (h : IsRemote host segments)
    (hs : s.Of host segments) : '@' ∉ tidy fold (s.host ++ '/' :: s.wholePath) := by
  intro hmem
  have hplain := plain_text h hs
  have hin := mem_trimEndBy (mem_stripGit (mem_trimEndBy (mem_collapse hmem)))
  rw [toLowercase_ascii hfold fun c hc => (hplain c hc).ascii] at hin
  obtain ⟨c, hc, heq⟩ := mem_map.mp hin
  obtain rfl := (toLower_eq_iff (by decide)).mp heq
  exact (hplain _ hc).apart (by simp)

lemma tidy_text (hfold : fold.Ascii) (h : IsRemote host segments) (hs : s.Of host segments) :
    let identity := tidy fold (s.host ++ '/' :: s.wholePath)
    if segments = [] then '/' ∉ identity
    else identity = ['/'].intercalate (asciiLowercase host :: segments.map asciiLowercase) := by
  have hlower : fold.toLowercase (s.host ++ '/' :: s.wholePath) =
      (asciiLowercase host ++ '/' :: asciiLowercase s.path) ++
        (if s.git then gitSuffix else []) ++ List.replicate s.slashes '/' := by
    have hgit : asciiLowercase (if s.git then gitSuffix else []) =
        if s.git then gitSuffix else [] := by
      split
      · decide
      · rfl
    have hslash : ('/' : Char).toLower = '/' := by decide
    rw [toLowercase_ascii hfold fun c hc => (plain_text h hs c hc).ascii, ← hs.host, Spelling.wholePath]
    simp only [asciiLowercase, map_append, map_cons, map_replicate, hslash,
      append_assoc, cons_append] at hgit ⊢
    rw [hgit]
  have hhost : '/' ∉ asciiLowercase host := by
    rw [← hs.host]
    intro hmem
    obtain ⟨c, hc, heq⟩ := mem_map.mp hmem
    exact (plain_host (hs.chars c hc)).2 ((toLower_eq_iff (by decide)).mp heq)
  have hne : asciiLowercase host ≠ [] := by
    intro hnil
    have hlen := h.length
    rw [map_eq_nil_iff.mp hnil] at hlen
    cases hlen
  have hpath : fields '/' (asciiLowercase s.path) = segments.map asciiLowercase := by
    rw [asciiLowercase, fields_map fun _ => toLower_eq_iff (by decide), hs.path]
    rfl
  have hgit : ∀ segment ∈ segments.map asciiLowercase, ¬ gitSuffix <:+ segment := by
    intro segment hsegment
    obtain ⟨raw, hraw, rfl⟩ := mem_map.mp hsegment
    exact h.git raw hraw
  have htidied := tidied hhost hne hpath hgit s.git s.slashes
  simp only [map_eq_nil_iff] at htidied
  rw [← hlower] at htidied
  exact htidied

lemma normalize_text (hfold : fold.Ascii) (h : IsRemote host segments) (hs : s.Of host segments) :
    normalizeRemoteUrl fold s.text = identityOf host segments := by
  have htidy := tidy_text hfold h hs
  rw [normalizeRemoteUrl_eq, remoteForm_text h hs, identityOf]
  by_cases hsegments : segments = []
  · rw [if_pos hsegments] at htidy ⊢
    split
    · rfl
    · exact if_pos (.inr htidy)
  · have hwhole : s.wholePath ≠ [] := by
      intro hnil
      have hpath : s.path = [] :=
        (append_eq_nil_iff.mp (append_eq_nil_iff.mp hnil).1).1
      exact hsegments (hs.path ▸ hpath ▸ rfl)
    rw [if_neg hsegments] at htidy ⊢
    rw [if_neg hwhole, Option.bind_some, htidy]
    obtain ⟨first, rest, rfl⟩ := exists_cons_of_ne_nil hsegments
    rw [map_cons, intercalate_cons_cons, if_neg (by simp)]

end Spelled

/-- Every spelling of a remote has the remote's identity, in which there is no `@`; and no URL's
identity depends on its user. -/
theorem remote_spellings_identity (hfold : fold.Ascii) {host : Text}
    {segments : List Text} (h : IsRemote host segments) :
    (∀ s : Spelling, s.Of host segments → normalizeRemoteUrl fold s.text = identityOf host segments ∧
      ∀ identity, normalizeRemoteUrl fold s.text = some identity → '@' ∉ identity) ∧
    ∀ scheme user rest, ':' ∉ scheme → '/' ∉ user →
      normalizeRemoteUrl fold (scheme ++ ("://".toList ++ (user ++ '@' :: rest))) =
        normalizeRemoteUrl fold (scheme ++ ("://".toList ++ rest)) := by
  refine ⟨fun s hs => ?_, fun scheme user rest hscheme huser => ?_⟩
  · refine ⟨normalize_text hfold h hs, fun identity hidentity => ?_⟩
    rw [normalizeRemoteUrl_eq, remoteForm_text h hs] at hidentity
    obtain ⟨normalized, hnormalized, htidy⟩ := Option.bind_eq_some_iff.mp hidentity
    split at hnormalized
    · cases hnormalized
    · obtain rfl := Option.some.inj hnormalized
      split at htidy
      · cases htidy
      · exact Option.some.inj htidy ▸ at_notMem_tidy hfold h hs
  · have hdrop : ':' ∉ scheme.dropWhile isWhitespace :=
      fun hmem => hscheme ((dropWhile_suffix _).subset hmem)
    rw [normalizeRemoteUrl_eq, normalizeRemoteUrl_eq, trim_url, trim_url,
      trimEndBy_append_cons (by decide), remoteForm, remoteForm, splitOnce_scheme hdrop,
      splitOnce_scheme hdrop]
    dsimp only
    rw [afterCredentials_user huser]

lemma asciiFolding_ascii : asciiFolding.Ascii := fun _ hc =>
  if_neg fun hsigma => absurd (hsigma ▸ hc) (by decide)

/-- The spellings of `github.com/Acme/API` as a person and a client write them. -/
theorem remote_spellings_identity_acme :
    normalizeRemoteUrl asciiFolding "git@GitHub.com:Acme//API.git/".toList =
        some "github.com/acme/api".toList ∧
      normalizeRemoteUrl asciiFolding "https://me:p@ss@github.com:443/Acme/API/".toList =
        some "github.com/acme/api".toList := by
  have hremote : IsRemote "github.com".toList ["Acme".toList, "API".toList] :=
    ⟨by decide, by simp [isSegmentChar, Char.isAlphanum], by simp; decide⟩
  have hlaw := (remote_spellings_identity asciiFolding_ascii hremote).1
  have hscp := hlaw ⟨.scp (some "git".toList), "GitHub.com".toList, "Acme//API".toList, true, 1⟩
    ⟨all_eq_true.mp (by decide), by decide, by decide,
      ⟨fun u hu => Option.some.inj hu ▸ by decide, by decide⟩⟩
  have hurl := hlaw ⟨.url "https".toList (some "me:p@ss".toList) (some "443".toList),
    "github.com".toList, "Acme/API".toList, false, 1⟩
    ⟨all_eq_true.mp (by decide), by decide, by decide, ⟨all_eq_true.mp (by decide),
      by decide, fun u hu => Option.some.inj hu ▸ by decide, fun p hp => Option.some.inj hp ▸ by decide⟩⟩
  exact ⟨hscp.1, hurl.1⟩

/-- A segment that ends in `.GIT` is no such segment, and two slashes behind the colon of `ab:…`
make a URL. -/
theorem spellings_part : ¬ gitSuffix <:+ "a.GIT".toList ∧
    normalizeRemoteUrl asciiFolding "https://ab/a.GIT".toList = some "ab/a".toList ∧
    normalizeRemoteUrl asciiFolding "https://ab/a.GIT.git".toList = some "ab/a.git".toList ∧
    normalizeRemoteUrl asciiFolding "ab:cd/e".toList = some "ab/cd/e".toList ∧
    normalizeRemoteUrl asciiFolding "ab://cd/e".toList = some "cd/e".toList := by
  decide

end Identities
