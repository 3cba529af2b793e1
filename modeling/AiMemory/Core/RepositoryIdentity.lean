/-
What names a repository independently of a disk (`ai-memory-core`,
`repository_identity.rs`).

The client walks a chain of sources — a declared identity, a declared project, a remote, the
folder — and sends the first that answers; the server checks that what arrived has the
shape the chain produces.
-/
import AiMemory.Lib.Strings
import AiMemory.Lib.Utf8
import AiMemory.Store.Projects
import Mathlib

open Strings Utf8 List

namespace Identities

open Store
open Projects (IdentitySource)

/-! ### Lower case -/

structure CaseFolding where
  lower : Char → Text
  finalSigma : Text → Text → Bool
  nonempty : ∀ c, lower c ≠ []
  /-- A lower-case mapping is its own lower case. -/
  stable : ∀ c ≠ 'Σ', ∀ d ∈ lower c, d ≠ 'Σ' ∧ lower d = [d]
  sigma : lower 'σ' = ['σ'] ∧ lower 'ς' = ['ς']
  /-- No letter becomes a blank, a control character or a slash. -/
  plain : ∀ c, ∀ d ∈ lower c, isWhitespace d = true ∨ isControl d = true ∨ d = '/' → d = c
  slash : lower '/' = ['/']

namespace CaseFolding

variable (fold : CaseFolding)

def lowerChar (before : Text) (c : Char) (after : Text) : Text :=
  if c = 'Σ' then [if fold.finalSigma before after then 'ς' else 'σ'] else fold.lower c

def lowerFrom (before : Text) : Text → Text
  | [] => []
  | c :: after => fold.lowerChar before c after ++ lowerFrom (before ++ [c]) after

/-- `str::to_lowercase`. -/
def toLowercase (s : Text) : Text := fold.lowerFrom [] s

def Stable (c : Char) : Prop := c ≠ 'Σ' ∧ fold.lower c = [c]

variable {fold}

lemma stable_of_mem_lowerChar {before after : Text} {c d : Char}
    (h : d ∈ fold.lowerChar before c after) : fold.Stable d := by
  rw [lowerChar] at h
  split at h
  · rw [mem_singleton] at h
    split at h
    · rw [h]
      exact ⟨by decide, fold.sigma.2⟩
    · rw [h]
      exact ⟨by decide, fold.sigma.1⟩
  · exact fold.stable c ‹_› d h

lemma stable_of_mem_lowerFrom {before s : Text} {d : Char}
    (h : d ∈ fold.lowerFrom before s) : fold.Stable d := by
  induction s generalizing before with
  | nil => cases h
  | cons c s ih =>
    rcases mem_append.mp h with h | h
    · exact stable_of_mem_lowerChar h
    · exact ih h

lemma lowerFrom_eq_self {before s : Text} (h : ∀ c ∈ s, fold.Stable c) :
    fold.lowerFrom before s = s := by
  induction s generalizing before with
  | nil => rfl
  | cons c s ih =>
    obtain ⟨hsigma, hlower⟩ := h c mem_cons_self
    rw [lowerFrom, lowerChar, if_neg hsigma, hlower, ih fun c hc => h c (mem_cons_of_mem _ hc)]
    rfl

lemma plain_lowerChar {before after : Text} {c d : Char} (h : d ∈ fold.lowerChar before c after)
    (hd : isWhitespace d ∨ isControl d ∨ d = '/') : d = c := by
  rw [lowerChar] at h
  split at h
  · rw [mem_singleton] at h
    split at h
    all_goals
      subst h
      exact absurd hd (by decide)
  · exact fold.plain c d h hd

lemma lowerChar_ne_nil (fold : CaseFolding) (before : Text) (c : Char) (after : Text) :
    fold.lowerChar before c after ≠ [] := by
  rw [lowerChar]
  split
  · exact cons_ne_nil _ _
  · exact fold.nonempty c

lemma head?_lowerFrom {before s : Text} {d : Char} (h : (fold.lowerFrom before s).head? = some d) :
    ∃ c after, s.head? = some c ∧ d ∈ fold.lowerChar before c after := by
  cases s with
  | nil => cases h
  | cons c s =>
    refine ⟨c, s, rfl, ?_⟩
    obtain ⟨x, rest, heq⟩ := exists_cons_of_ne_nil (fold.lowerChar_ne_nil before c s)
    rw [lowerFrom, heq] at h
    rw [heq]
    cases h
    exact mem_cons_self

lemma getLast?_lowerFrom {before s : Text} {d : Char}
    (h : (fold.lowerFrom before s).getLast? = some d) :
    ∃ c before' after, s.getLast? = some c ∧ d ∈ fold.lowerChar before' c after := by
  induction s generalizing before with
  | nil => cases h
  | cons c s ih =>
    rw [lowerFrom] at h
    cases s with
    | nil =>
      rw [lowerFrom, append_nil] at h
      exact ⟨c, before, [], rfl, mem_of_getLast? h⟩
    | cons b s =>
      rw [getLast?_append] at h
      cases hrest : (fold.lowerFrom (before ++ [c]) (b :: s)).getLast? with
      | none =>
        rw [getLast?_eq_none_iff, lowerFrom] at hrest
        exact absurd (append_eq_nil_iff.mp hrest).1 (fold.lowerChar_ne_nil _ _ _)
      | some x =>
        rw [hrest] at h
        cases h
        obtain ⟨e, before', after, hlast, hmem⟩ := ih hrest
        exact ⟨e, before', after, by simpa [getLast?_cons] using hlast, hmem⟩

end CaseFolding

/-! ### Remotes -/

variable (s : Text)

def asciiLowercase : Text := s.map Char.toLower

def stripPort (host : Text) : Text :=
  if ':' ∈ host ∧ (afterLast ':' host).all (·.isDigit) then beforeLast ':' host else host

/-- What follows the user info of an authority, up to the last `@` before the path. -/
def afterCredentials (rest : Text) : Text :=
  let authority := rest.takeWhile (· ≠ '/')
  if '@' ∈ authority then afterLast '@' authority ++ rest.dropWhile (· ≠ '/') else rest

/-- `strip_suffix(".git")`. -/
def stripGit : Text :=
  if ".git".toList.isSuffixOf s then s.take (s.length - 4) else s

def isSlash (c : Char) : Bool := c = '/'

/-- Case-fold, drop one `.git` at the end, and collapse slashes. -/
def tidy (fold : CaseFolding) (s : Text) : Text :=
  let out := trimEndBy isSlash (fold.toLowercase s)
  let out := trimEndBy isSlash (stripGit out)
  collapse '/' out

/-- `host/path` of a URL, without the port. -/
def urlForm (hostAndPath : Text) : Option Text :=
  let host := stripPort (hostAndPath.takeWhile (· ≠ '/'))
  let path := (hostAndPath.dropWhile (· ≠ '/')).drop 1
  if host = [] ∨ path = [] then none else some (host ++ '/' :: path)

/-- `host/path` of an scp-like `host:path`; a path of a disk is none. -/
def scpForm (hostAndPath : Text) : Option Text := do
  let (host, path) ← splitOnce [':'] hostAndPath
  if '/' ∈ host then none
  else if byteLen host ≤ 1 ∨ path = [] then none
  else if '\\' ∈ path then none
  else some (host ++ '/' :: path)

/-- `host/path`, read as a URL when there is a scheme. -/
def remoteForm (raw : Text) : Option Text :=
  match splitOnce "://".toList raw with
  | some (scheme, rest) =>
    if asciiLowercase scheme = "file".toList then none else urlForm (afterCredentials rest)
  | none => scpForm (afterCredentials raw)

def normalizeRemoteUrl (fold : CaseFolding) (raw : Text) : Option Text :=
  if trim raw = [] then none
  else do
    let normalized ← remoteForm (trim raw)
    let identity := tidy fold normalized
    if identity = [] ∨ '/' ∉ identity then none else some identity

/-! ### The chain -/

def asStr : IdentitySource → Text
  | .explicit => "explicit".toList
  | .manifest => "manifest".toList
  | .gitRemote => "git_remote".toList
  | .folderName => "folder_name".toList

def fromStrOpt : Option IdentitySource :=
  if s = "explicit".toList then some .explicit
  else if s = "manifest".toList then some .manifest
  else if s = "git_remote".toList then some .gitRemote
  else if s = "folder_name".toList then some .folderName
  else none

variable (source : IdentitySource)

def routesByIdentity : Bool :=
  source = .explicit || source = .gitRemote

structure RepositoryIdentity where
  identity : Text
  source : IdentitySource
  deriving DecidableEq

structure IdentityInputs where
  explicitIdentity : Option Text
  manifestName : Option Text
  upstreamRemote : Option Text
  originRemote : Option Text
  folderName : Option Text

def nonEmpty : Option Text := if trim s = [] then none else some (trim s)

def declared (fold : CaseFolding) (source : IdentitySource) (name : Option Text) :
    Option RepositoryIdentity :=
  (name.bind nonEmpty).map fun name => ⟨fold.toLowercase name, source⟩

def ofRemote (fold : CaseFolding) (remote : Option Text) : Option RepositoryIdentity :=
  (remote.bind (normalizeRemoteUrl fold)).map fun identity => ⟨identity, .gitRemote⟩

def resolve (fold : CaseFolding) (inputs : IdentityInputs) : Option RepositoryIdentity :=
  (declared fold .explicit inputs.explicitIdentity).or <|
    (declared fold .manifest inputs.manifestName).or <|
      (ofRemote fold inputs.upstreamRemote).or <|
        (ofRemote fold inputs.originRemote).or <|
          declared fold .folderName inputs.folderName

def maxIdentityLen : ℕ := 512

def acceptWireIdentity (fold : CaseFolding) (identity source : Text) :
    Option RepositoryIdentity := do
  let source ← fromStrOpt (trim source)
  if !routesByIdentity source then none
  else
    let identity := trim identity
    if identity = [] ∨ maxIdentityLen < byteLen identity ∨ identity.any isControl ∨
        identity ≠ fold.toLowercase identity then none
    else if source = .gitRemote ∧ ('/' ∉ identity ∨ (identity.splitOn '/').any List.isEmpty ∨
        identity.any isWhitespace) then none
    else some ⟨identity, source⟩

/-! ### What the chain produces -/

variable {fold : CaseFolding}

lemma declared_spec {source : IdentitySource} {name : Option Text}
    {r : RepositoryIdentity} (h : declared fold source name = some r) :
    r.source = source ∧ r.identity ≠ [] ∧ trim r.identity = r.identity ∧
      fold.toLowercase r.identity = r.identity := by
  obtain ⟨text, htext, rfl⟩ := Option.map_eq_some_iff.mp h
  obtain ⟨raw, -, hraw⟩ := Option.bind_eq_some_iff.mp htext
  rw [nonEmpty] at hraw
  split at hraw
  · cases hraw
  · rename_i hne
    cases hraw
    have hcons := exists_cons_of_ne_nil hne
    refine ⟨rfl, ?_, ?_, ?_⟩
    · obtain ⟨c, rest, heq⟩ := hcons
      dsimp only
      rw [heq, CaseFolding.toLowercase, CaseFolding.lowerFrom]
      exact fun hnil => fold.lowerChar_ne_nil _ _ _ (append_eq_nil_iff.mp hnil).1
    · -- a blank at an end of the folded text was one at the end of the trimmed text
      refine trimBy_eq_self (fun d hd => ?_) (fun d hd => ?_)
      · obtain ⟨c, after, hc, hmem⟩ := CaseFolding.head?_lowerFrom hd
        by_contra hblank
        rw [Bool.not_eq_false] at hblank
        obtain rfl := CaseFolding.plain_lowerChar hmem (.inl hblank)
        rw [head?_trimBy d hc] at hblank
        cases hblank
      · obtain ⟨c, before, after, hc, hmem⟩ := CaseFolding.getLast?_lowerFrom hd
        by_contra hblank
        rw [Bool.not_eq_false] at hblank
        obtain rfl := CaseFolding.plain_lowerChar hmem (.inl hblank)
        rw [getLast?_trimBy d hc] at hblank
        cases hblank
    · exact CaseFolding.lowerFrom_eq_self fun c hc => CaseFolding.stable_of_mem_lowerFrom hc

lemma mem_trimEndBy {p : Char → Bool} {s : Text} {c : Char} (h : c ∈ trimEndBy p s) :
    c ∈ s := by
  obtain ⟨cut, hcut, -⟩ := trimEndBy_append p s
  rw [hcut]
  exact mem_append_left _ h

lemma mem_stripGit {s : Text} {c : Char} (h : c ∈ stripGit s) : c ∈ s := by
  rw [stripGit] at h
  split at h
  · exact mem_of_mem_take h
  · exact h

lemma head?_stripGit {s : Text} {c : Char} (h : c ∈ (stripGit s).head?) : c ∈ s.head? := by
  rw [stripGit] at h
  split at h
  · rw [head?_take] at h
    split at h
    · cases h
    · exact h
  · exact h

lemma tidy_spec (fold : CaseFolding) (s : Text) (hhead : s.head? ≠ some '/') :
    fold.toLowercase (tidy fold s) = tidy fold s ∧ (tidy fold s).head? ≠ some '/' ∧
      (tidy fold s).getLast? ≠ some '/' ∧ NoDouble '/' (tidy fold s) := by
  refine ⟨CaseFolding.lowerFrom_eq_self fun c hc => ?_, fun h => ?_, fun h => ?_,
    noDouble_collapse _ _⟩
  · exact CaseFolding.stable_of_mem_lowerFrom
      (mem_trimEndBy (mem_stripGit (mem_trimEndBy (mem_collapse hc))))
  · rw [tidy, head?_collapse] at h
    have hfirst := head?_trimEndBy (head?_stripGit (head?_trimEndBy h))
    obtain ⟨c, after, hc, hmem⟩ := CaseFolding.head?_lowerFrom hfirst
    rw [← CaseFolding.plain_lowerChar hmem (.inr (.inr rfl))] at hc
    exact hhead hc
  · rw [tidy, getLast?_collapse] at h
    exact absurd (getLast?_trimEndBy _ h) (by decide)

lemma mem_stripPort {host : Text} {c : Char} (h : c ∈ stripPort host) : c ∈ host := by
  rw [stripPort] at h
  split at h
  · rw [beforeLast, mem_reverse] at h
    exact mem_reverse.mp ((dropWhile_suffix _).subset (mem_of_mem_drop h))
  · exact h

lemma head?_host {host path : Text} (hne : host ≠ []) (hslash : '/' ∉ host) :
    (host ++ '/' :: path).head? ≠ some '/' := by
  obtain ⟨c, rest, rfl⟩ := exists_cons_of_ne_nil hne
  intro h
  cases h
  exact hslash mem_cons_self

lemma urlForm_head? {s t : Text} (h : urlForm s = some t) : t.head? ≠ some '/' := by
  rw [urlForm] at h
  split at h
  · cases h
  · rename_i hne
    cases h
    refine head?_host (fun hnil => hne (.inl hnil)) fun hmem => ?_
    have := of_mem_takeWhile (mem_stripPort hmem)
    simp at this

lemma scpForm_head? {s t : Text} (h : scpForm s = some t) : t.head? ≠ some '/' := by
  rw [scpForm] at h
  obtain ⟨⟨host, path⟩, -, h⟩ := Option.bind_eq_some_iff.mp h
  dsimp only at h
  split at h
  · cases h
  · rename_i hslash
    split at h
    · cases h
    · rename_i hlen
      split at h
      · cases h
      · cases h
        refine head?_host (fun hnil => hlen (.inl ?_)) hslash
        rw [hnil, byteLen_nil]
        exact Nat.zero_le _

lemma normalizeRemoteUrl_spec {raw identity : Text}
    (h : normalizeRemoteUrl fold raw = some identity) :
    identity ≠ [] ∧ '/' ∈ identity ∧ fold.toLowercase identity = identity ∧
      ∀ segment ∈ identity.splitOn '/', segment ≠ [] := by
  rw [normalizeRemoteUrl] at h
  split at h
  · cases h
  · obtain ⟨normalized, hform, h⟩ := Option.bind_eq_some_iff.mp h
    have hhead : normalized.head? ≠ some '/' := by
      rw [remoteForm] at hform
      split at hform
      · split at hform
        · cases hform
        · exact urlForm_head? hform
      · exact scpForm_head? hform
    dsimp only at h
    split at h
    · cases h
    · rename_i hslash
      cases h
      simp only [not_or, not_not] at hslash
      obtain ⟨hfold, hfirst, hlast, hdouble⟩ := tidy_spec fold normalized hhead
      exact ⟨hslash.1, hslash.2, hfold, segments_ne_nil hslash.1 hfirst hlast hdouble⟩

/-- What the chain yields where the server routes by identity: a folded text that is not
empty, trimmed when it was declared, and with full segments when it is a remote. -/
theorem resolve_spec {inputs : IdentityInputs} {r : RepositoryIdentity}
    (h : resolve fold inputs = some r) (hroutes : routesByIdentity r.source) :
    r.identity ≠ [] ∧ fold.toLowercase r.identity = r.identity ∧
      (r.source = .explicit ∧ trim r.identity = r.identity ∨
        r.source = .gitRemote ∧ '/' ∈ r.identity ∧
          ∀ segment ∈ r.identity.splitOn '/', segment ≠ []) := by
  have hremote : ∀ remote, ofRemote fold remote = some r → r.identity ≠ [] ∧
      fold.toLowercase r.identity = r.identity ∧
        (r.source = .explicit ∧ trim r.identity = r.identity ∨
          r.source = .gitRemote ∧ '/' ∈ r.identity ∧
            ∀ segment ∈ r.identity.splitOn '/', segment ≠ []) := by
    intro remote hr
    obtain ⟨identity, hidentity, rfl⟩ := Option.map_eq_some_iff.mp hr
    obtain ⟨raw, -, hraw⟩ := Option.bind_eq_some_iff.mp hidentity
    obtain ⟨hne, hslash, hfold, hsegments⟩ := normalizeRemoteUrl_spec hraw
    exact ⟨hne, hfold, .inr ⟨rfl, hslash, hsegments⟩⟩
  rw [resolve] at h
  rcases Option.or_eq_some_iff.mp h with h | ⟨-, h⟩
  · obtain ⟨hsource, hne, htrim, hfold⟩ := declared_spec h
    exact ⟨hne, hfold, .inl ⟨hsource, htrim⟩⟩
  rcases Option.or_eq_some_iff.mp h with h | ⟨-, h⟩
  · rw [(declared_spec h).1] at hroutes
    cases hroutes
  rcases Option.or_eq_some_iff.mp h with h | ⟨-, h⟩
  · exact hremote _ h
  rcases Option.or_eq_some_iff.mp h with h | ⟨-, h⟩
  · exact hremote _ h
  · rw [(declared_spec h).1] at hroutes
    cases hroutes

/-! ### The law -/

theorem fromStrOpt_asStr :
    fromStrOpt (trim (asStr source)) = some source := by
  cases source <;> decide

/-- An identity that the chain yields from a rung that routes by identity, with no blank at
its ends, comes back from the server as it was sent exactly when it is at most 512 bytes
long and has no control character and, as a remote, no blank; else the server ignores it. -/
theorem wire_identity_law (fold : CaseFolding) (inputs : IdentityInputs) (r : RepositoryIdentity)
    (h : resolve fold inputs = some r) (hroutes : routesByIdentity r.source = true)
    (htrim : trim r.identity = r.identity) :
    (acceptWireIdentity fold r.identity (asStr r.source) = some r ↔
      byteLen r.identity ≤ maxIdentityLen ∧ (∀ c ∈ r.identity, isControl c = false) ∧
        (r.source = .gitRemote → ∀ c ∈ r.identity, isWhitespace c = false)) ∧
    (acceptWireIdentity fold r.identity (asStr r.source) = some r ∨
      acceptWireIdentity fold r.identity (asStr r.source) = none) := by
  obtain ⟨hne, hfold, hshape⟩ := resolve_spec h hroutes
  have hcontrol : r.identity.any isControl = true ↔ ¬∀ c ∈ r.identity, isControl c = false := by
    simp [any_eq_true]
  have hblank : r.identity.any isWhitespace = true ↔
      ¬∀ c ∈ r.identity, isWhitespace c = false := by simp [any_eq_true]
  rw [acceptWireIdentity, fromStrOpt_asStr]
  simp only [Option.bind_eq_bind, Option.bind_some, hroutes, Bool.not_true, Bool.false_eq_true,
    if_false, htrim]
  split
  · rename_i hchecks
    refine ⟨iff_of_false (by simp) fun hok => ?_, .inr rfl⟩
    rcases hchecks with hnil | hlong | hcon | hcase
    · exact hne hnil
    · exact absurd hok.1 (Nat.not_le_of_lt hlong)
    · exact hcontrol.mp hcon hok.2.1
    · exact hcase hfold.symm
  · rename_i hchecks
    simp only [not_or] at hchecks
    split
    · rename_i hremote
      refine ⟨iff_of_false (by simp) fun hok => ?_, .inr rfl⟩
      rcases hshape with ⟨hexplicit, -⟩ | ⟨-, hslash, hsegments⟩
      · rw [hexplicit] at hremote
        cases hremote.1
      · rcases hremote.2 with hno | hempty | hspace
        · exact hno hslash
        · obtain ⟨segment, hmem, hnil⟩ := any_eq_true.mp hempty
          exact hsegments segment hmem (isEmpty_iff.mp hnil)
        · exact hblank.mp hspace (hok.2.2 hremote.1)
    · rename_i hremote
      refine ⟨iff_of_true rfl ⟨Nat.le_of_not_lt hchecks.2.1, not_not.mp
        (hcontrol.not.mp hchecks.2.2.1), fun hsource => ?_⟩, .inl rfl⟩
      by_contra hno
      exact hremote ⟨hsource, .inr (.inr (hblank.mpr hno))⟩

section Examples

lemma toLower_cases (c : Char) : c.toLower = c ∨
    65 ≤ c.toNat ∧ c.toNat ≤ 90 ∧ c.toLower.toNat = c.toNat + 32 := by
  rw [Char.toLower]
  split
  · rename_i h
    right
    have hlow : 65 ≤ c.toNat := UInt32.le_iff_toNat_le.mp h.1
    have hhigh : c.toNat ≤ 90 := UInt32.le_iff_toNat_le.mp h.2
    refine ⟨hlow, hhigh, ?_⟩
    show (c.val + ('a'.val - 'A'.val)).toNat = c.val.toNat + 32
    rw [UInt32.toNat_add]
    have : ('a'.val - 'A'.val).toNat = 32 := by decide
    have : c.val.toNat ≤ 90 := hhigh
    omega
  · exact .inl rfl

lemma toLower_toLower (c : Char) : c.toLower.toLower = c.toLower := by
  rcases toLower_cases c.toLower with h | ⟨hlow, hhigh, -⟩
  · exact h
  · rcases toLower_cases c with h | ⟨hc, -, h⟩
    · rw [h, h]
    · omega

def asciiFolding : CaseFolding where
  lower c := if c = 'Σ' then ['σ'] else [c.toLower]
  finalSigma _ _ := false
  nonempty c := by split <;> exact cons_ne_nil _ _
  stable c hc d hd := by
    rw [if_neg hc, mem_singleton] at hd
    subst hd
    have hsigma : c.toLower ≠ 'Σ' := by
      intro h
      rcases toLower_cases c with hsame | ⟨-, hhigh, hnat⟩
      · exact hc (hsame.symm.trans h)
      · rw [h] at hnat
        have : ('Σ' : Char).toNat = 931 := by decide
        omega
    exact ⟨hsigma, by rw [if_neg hsigma, toLower_toLower]⟩
  sigma := ⟨by decide, by decide⟩
  plain c d hd hplain := by
    split at hd
    · rw [mem_singleton.mp hd] at hplain
      exact absurd hplain (by decide)
    · rw [mem_singleton.mp hd] at hplain ⊢
      rcases toLower_cases c with hsame | ⟨hlow, hhigh, hnat⟩
      · exact hsame
      · exfalso
        rcases hplain with h | h | h
        · simp only [isWhitespace, Bool.or_eq_true, Bool.and_eq_true, decide_eq_true_eq] at h
          omega
        · simp only [isControl, Bool.or_eq_true, Bool.and_eq_true, decide_eq_true_eq] at h
          omega
        · rw [h] at hnat
          have : ('/' : Char).toNat = 47 := by decide
          omega
  slash := by decide

def fromRemote (url : String) : IdentityInputs := ⟨none, none, none, some url.toList, none⟩

def fromMarker (identity : Text) : IdentityInputs := ⟨some identity, none, none, none, none⟩

/-- A usual remote. -/
theorem wire_identity_law_remote :
    acceptWireIdentity asciiFolding "github.com/acme/api".toList "git_remote".toList =
      some ⟨"github.com/acme/api".toList, .gitRemote⟩ := by
  have hcontrol : "github.com/acme/api".toList.any isControl = false := by decide
  have hblank : "github.com/acme/api".toList.any isWhitespace = false := by decide
  refine (wire_identity_law asciiFolding (fromRemote "https://x@GitHub.com:443//Acme/API.git/")
    ⟨"github.com/acme/api".toList, .gitRemote⟩ (by decide) (by decide) (by decide)).1.mpr
    ⟨by decide, ?_, ?_⟩
  · exact fun c hc => Bool.eq_false_iff.mpr (any_eq_false.mp hcontrol c hc)
  · exact fun _ c hc => Bool.eq_false_iff.mpr (any_eq_false.mp hblank c hc)

/-- An identity that is declared with a tab, one that is too long, and a remote with a blank in
it resolve on the client, and the server ignores them. -/
theorem ignores_resolved_identity :
    resolve asciiFolding (fromMarker "team\tnotes".toList) =
        some ⟨"team\tnotes".toList, .explicit⟩ ∧
      acceptWireIdentity asciiFolding "team\tnotes".toList (asStr .explicit) = none ∧
      resolve asciiFolding (fromMarker (List.replicate 513 'a')) =
        some ⟨List.replicate 513 'a', .explicit⟩ ∧
      acceptWireIdentity asciiFolding (List.replicate 513 'a') (asStr .explicit) = none ∧
      resolve asciiFolding (fromRemote "https://host/my repo") =
        some ⟨"host/my repo".toList, .gitRemote⟩ ∧
      acceptWireIdentity asciiFolding "host/my repo".toList (asStr .gitRemote) = none := by
  decide +kernel

end Examples

end Identities
