/-
Wiki paths as the sync accepts them.

A path is validated into a portable shape before it is ever joined onto the
destination directory, and a set of paths that collide once case-folded is
refused.

* `ensureNoCaseFoldCollisions` — the loop over a set of them;
  `noCaseFoldCollisions_iff` says what it decides.
-/
import Mathlib.Data.List.Basic
import AiMemory.Lib.Text

open List

namespace Wikisync

def maxPathBytes : ℕ := 180

def maxSegmentBytes : ℕ := 64

def maxDepth : ℕ := 8

def reservedStems : List String :=
  ["CON", "PRN", "AUX", "NUL", "COM1", "COM2", "COM3", "COM4", "COM5", "COM6", "COM7", "COM8",
    "COM9", "LPT1", "LPT2", "LPT3", "LPT4", "LPT5", "LPT6", "LPT7", "LPT8", "LPT9"]

def split (c : Char) : Text → List Text
  | [] => [[]]
  | d :: ds =>
    if d = c then [] :: split c ds
    else match split c ds with
      | [] => [[d]]
      | part :: parts => (d :: part) :: parts

variable (path : String)

def segments : List Text := split '/' path.toList

def isReservedStem (segment : Text) : Bool :=
  reservedStems.contains (String.ofList (((split '.' segment).headD []).map Char.toUpper))

/-- One portable path segment: ASCII letters, digits, dot, dash, underscore; no
leading and no trailing dot, no device name. -/
def validSegment (segment : Text) : Bool :=
  !segment.isEmpty && decide (segment.length ≤ maxSegmentBytes) &&
    segment.all (fun c => c.isAlphanum || c == '.' || c == '-' || c == '_') &&
    segment.head? != some '.' && segment.getLast? != some '.' && !isReservedStem segment

/-- A family is a single top-level directory name; a wildcard is no such name. -/
def validFamily (raw : String) : Bool := validSegment raw.toList

def familyOf : String := String.ofList ((segments path).headD [])

def validatePagePath (raw : String) : Bool :=
  raw != "" && decide (raw.utf8ByteSize ≤ maxPathBytes) && raw.toList.head? != some '/' &&
    raw.toList.all (fun c => decide (c.toNat < 128) && c != '\\' && c.toNat != 0) &&
    decide ((segments raw).length ≤ maxDepth) && (segments raw).all validSegment &&
    List.isSuffixOf ".md".toList ((segments raw).getLastD [])

/-- `path` is strictly below the directory `dir`. -/
def inside (dir path : String) : Bool := (dir.toList ++ ['/']).isPrefixOf path.toList

def hidden : Bool := (segments path).tail.any fun s => s.head? == some '.'

lemma split_getLastD (c : Char) (l : Text) :
    (∃ part parts, split c l = part :: parts ∧ (parts = [] → part = l)) ∧
      (split c l).getLastD [] <:+ l := by
  induction l with
  | nil => exact ⟨⟨[], [], rfl, fun _ => rfl⟩, suffix_refl []⟩
  | cons d ds ih =>
    obtain ⟨⟨part, parts, hparts, hone⟩, hlast⟩ := ih
    rw [split, hparts]
    rw [hparts] at hlast
    by_cases hd : d = c
    · refine ⟨⟨[], part :: parts, by simp [hd], fun h => by simp at h⟩, ?_⟩
      have hsame : ([] :: part :: parts).getLastD [] = (part :: parts).getLastD [] := by simp
      rw [if_pos hd, hsame]
      exact hlast.trans (suffix_cons d ds)
    · rw [if_neg hd]
      refine ⟨⟨d :: part, parts, rfl, fun h => by rw [hone h]⟩, ?_⟩
      cases parts with
      | nil =>
        rw [hone rfl]
        exact suffix_refl _
      | cons next rest =>
        have hsame : ((d :: part) :: next :: rest).getLastD []
            = (part :: next :: rest).getLastD [] := by simp
        rw [hsame]
        exact hlast.trans (suffix_cons d ds)

lemma hidden_of_valid {p : String} (h : validatePagePath p) : hidden p = false := by
  have hsegments : (segments p).all validSegment := by
    rw [validatePagePath, Bool.and_eq_true, Bool.and_eq_true] at h
    exact h.1.2
  rw [hidden, any_eq_false]
  intro s hs hdot
  have hvalid := all_eq_true.mp hsegments s (mem_of_mem_tail hs)
  simp only [validSegment, Bool.and_eq_true] at hvalid
  rw [beq_iff_eq] at hdot
  simp [hdot] at hvalid

def caseFold : String := String.ofList (path.toList.map Char.toLower)

/-- Whether no path of the list meets another one of the same case-folded name,
among those seen before it or in the list. -/
def noCaseFoldCollisions : List (String × String) → List String → Bool
  | _, [] => true
  | seen, path :: paths =>
    match seen.lookup (caseFold path) with
    | some first => first == path && noCaseFoldCollisions seen paths
    | none => noCaseFoldCollisions ((caseFold path, path) :: seen) paths

lemma noCaseFoldCollisions_seen {seen : List (String × String)} {paths : List String}
    (hseen : ∀ f p, seen.lookup f = some p → caseFold p = f) :
    noCaseFoldCollisions seen paths ↔
      (∀ p ∈ paths, ∀ q, seen.lookup (caseFold p) = some q → q = p) ∧
        ∀ p ∈ paths, ∀ q ∈ paths, caseFold p = caseFold q → p = q := by
  induction paths generalizing seen with
  | nil => simp [noCaseFoldCollisions]
  | cons path paths ih =>
    rw [noCaseFoldCollisions]
    cases hfirst : seen.lookup (caseFold path) with
    | some first =>
      rw [Bool.and_eq_true, beq_iff_eq, ih hseen]
      constructor
      · rintro ⟨rfl, hold, hnew⟩
        -- a later path of the same name meets `first` among the seen ones
        have hpath : ∀ q ∈ paths, caseFold first = caseFold q → first = q := by
          intro q hq hfold
          exact hold q hq first (hfold ▸ hfirst)
        refine ⟨?_, ?_⟩
        · intro p hp q hq
          rcases mem_cons.mp hp with rfl | hp
          · exact Option.some_inj.mp (hq.symm.trans hfirst)
          · exact hold p hp q hq
        · intro p hp q hq hfold
          rcases mem_cons.mp hp with rfl | hp'
          · rcases mem_cons.mp hq with rfl | hq
            · rfl
            · exact hpath q hq hfold
          · rcases mem_cons.mp hq with rfl | hq
            · exact (hpath p hp' hfold.symm).symm
            · exact hnew p hp' q hq hfold
      · rintro ⟨hold, hnew⟩
        refine ⟨hold path mem_cons_self first hfirst, fun p hp => ?_, fun p hp q hq => ?_⟩
        · exact hold p (mem_cons_of_mem path hp)
        · exact hnew p (mem_cons_of_mem path hp) q (mem_cons_of_mem path hq)
    | none =>
      have hseen' : ∀ f p, ((caseFold path, path) :: seen).lookup f = some p → caseFold p = f := by
        intro f p h
        rw [lookup_cons] at h
        by_cases hf : f = caseFold path
        · rw [hf, beq_self_eq_true] at h
          rw [hf, ← Option.some_inj.mp h]
        · rw [beq_false_of_ne hf] at h
          exact hseen f p h
      have hlookup : ∀ p q, ((caseFold path, path) :: seen).lookup (caseFold p) = some q ↔
          caseFold p = caseFold path ∧ q = path ∨ seen.lookup (caseFold p) = some q := by
        intro p q
        rw [lookup_cons]
        by_cases hf : caseFold p = caseFold path
        · simp [hf, hfirst, eq_comm]
        · simp [hf, beq_false_of_ne hf]
      rw [ih hseen']
      constructor
      · rintro ⟨hold, hnew⟩
        have hpath : ∀ q ∈ paths, caseFold q = caseFold path → path = q := by
          intro q hq hfold
          exact hold q hq path ((hlookup q path).mpr (.inl ⟨hfold, rfl⟩))
        refine ⟨?_, ?_⟩
        · intro p hp q hq
          rcases mem_cons.mp hp with rfl | hp
          · rw [hfirst] at hq
            cases hq
          · exact hold p hp q ((hlookup p q).mpr (.inr hq))
        · intro p hp q hq hfold
          rcases mem_cons.mp hp with rfl | hp'
          · rcases mem_cons.mp hq with rfl | hq
            · rfl
            · exact hpath q hq hfold.symm
          · rcases mem_cons.mp hq with rfl | hq
            · exact (hpath p hp' hfold).symm
            · exact hnew p hp' q hq hfold
      · rintro ⟨hold, hnew⟩
        refine ⟨fun p hp q hq => ?_, fun p hp q hq => ?_⟩
        · rcases (hlookup p q).mp hq with ⟨hfold, rfl⟩ | hq
          · exact hnew q mem_cons_self p (mem_cons_of_mem _ hp) hfold.symm
          · exact hold p (mem_cons_of_mem path hp) q hq
        · exact hnew p (mem_cons_of_mem path hp) q (mem_cons_of_mem path hq)

lemma noCaseFoldCollisions_iff {paths : List String} : noCaseFoldCollisions [] paths ↔
    ∀ p ∈ paths, ∀ q ∈ paths, caseFold p = caseFold q → p = q := by
  rw [noCaseFoldCollisions_seen (by simp)]
  simp

lemma noCaseFoldCollisions_subset {paths paths' : List String}
    (h : noCaseFoldCollisions [] paths) (hsub : paths' ⊆ paths) :
    noCaseFoldCollisions [] paths' := by
  rw [noCaseFoldCollisions_iff] at h ⊢
  exact fun p hp q hq => h p (hsub hp) q (hsub hq)

example : validatePagePath "decisions/0007-db.md" = true ∧
    validatePagePath "notes/../../escape.md" = false ∧
    validatePagePath "notes/com2.lower.md" = false := by decide

end Wikisync
