/-
Ordinary links of a line in which some links are replaced.

The scan for `[label](destination)` keeps the labels that stand open.  It goes in step over the
line and over the other one when a destination behind a `]` is met in both, for the same page,
or in neither.

* `InStep.labelLinks_eq` — the ordinary links of the line are then those of the other one.
-/
import AiMemory.Wiki.LinkScan

open Strings List

namespace Wiki

open Store

/-! ### The scan -/

/-- The open labels, each with whether it is an image's, and whether a `!` stands right before. -/
abbrev Reading := List Bool × Bool

def labelLinks (page : PagePath) (reading : Reading) (rest : Text) : List LinkKey :=
  extractMarkdownLinksFor page rest.length reading.1 reading.2 rest

variable {page : PagePath} {labels : List Bool} {bang : Bool} {s t : Text}

lemma extractMarkdownLinksFor_fuel {fuel fuel' : ℕ} {rest : Text}
    (h : rest.length ≤ fuel) (h' : rest.length ≤ fuel') :
    extractMarkdownLinksFor page fuel labels bang rest =
      extractMarkdownLinksFor page fuel' labels bang rest := by
  induction fuel generalizing fuel' labels bang rest with
  | zero =>
    obtain rfl := length_eq_zero_iff.mp (Nat.le_zero.mp h)
    cases fuel' <;> rfl
  | succ fuel ih =>
    cases rest with
    | nil => cases fuel' <;> rfl
    | cons c rest =>
      cases fuel' with
      | zero => cases h'
      | succ fuel' =>
        rw [length_cons, Nat.succ_le_succ_iff] at h h'
        have hdrop : ∀ n labels bang, extractMarkdownLinksFor page fuel labels bang (rest.drop n) =
            extractMarkdownLinksFor page fuel' labels bang (rest.drop n) := fun n labels bang =>
          ih (by rw [length_drop]; omega) (by rw [length_drop]; omega)
        have hrest : ∀ labels bang, extractMarkdownLinksFor page fuel labels bang rest =
            extractMarkdownLinksFor page fuel' labels bang rest := fun labels bang => ih h h'
        simp only [extractMarkdownLinksFor, hdrop, hrest]

variable (rest : Text)

lemma labelLinks_escape :
    labelLinks page (labels, bang) ('\\' :: rest) = labelLinks page (labels, false) (rest.drop 1) := by
  have hstep : labelLinks page (labels, bang) ('\\' :: rest) =
      extractMarkdownLinksFor page rest.length labels false (rest.drop 1) := rfl
  rw [hstep]
  exact extractMarkdownLinksFor_fuel (by rw [length_drop]; omega) le_rfl

lemma labelLinks_open : labelLinks page (labels, bang) ('[' :: rest) =
    labelLinks page (bang :: labels, false) rest := rfl

/-- The destination behind a label's `]`. -/
def destinationOf : Option (Text × ℕ) :=
  if rest.head? = some '(' then parseLinkDestination (rest.drop 1) else none

/-- The reading behind the destination of a label. -/
def behindLabel (image : Bool) (labels : List Bool) : Reading :=
  (if image then labels else [], false)

def pageLink (page : PagePath) (raw : Text) : Option LinkKey :=
  (normalizeLinkTarget raw page false).map fun path => ⟨none, none, path⟩

lemma labelLinks_bracket (image : Bool) (rest : Text) :
    labelLinks page (image :: labels, bang) (']' :: rest) = (destinationOf rest).elim
      (labelLinks page (labels, false) rest) fun d =>
        if image then extractMarkdownLinksFor page rest.length labels false (rest.drop (d.2 + 2))
        else (pageLink page d.1).toList ++
          extractMarkdownLinksFor page rest.length [] false (rest.drop (d.2 + 2)) := by
  show extractMarkdownLinksFor page (rest.length + 1) (image :: labels) bang (']' :: rest) = _
  rw [extractMarkdownLinksFor, if_neg (by decide), if_neg (by decide), if_pos rfl, destinationOf]
  dsimp only
  generalize (if rest.head? = some '(' then parseLinkDestination (rest.drop 1) else none) = found
  cases found <;> rfl

lemma labelLinks_label {image : Bool} {rest raw : Text} {close : ℕ}
    (h : destinationOf rest = some (raw, close)) :
    labelLinks page (image :: labels, bang) (']' :: rest) =
      (if image then [] else (pageLink page raw).toList) ++
        labelLinks page (behindLabel image labels) (rest.drop (close + 2)) := by
  have hfuel : ∀ labels n, labelLinks page (labels, false) (rest.drop n) =
      extractMarkdownLinksFor page rest.length labels false (rest.drop n) := fun labels n =>
    extractMarkdownLinksFor_fuel le_rfl (by rw [length_drop]; omega)
  rw [labelLinks_bracket, h, Option.elim_some, behindLabel, hfuel]
  cases image <;> rfl

lemma labelLinks_close {rest : Text} (h : destinationOf rest = none) :
    labelLinks page (labels, bang) (']' :: rest) = labelLinks page (labels.tail, false) rest := by
  cases labels with
  | nil => rfl
  | cons image labels => rw [labelLinks_bracket, h, Option.elim_none, tail_cons]

lemma labelLinks_other {c : Char} (h₁ : c ≠ '\\') (h₂ : c ≠ '[') (h₃ : c ≠ ']')
    (rest : Text) : labelLinks page (labels, bang) (c :: rest) =
      labelLinks page (labels, decide (c = '!')) rest := by
  show extractMarkdownLinksFor page (rest.length + 1) labels bang (c :: rest) = _
  simp only [extractMarkdownLinksFor, if_neg h₁, if_neg h₂, if_neg h₃]
  rfl

/-- Without a `](`, a text has no ordinary link. -/
theorem extractMarkdownLinksFor_eq_nil {fuel : ℕ} (h : ¬ [']', '('] <:+: s) :
    extractMarkdownLinksFor page fuel labels bang s = [] := by
  induction fuel generalizing labels bang s with
  | zero => rfl
  | succ fuel ih =>
    cases s with
    | nil => rfl
    | cons c s =>
      have hrest : ¬ [']', '('] <:+: s := fun hmem => h (hmem.trans (suffix_cons c s).isInfix)
      have hdrop : ¬ [']', '('] <:+: s.drop 1 := fun hmem =>
        hrest (hmem.trans (drop_suffix 1 s).isInfix)
      simp only [extractMarkdownLinksFor, ih hdrop, ih hrest]
      split
      · rfl
      · split
        · rfl
        · split
          · rename_i hclose
            have hopen : s.head? ≠ some '(' := fun hhead => by
              obtain ⟨tail, rfl⟩ := head?_eq_some_iff.mp hhead
              exact h ⟨[], tail, by rw [hclose]; rfl⟩
            rw [if_neg hopen]
            cases labels <;> rfl
          · rfl

/-! ### In step -/

/-- Whatever follows, the scan finds no link in this text. -/
inductive Walks (page : PagePath) : Text → Reading → Reading → Prop
  | nil {reading : Reading} : Walks page [] reading reading
  | escape {labels : List Bool} {bang : Bool} {c : Char} {s : Text} {reading : Reading} :
      Walks page s (labels, false) reading → Walks page ('\\' :: c :: s) (labels, bang) reading
  | opened {labels : List Bool} {bang : Bool} {s : Text} {reading : Reading} :
      Walks page s (bang :: labels, false) reading → Walks page ('[' :: s) (labels, bang) reading
  | stray {bang : Bool} {s : Text} {reading : Reading} :
      Walks page s ([], false) reading → Walks page (']' :: s) ([], bang) reading
  | closed {labels : List Bool} {bang : Bool} {s : Text} {reading : Reading} :
      s.head? ≠ some '(' → Walks page s (labels.tail, false) reading →
      Walks page (']' :: s) (labels, bang) reading
  -- the destination of an image, or of no page
  | skipped {image : Bool} {labels : List Bool} {bang : Bool} {destination raw s : Text}
      {close : ℕ} {reading : Reading} :
      (∀ t, destinationOf (destination ++ t) = some (raw, close)) →
      destination.length = close + 2 → (image = true ∨ pageLink page raw = none) →
      Walks page s (behindLabel image labels) reading →
      Walks page (']' :: (destination ++ s)) (image :: labels, bang) reading
  | other {labels : List Bool} {bang : Bool} {c : Char} {s : Text} {reading : Reading} :
      c ≠ '\\' → c ≠ '[' → c ≠ ']' → Walks page s (labels, decide (c = '!')) reading →
      Walks page (c :: s) (labels, bang) reading

lemma labelLinks_walk {reading reading' : Reading} (h : Walks page s reading reading')
    (ht : t.head? ≠ some '(') :
    labelLinks page reading (s ++ t) = labelLinks page reading' t := by
  induction h with
  | nil => rfl
  | escape _ ih => exact (labelLinks_escape _).trans ih
  | opened _ ih => exact (labelLinks_open _).trans ih
  | stray _ ih => exact ih
  | @closed labels bang s reading hs _ ih =>
    have hnone : destinationOf (s ++ t) = none := by
      rw [destinationOf, if_neg]
      cases s with
      | nil => exact ht
      | cons c s => exact hs
    exact (labelLinks_close hnone).trans ih
  | skipped hdestination hlen hnone _ ih =>
    rw [cons_append, append_assoc, labelLinks_label (hdestination _), ← hlen, drop_left' rfl, ih]
    rcases hnone with rfl | hnone
    · rfl
    · rw [hnone, Option.toList_none, ite_self, nil_append]
  | other h₁ h₂ h₃ _ ih => exact (labelLinks_other h₁ h₂ h₃ _).trans ih

/-- The scan goes over a line with its links, and over the line with what is written for
them: the first reading is that of the line, the second that of the other one. -/
inductive InStep (page : PagePath) : Reading → Reading → List Chunk → Prop
  | clear {reading reading' : Reading} {chunks : List Chunk} :
      ¬ [']', '('] <:+: chunks.flatMap Chunk.old → ¬ [']', '('] <:+: chunks.flatMap Chunk.new →
      InStep page reading reading' chunks
  | walk {reading₁ reading₂ reading₁' reading₂' : Reading} {front rest : List Chunk} :
      Walks page (front.flatMap Chunk.old) reading₁ reading₂ →
      Walks page (front.flatMap Chunk.new) reading₁' reading₂' →
      (rest.flatMap Chunk.old).head? ≠ some '(' → (rest.flatMap Chunk.new).head? ≠ some '(' →
      InStep page reading₂ reading₂' rest → InStep page reading₁ reading₁' (front ++ rest)
  | close {labels labels' : List Bool} {bang bang' : Bool} {rest : List Chunk} :
      destinationOf (rest.flatMap Chunk.old) = none →
      destinationOf (rest.flatMap Chunk.new) = none →
      InStep page (labels.tail, false) (labels'.tail, false) rest →
      InStep page (labels, bang) (labels', bang') (.char ']' :: rest)
  | link {image : Bool} {labels labels' : List Bool} {bang bang' : Bool} {raw raw' : Text}
      {close close' : ℕ} {front rest : List Chunk} :
      destinationOf ((front ++ rest).flatMap Chunk.old) = some (raw, close) →
      destinationOf ((front ++ rest).flatMap Chunk.new) = some (raw', close') →
      (front.flatMap Chunk.old).length = close + 2 →
      (front.flatMap Chunk.new).length = close' + 2 →
      (image = true ∨ pageLink page raw = pageLink page raw') →
      InStep page (behindLabel image labels) (behindLabel image labels') rest →
      InStep page (image :: labels, bang) (image :: labels', bang') (.char ']' :: (front ++ rest))

lemma InStep.labelLinks_eq {reading reading' : Reading} {chunks : List Chunk}
    (h : InStep page reading reading' chunks) :
    labelLinks page reading' (chunks.flatMap Chunk.new) =
      labelLinks page reading (chunks.flatMap Chunk.old) := by
  induction h with
  | clear hold hnew =>
    rw [labelLinks, labelLinks, extractMarkdownLinksFor_eq_nil hold,
      extractMarkdownLinksFor_eq_nil hnew]
  | walk hold hnew hopen hopen' _ ih =>
    rw [flatMap_append, flatMap_append, labelLinks_walk hold hopen, labelLinks_walk hnew hopen', ih]
  | close hold hnew _ ih =>
    exact (labelLinks_close hnew).trans (ih.trans (labelLinks_close hold).symm)
  | link hold hnew hlen hlen' hpage _ ih =>
    rw [flatMap_cons, flatMap_cons, Chunk.old, Chunk.new, singleton_append, singleton_append,
      labelLinks_label hold, labelLinks_label hnew, flatMap_append, flatMap_append, ← hlen, ← hlen',
      drop_left' rfl, drop_left' rfl, ih]
    rcases hpage with rfl | hpage
    · rfl
    · rw [hpage]

end Wiki
