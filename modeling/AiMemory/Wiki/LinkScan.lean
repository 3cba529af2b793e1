/-
The links that a scan of a text finds.

The extraction scans a whole line, with blanks for its code; the rewriting scans the text
between two code spans.  They keep step when the scan of the line meets each link that is
replaced, which it does not when such a link stands in another one around some code.

* `Meets.scan_old`, `Meets.scan_new` — the links before, and behind the replacement.
-/
import AiMemory.Wiki.RewrittenLines

open Strings List

namespace Wiki

open Store

inductive Scan : Text → List Text → Prop
  | clear {s : Text} : NoDouble '[' s → Scan s []
  | unclosed {before behind : Text} : NoDouble '[' (before ++ ['[']) →
      NoDouble ']' behind → Scan (before ++ '[' :: '[' :: behind) []
  | link {before raw after : Text} {raws : List Text} :
      NoDouble '[' (before ++ ['[']) → NoDouble ']' (raw ++ [']']) → Scan after raws →
      Scan (before ++ '[' :: '[' :: (raw ++ ']' :: ']' :: after)) (raw :: raws)

def rawLinksFor : ℕ → Text → List Text
  | 0, _ => []
  | fuel + 1, rest =>
    match splitOnce ['[', '['] rest with
    | none => []
    | some (_, behind) =>
      match splitOnce [']', ']'] behind with
      | none => []
      | some (raw, after) => raw :: rawLinksFor fuel after

def rawLinks (s : Text) : List Text := rawLinksFor s.length s

variable {s t : Text} {raws : List Text}

lemma rawLinksFor_scan (h : Scan s raws) {fuel : ℕ} (hfuel : s.length ≤ fuel) :
    rawLinksFor fuel s = raws := by
  induction h generalizing fuel with
  | clear hclear =>
    cases fuel with
    | zero => rfl
    | succ fuel => rw [rawLinksFor, splitOnce_pair_eq_none.mpr hclear]
  | unclosed hbefore hbehind =>
    cases fuel with
    | zero => rfl
    | succ fuel =>
      rw [rawLinksFor, splitOnce_pair_eq_some.mpr ⟨rfl, hbefore⟩]
      simp only [splitOnce_pair_eq_none.mpr hbehind]
  | link hbefore hraw _ ih =>
    cases fuel with
    | zero => simp at hfuel
    | succ fuel =>
      rw [rawLinksFor, splitOnce_pair_eq_some.mpr ⟨rfl, hbefore⟩]
      simp only [splitOnce_pair_eq_some.mpr ⟨rfl, hraw⟩]
      rw [ih (by simp at hfuel; omega)]

lemma rawLinks_scan (h : Scan s raws) : rawLinks s = raws := rawLinksFor_scan h le_rfl

/-- The links in the text between two code spans. -/
def textLinks (line : Text) : List Text :=
  (codePieces line).flatMap fun piece => match piece with
    | .text chars => rawLinks chars
    | .code _ => []

/-- The asked links that the extraction finds in a line are those that it finds in the text
between two code spans: none has code inside. -/
def Seen (asked : Text → Bool) (line : Text) : Prop :=
  (rawLinks (blankInlineCode line)).filter asked = (textLinks line).filter asked

instance (asked : Text → Bool) (line : Text) : Decidable (Seen asked line) :=
  inferInstanceAs (Decidable (_ = _))

lemma extractWikilinks_eq (U : CharTables) (page : PagePath) (s : Text) :
    extractWikilinks U page s = (rawLinks s).flatMap fun raw => (wikilinkKey U page raw).toList := by
  rw [extractWikilinks, rawLinks]
  generalize s.length = fuel
  induction fuel generalizing s with
  | zero => rfl
  | succ fuel ih =>
    rw [extractWikilinksFor, rawLinksFor]
    cases splitOnce ['[', '['] s with
    | none => rfl
    | some parts =>
      dsimp only
      cases splitOnce [']', ']'] parts.2 with
      | none => rfl
      | some parts =>
        dsimp only
        rw [ih, flatMap_cons]

lemma Scan.prepend (hs : NoDouble '[' s) (h : Scan t raws)
    (hjoin : ¬(s.getLast? = some '[' ∧ t.head? = some '[')) : Scan (s ++ t) raws := by
  have hbefore : ∀ {before rest : Text}, ¬(s.getLast? = some '[' ∧
      (before ++ '[' :: rest).head? = some '[') → NoDouble '[' (before ++ ['[']) →
      NoDouble '[' (s ++ before ++ ['[']) := by
    intro before rest hjoin hno
    rw [append_assoc, noDouble_append]
    refine ⟨hs, hno, ?_⟩
    cases before with
    | nil | cons c before => exact hjoin
  cases h with
  | clear ht => exact .clear (noDouble_append.mpr ⟨hs, ht, hjoin⟩)
  | unclosed ht hbehind =>
    rw [← append_assoc]
    exact .unclosed (hbefore hjoin ht) hbehind
  | link ht hraw hscan =>
    rw [← append_assoc]
    exact .link (hbefore hjoin ht) hraw hscan

lemma Scan.noDouble (h : Scan s raws) (hs : NoDouble ']' s) : raws = [] := by
  cases h with
  | clear _ | unclosed _ _ => rfl
  | link _ _ _ =>
    have hend := (noDouble_append.mp (noDouble_cons.mp (noDouble_cons.mp
      (noDouble_append.mp hs).2.1).2).2).2.1
    exact absurd ⟨rfl, rfl⟩ (noDouble_cons.mp hend).1

lemma scan_unclosed (hs : NoDouble ']' s) : Scan s [] := by
  cases hopen : splitOnce ['[', '['] s with
  | none => exact .clear (splitOnce_pair_eq_none.mp hopen)
  | some parts =>
    obtain ⟨rfl, hbefore⟩ := splitOnce_pair_eq_some.mp hopen
    exact .unclosed hbefore
      (noDouble_cons.mp (noDouble_cons.mp (noDouble_append.mp hs).2.1).2).2

/-! ### Chunks -/

/-- A link that the scan of a line meets: one that stays, or one that is replaced, by another
link or by its text. -/
inductive Met
  | kept (raw : Text)
  | replaced (raw : Text) (new : Option Text)

def Met.old : Met → Text
  | .kept raw => raw
  | .replaced raw _ => raw

def Met.new : Met → Option Text
  | .kept raw => some raw
  | .replaced _ new => new

def Met.raw : Met → Option Text
  | .kept _ => none
  | .replaced raw _ => some raw

/-- What the scan of a line meets, when it meets every link that is replaced, and the line
with the replacements is scanned in step with it. -/
inductive Meets : List Chunk → List Met → Prop
  | clear {s : Text} : NoDouble '[' s → Meets (s.map .char) []
  | unclosed {before behind : Text} : NoDouble '[' (before ++ ['[']) →
      NoDouble ']' behind → Meets ((before ++ '[' :: '[' :: behind).map .char) []
  | kept {before raw : Text} {rest : List Chunk} {mets : List Met} :
      NoDouble '[' (before ++ ['[']) → NoDouble ']' (raw ++ [']']) → Meets rest mets →
      Meets ((before ++ bracketed raw).map .char ++ rest) (.kept raw :: mets)
  | removed {before raw text : Text} {rest : List Chunk} {mets : List Met} :
      NoDouble '[' (before ++ ['[']) → NoDouble ']' (raw ++ [']']) → NoDouble '[' text →
      (text.getLast? = some '[' → (rest.flatMap Chunk.old).head? ≠ some '[') → Meets rest mets →
      Meets (before.map .char ++ .link raw text :: rest) (.replaced raw none :: mets)
  -- the text may hold `[[` when nothing behind it closes a link
  | opened {before raw text : Text} {rest : List Chunk} {mets : List Met} :
      NoDouble '[' (before ++ ['[']) → NoDouble ']' (raw ++ [']']) →
      NoDouble ']' (text ++ rest.flatMap Chunk.new) → Meets rest mets →
      Meets (before.map .char ++ .link raw text :: rest) (.replaced raw none :: mets)
  | moved {before raw raw' : Text} {rest : List Chunk} {mets : List Met} :
      NoDouble '[' (before ++ ['[']) → NoDouble ']' (raw ++ [']']) →
      NoDouble ']' (raw' ++ [']']) → Meets rest mets →
      Meets (before.map .char ++ .link raw (bracketed raw') :: rest) (.replaced raw (some raw') :: mets)

variable {chunks : List Chunk} {mets : List Met}

lemma scan_bracketed {before raw after : Text} (hbefore : NoDouble '[' (before ++ ['[']))
    (hraw : NoDouble ']' (raw ++ [']'])) (h : Scan after raws) :
    Scan (before ++ bracketed raw ++ after) (raw :: raws) := by
  have hword : before ++ bracketed raw ++ after =
      before ++ '[' :: '[' :: (raw ++ ']' :: ']' :: after) := by simp [bracketed]
  rw [hword]
  exact .link hbefore hraw h

lemma Meets.scan_old (h : Meets chunks mets) :
    Scan (chunks.flatMap Chunk.old) (mets.map Met.old) := by
  induction h with
  | clear hs =>
    rw [flatMap_old_chars]
    exact .clear hs
  | unclosed hbefore hbehind =>
    rw [flatMap_old_chars]
    exact .unclosed hbefore hbehind
  | kept hbefore hraw _ ih =>
    rw [flatMap_append, flatMap_old_chars]
    exact scan_bracketed hbefore hraw ih
  | removed hbefore hraw _ _ _ ih | opened hbefore hraw _ _ ih | moved hbefore hraw _ _ ih =>
    rw [flatMap_append, flatMap_old_chars, flatMap_cons, ← append_assoc]
    exact scan_bracketed hbefore hraw ih

lemma Meets.head?_new (h : Meets chunks mets)
    (hhead : (chunks.flatMap Chunk.old).head? ≠ some '[') :
    (chunks.flatMap Chunk.new).head? = (chunks.flatMap Chunk.old).head? := by
  have hchars : ∀ (c : Char) (s : Text) (rest : List Chunk),
      (((c :: s).map Chunk.char ++ rest).flatMap Chunk.new).head? =
        (((c :: s).map Chunk.char ++ rest).flatMap Chunk.old).head? := fun c s rest => rfl
  cases h with
  | clear _ | unclosed _ _ => rw [flatMap_new_chars, flatMap_old_chars]
  | @kept before raw rest mets _ _ _ =>
    cases before with
    | nil => exact hchars _ _ rest
    | cons c before => exact hchars c _ rest
  | @removed before raw text rest mets _ _ _ _ _ | @opened before raw text rest mets _ _ _ _
  | @moved before raw raw' rest mets _ _ _ _ =>
    cases before with
    | nil => exact absurd rfl hhead
    | cons c before => exact hchars c _ _

lemma Meets.scan_new (h : Meets chunks mets) :
    Scan (chunks.flatMap Chunk.new) (mets.filterMap Met.new) := by
  induction h with
  | clear hs =>
    rw [flatMap_new_chars]
    exact .clear hs
  | unclosed hbefore hbehind =>
    rw [flatMap_new_chars]
    exact .unclosed hbefore hbehind
  | kept hbefore hraw _ ih =>
    rw [flatMap_append, flatMap_new_chars]
    exact scan_bracketed hbefore hraw ih
  | @removed before raw text rest mets hbefore hraw htext hjoin hrest ih =>
    rw [flatMap_append, flatMap_new_chars, flatMap_cons, ← append_assoc]
    obtain ⟨hfront, -, hlast⟩ := noDouble_append.mp hbefore
    refine .prepend (noDouble_append.mpr ⟨hfront, htext, fun h => hlast ⟨h.1, rfl⟩⟩) ih ?_
    rintro ⟨hend, hhead⟩
    simp only [Chunk.new] at hend
    cases text with
    | nil => exact hlast ⟨by rwa [append_nil] at hend, rfl⟩
    | cons c text =>
      rw [getLast?_append_of_ne_nil _ (cons_ne_nil c text)] at hend
      have hold := hjoin hend
      rw [hrest.head?_new hold] at hhead
      exact hold hhead
  | @opened before raw text rest mets hbefore hraw htext hrest ih =>
    obtain ⟨hfront, -, hlast⟩ := noDouble_append.mp hbefore
    rw [flatMap_append, flatMap_new_chars, flatMap_cons, filterMap_cons_none rfl,
      ih.noDouble (noDouble_append.mp htext).2.1]
    exact .prepend hfront (scan_unclosed htext) fun h => hlast ⟨h.1, rfl⟩
  | moved hbefore _ hraw' _ ih =>
    rw [flatMap_append, flatMap_new_chars, flatMap_cons, ← append_assoc]
    exact scan_bracketed hbefore hraw' ih

lemma Meets.replaced (h : Meets chunks mets) :
    chunks.filterMap Chunk.raw = mets.filterMap Met.raw := by
  induction h with
  | clear _ | unclosed _ _ => exact raws_chars _
  | kept _ _ _ ih =>
    rw [filterMap_append, raws_chars, ih, filterMap_cons_none rfl, nil_append]
  | removed _ _ _ _ _ ih | opened _ _ _ _ ih | moved _ _ _ _ ih =>
    rw [filterMap_append, raws_chars, nil_append]
    exact congrArg (_ :: ·) ih

lemma not_noDouble_bracketed (raw : Text) :
    ¬ NoDouble '[' (bracketed raw) ∧ ¬ NoDouble ']' (bracketed raw) := by
  constructor
  · exact fun hno => (noDouble_cons.mp hno).1 ⟨rfl, rfl⟩
  · intro hno
    have hend := (noDouble_append.mp (noDouble_cons.mp (noDouble_cons.mp hno).2).2).2.1
    exact (noDouble_cons.mp hend).1 ⟨rfl, rfl⟩

lemma bracketed_inj {raw raw' : Text} (h : bracketed raw = bracketed raw') : raw = raw' := by
  simpa [bracketed] using h

lemma Meets.replaced_mem (h : Meets chunks mets) {raw : Text} {new : Option Text}
    (hmem : .replaced raw new ∈ mets) : ∃ text, .link raw text ∈ chunks ∧
      ∀ raw', text = bracketed raw' ↔ new = some raw' := by
  induction h with
  | clear _ | unclosed _ _ => cases hmem
  | kept _ _ _ ih =>
    obtain ⟨text, htext, hnew⟩ := ih ((mem_cons.mp hmem).resolve_left (by simp))
    exact ⟨text, mem_append_right _ htext, hnew⟩
  | removed _ _ htext _ _ ih =>
    rcases mem_cons.mp hmem with heq | hmem
    · cases heq
      refine ⟨_, mem_append_right _ mem_cons_self, fun raw' => iff_of_false ?_ (by simp)⟩
      rintro rfl
      exact (not_noDouble_bracketed raw').1 htext
    · obtain ⟨text, htext, hnew⟩ := ih hmem
      exact ⟨text, mem_append_right _ (mem_cons_of_mem _ htext), hnew⟩
  | opened _ _ htext _ ih =>
    rcases mem_cons.mp hmem with heq | hmem
    · cases heq
      refine ⟨_, mem_append_right _ mem_cons_self, fun raw' => iff_of_false ?_ (by simp)⟩
      rintro rfl
      exact (not_noDouble_bracketed raw').2 (noDouble_append.mp htext).1
    · obtain ⟨text, htext, hnew⟩ := ih hmem
      exact ⟨text, mem_append_right _ (mem_cons_of_mem _ htext), hnew⟩
  | moved _ _ _ _ ih =>
    rcases mem_cons.mp hmem with heq | hmem
    · cases heq
      refine ⟨_, mem_append_right _ mem_cons_self, fun raw' => ?_⟩
      exact ⟨fun heq => congrArg some (bracketed_inj heq), fun heq => by cases heq; rfl⟩
    · obtain ⟨text, htext, hnew⟩ := ih hmem
      exact ⟨text, mem_append_right _ (mem_cons_of_mem _ htext), hnew⟩

/-! ### Seen links -/

variable {out : Text → Text} {K : Cutting out} {line : Text}

lemma raws_segmentChunksFor (fuel : ℕ) (s : Text) :
    (segmentChunksFor K fuel s).filterMap Chunk.raw = (rawLinksFor fuel s).filter K.asked := by
  induction fuel generalizing s with
  | zero => exact raws_chars s
  | succ fuel ih =>
    rw [segmentChunksFor, rawLinksFor]
    cases splitOnce ['[', '['] s with
    | none => exact raws_chars s
    | some parts =>
      dsimp only
      cases splitOnce [']', ']'] parts.2 with
      | none => exact raws_chars s
      | some parts' =>
        dsimp only
        rw [filterMap_append, filterMap_append, raws_chars, ih, nil_append, Cutting.cut]
        cases hasked : K.asked parts'.1 with
        | false => rw [filter_cons_of_neg (by simp [hasked]), if_neg (by simp), raws_chars,
            nil_append]
        | true => rw [filter_cons_of_pos hasked, if_pos rfl]; rfl

lemma raws_lineChunks (line : Text) :
    (lineChunks K line).filterMap Chunk.raw = (textLinks line).filter K.asked := by
  rw [lineChunks, textLinks, filterMap_flatMap, filter_flatMap]
  refine flatMap_congr fun piece _ => ?_
  cases piece with
  | text chars => exact raws_segmentChunksFor _ chars
  | code chars => exact raws_chars chars

lemma Meets.asked (h : Meets (blankedChunks K line) mets) {raw : Text} {new : Option Text}
    (hmem : .replaced raw new ∈ mets) : K.asked raw := by
  obtain ⟨text, hlink, -⟩ := h.replaced_mem hmem
  exact (link_lineChunks (link_blankedChunks hlink)).1

lemma Meets.rawLinks (h : Meets (blankedChunks K line) mets) :
    rawLinks (blankInlineCode line) = mets.map Met.old := by
  rw [← old_blankedChunks (K := K), rawLinks_scan h.scan_old]

/-- Every asked link of the line stands between two code spans when no asked one is met as a link
that stays. -/
theorem seen_iff (h : Meets (blankedChunks K line) mets) :
    Seen K.asked line ↔ ∀ raw, .kept raw ∈ mets → K.asked raw = false := by
  have hasked := fun raw new (hmem : Met.replaced raw new ∈ mets) => h.asked hmem
  rw [Seen, ← raws_lineChunks, ← raws_blankedChunks, h.replaced, h.rawLinks]
  clear h
  have hsublist : ∀ mets : List Met, (∀ raw new, .replaced raw new ∈ mets → K.asked raw) →
      mets.filterMap Met.raw <+ (mets.map Met.old).filter K.asked := by
    intro mets hasked
    induction mets with
    | nil => exact .slnil
    | cons met mets ih =>
      have hrest := ih fun raw new hmem => hasked raw new (mem_cons_of_mem _ hmem)
      cases met with
      | kept raw =>
        exact hrest.trans ((sublist_cons_self raw _).filter K.asked)
      | replaced raw new =>
        rw [map_cons, Met.old, filter_cons_of_pos (hasked raw new mem_cons_self)]
        exact hrest.cons_cons raw
  induction mets with
  | nil => exact iff_of_true rfl fun raw hraw => by cases hraw
  | cons met mets ih =>
    have hrest : ∀ raw new, .replaced raw new ∈ mets → K.asked raw :=
      fun raw new hmem => hasked raw new (mem_cons_of_mem _ hmem)
    cases met with
    | kept raw =>
      cases hraw : K.asked raw with
      | true =>
        refine iff_of_false (fun heq => ?_) fun hall => ?_
        · have hlen := (hsublist mets hrest).length_le
          rw [map_cons, Met.old, filter_cons_of_pos hraw] at heq
          have heq' : raw :: (mets.map Met.old).filter K.asked = mets.filterMap Met.raw := heq
          rw [← heq', length_cons] at hlen
          omega
        · exact absurd (hall raw mem_cons_self) (by rw [hraw]; exact Bool.noConfusion)
      | false =>
        rw [map_cons, Met.old, filter_cons_of_neg (by simp [hraw]), filterMap_cons_none rfl]
        exact (ih hrest).trans (by simp [hraw])
    | replaced raw new =>
      rw [map_cons, Met.old, filter_cons_of_pos (hasked raw new mem_cons_self)]
      exact (cons_inj_right raw).trans ((ih hrest).trans (by simp))

end Wiki
