/-
Text that `strip_control` leaves alone (`ai-memory-core`, `sanitize.rs`).

A kept byte-order mark stands at the start of the text, and what is kept never moves to the
right; the tags behind a flag are kept or dropped as a whole.  So one pass leaves nothing for
the next.
-/
import AiMemory.Core.Invisible

open Utf8 List

namespace Sanitize

def isFlag (c : Char) : Bool := c.toNat = 0x1f3f4

def isTagLetter (c : Char) : Bool := inRange c 0xe0020 0xe007e

def FlagRun (run : Text) : Prop :=
  ∃ letters cancel, run = letters ++ [cancel] ∧ letters ≠ [] ∧
    (∀ c ∈ letters, isTagLetter c = true) ∧ cancel.toNat = 0xe007f

/-- The character is one of the tags behind the flag of an emoji. -/
def InFlag (before : Text) (c : Char) (after : Text) : Prop :=
  ∃ front flag x y behind, before = front ++ flag :: x ∧ after = y ++ behind ∧
    isFlag flag = true ∧ FlagRun (x ++ c :: y)

/-- No stripped control stands in the text, and what hides text only in the flag of an emoji. -/
def Clean (text : Text) : Prop :=
  ∀ before c after, text = before ++ c :: after → isStrippedControl c = false ∧
    (isHiddenTextChar (byteLen before) c = true → InFlag before c after)

inductive CleanFrom : ℕ → Text → Prop
  | nil (offset : ℕ) : CleanFrom offset []
  | keep {offset : ℕ} {c : Char} {rest : Text} : isStrippedControl c = false →
      isHiddenTextChar offset c = false → CleanFrom (offset + c.utf8Size) rest →
      CleanFrom offset (c :: rest)
  | flag {offset : ℕ} {c : Char} {run rest : Text} : isFlag c = true → FlagRun run →
      CleanFrom (offset + c.utf8Size + byteLen run) rest → CleanFrom offset (c :: (run ++ rest))

/-! ### Flags -/

variable {c : Char} {offset : ℕ} {text before after : Text}

lemma hidden_of_tag (h : isTagLetter c ∨ c.toNat = 0xe007f) :
    isHiddenTextChar offset c := by
  simp only [isTagLetter, inRange, Bool.and_eq_true, decide_eq_true_eq] at h
  simp only [isHiddenTextChar, inRange, Bool.or_eq_true, Bool.and_eq_true, decide_eq_true_eq]
  omega

lemma not_stripped_of_astral (h : 0xffff < c.toNat) : isStrippedControl c = false := by
  simp only [isStrippedControl, inRange, Bool.or_eq_false_iff, Bool.and_eq_false_iff,
    decide_eq_false_iff_not]
  omega

lemma isFlag_spec (h : isFlag c) (offset : ℕ) :
    isStrippedControl c = false ∧ isHiddenTextChar offset c = false := by
  have hvalue : c.toNat = 0x1f3f4 := of_decide_eq_true h
  refine ⟨not_stripped_of_astral (by omega), ?_⟩
  simp only [isHiddenTextChar, inRange, Bool.or_eq_false_iff, Bool.and_eq_false_iff,
    decide_eq_false_iff_not]
  omega

lemma FlagRun.tag {run : Text} (h : FlagRun run) (hc : c ∈ run) :
    isTagLetter c ∨ c.toNat = 0xe007f := by
  obtain ⟨letters, cancel, rfl, -, hletters, hcancel⟩ := h
  rcases mem_append.mp hc with hc | hc
  · exact .inl (hletters c hc)
  · exact .inr (mem_singleton.mp hc ▸ hcancel)

lemma FlagRun.not_stripped {run : Text} (h : FlagRun run) (hc : c ∈ run) :
    isStrippedControl c = false := by
  refine not_stripped_of_astral ?_
  rcases h.tag hc with htag | htag
  · have hbounds := lt_of_inRange htag
    omega
  · omega

lemma FlagRun.letter {x y : Text} (h : FlagRun (x ++ c :: y)) :
    ∀ d ∈ x, isTagLetter d = true := by
  obtain ⟨letters, cancel, hrun, -, hletters, -⟩ := h
  rw [← dropLast_append_getLast (cons_ne_nil c y), ← append_assoc] at hrun
  obtain ⟨hinit, -⟩ := append_inj' hrun rfl
  exact fun d hd => hletters d (hinit ▸ mem_append_left _ hd)

lemma emojiTagRunLen_run (n : ℕ) {letters : Text} {cancel : Char} (behind : Text)
    (hpos : 0 < n ∨ letters ≠ []) (hletters : ∀ c ∈ letters, isTagLetter c = true)
    (hcancel : cancel.toNat = 0xe007f) :
    emojiTagRunLen (4 * n) (letters ++ cancel :: behind) = 4 * (n + letters.length + 1) := by
  induction letters generalizing n with
  | nil =>
    have hn : 0 < n := hpos.resolve_right fun h => h rfl
    have hsize := (ignorable_of_tag (.inr hcancel)).2
    rw [nil_append, emojiTagRunLen, if_neg, if_pos, hsize, length_nil]
    · omega
    · rw [Bool.and_eq_true, decide_eq_true_eq, decide_eq_true_eq]
      omega
    · intro hletter
      have hbounds := lt_of_inRange hletter
      omega
  | cons c letters ih =>
    obtain ⟨hc, hrest⟩ := forall_mem_cons.mp hletters
    have hsize := (ignorable_of_tag (.inl hc)).2
    have hc' : inRange c 0xe0020 0xe007e := hc
    rw [cons_append, emojiTagRunLen, if_pos hc', hsize, show 4 * n + 4 = 4 * (n + 1) by omega,
      ih (n + 1) (.inl (Nat.succ_pos n)) hrest, length_cons]
    omega

lemma emojiTagRunLen_cases (n : ℕ) (rest : Text) :
    emojiTagRunLen (4 * n) rest = 0 ∨ ∃ letters cancel behind, rest = letters ++ cancel :: behind ∧
      (0 < n ∨ letters ≠ []) ∧ (∀ c ∈ letters, isTagLetter c = true) ∧ cancel.toNat = 0xe007f := by
  induction rest generalizing n with
  | nil => exact .inl rfl
  | cons c rest ih =>
    rw [emojiTagRunLen]
    split
    · rename_i hc
      rw [(ignorable_of_tag (.inl hc)).2, show 4 * n + 4 = 4 * (n + 1) by omega]
      rcases ih (n + 1) with hzero | ⟨letters, cancel, behind, rfl, -, hletters, hcancel⟩
      · exact .inl hzero
      · exact .inr ⟨c :: letters, cancel, behind, rfl, .inr (cons_ne_nil c letters),
          forall_mem_cons.mpr ⟨hc, hletters⟩, hcancel⟩
    split
    · rename_i hc
      rw [Bool.and_eq_true, decide_eq_true_eq, decide_eq_true_eq] at hc
      exact .inr ⟨[], c, rest, rfl, .inl (by omega), forall_mem_nil _, hc.1⟩
    · exact .inl rfl

lemma flagRun_cases (rest : Text) : emojiTagRunLen 0 rest / 4 = 0 ∨
    ∃ run behind, rest = run ++ behind ∧ FlagRun run ∧ emojiTagRunLen 0 rest / 4 = run.length := by
  rcases emojiTagRunLen_cases 0 rest with hzero | ⟨letters, cancel, behind, rfl, hpos, hletters, hcancel⟩
  · rw [Nat.mul_zero] at hzero
    exact .inl (by rw [hzero])
  · have hrun := emojiTagRunLen_run 0 behind hpos hletters hcancel
    rw [Nat.mul_zero, Nat.zero_add] at hrun
    refine .inr ⟨letters ++ [cancel], behind, by simp, ⟨letters, cancel, rfl, ?_, hletters, hcancel⟩,
      ?_⟩
    · exact hpos.resolve_left (Nat.lt_irrefl 0)
    · rw [hrun, Nat.mul_div_cancel_left _ (by decide), length_append, length_singleton]

lemma stripFrom_copied (offset : ℕ) (run rest : Text) :
    stripFrom offset run.length (run ++ rest) = run ++ stripFrom (offset + byteLen run) 0 rest := by
  induction run generalizing offset with
  | nil => cases rest <;> rfl
  | cons c run ih => rw [length_cons, cons_append, stripFrom, ih, byteLen_cons,
      Nat.add_assoc, cons_append]

lemma hidden_mono {offset offset' : ℕ} (hle : offset' ≤ offset)
    (h : isHiddenTextChar offset c = false) : isHiddenTextChar offset' c = false := by
  simp only [isHiddenTextChar, Bool.or_eq_false_iff, Bool.and_eq_false_iff,
    decide_eq_false_iff_not] at h ⊢
  refine ⟨h.1, h.2.imp_right ?_⟩
  omega

lemma cleanFrom_stripFrom {offset offset' : ℕ} (hle : offset' ≤ offset) (s : Text) :
    CleanFrom offset' (stripFrom offset 0 s) := by
  induction hlen : s.length using Nat.strong_induction_on generalizing s offset offset' with
  | _ n ih =>
    cases s with
    | nil => exact .nil offset'
    | cons c rest =>
      rw [length_cons] at hlen
      rw [stripFrom]
      split
      · rename_i hflag
        have hc : isFlag c := decide_eq_true hflag
        obtain ⟨hcontrol, hhidden⟩ := isFlag_spec hc offset'
        rcases flagRun_cases rest with hzero | ⟨run, behind, rfl, hrun, hcopied⟩
        · rw [hzero]
          exact .keep hcontrol hhidden (ih rest.length (by omega) (by omega) rest rfl)
        · rw [hcopied, stripFrom_copied]
          rw [length_append] at hlen
          exact .flag hc hrun (ih behind.length (by omega) (by omega) behind rfl)
      split
      · exact ih rest.length (by omega) (by omega) rest rfl
      · rename_i hkept
        rw [Bool.not_eq_true, Bool.or_eq_false_iff] at hkept
        exact .keep hkept.1 (hidden_mono hle hkept.2) (ih rest.length (by omega) (by omega) rest rfl)

lemma CleanFrom.no_tags {rest : Text} (h : CleanFrom offset rest) :
    emojiTagRunLen 0 rest = 0 := by
  cases h with
  | nil => rfl
  | keep _ hhidden _ =>
    rw [emojiTagRunLen, if_neg, if_neg (by simp)]
    intro hletter
    rw [hidden_of_tag (.inl hletter)] at hhidden
    cases hhidden
  | flag hflag _ _ =>
    rw [emojiTagRunLen, if_neg, if_neg (by simp)]
    intro hletter
    have hbounds := lt_of_inRange hletter
    have hvalue := of_decide_eq_true hflag
    omega

lemma CleanFrom.stripFrom (h : CleanFrom offset text) :
    stripFrom offset 0 text = text := by
  induction h with
  | nil => rfl
  | keep hcontrol hhidden hrest ih =>
    have hkept : (false || false) = false := rfl
    rw [Sanitize.stripFrom, hrest.no_tags, hcontrol, hhidden, Nat.zero_div, ih, hkept,
      if_neg Bool.false_ne_true, ite_self]
  | @flag offset c run rest hflag hrun hrest ih =>
    obtain ⟨letters, cancel, rfl, hpos, hletters, hcancel⟩ := hrun
    have hlen := emojiTagRunLen_run 0 rest (.inr hpos) hletters hcancel
    rw [Nat.mul_zero, Nat.zero_add] at hlen
    have hcopied := stripFrom_copied (offset + c.utf8Size) (letters ++ [cancel]) rest
    rw [ih, length_append, length_singleton] at hcopied
    rw [append_assoc, singleton_append] at hcopied ⊢
    rw [Sanitize.stripFrom, if_pos (of_decide_eq_true hflag), hlen,
      Nat.mul_div_cancel_left _ (by decide), hcopied]

lemma InFlag.last (h : InFlag before c after) :
    ∃ d, before.getLast? = some d ∧ (isFlag d ∨ isTagLetter d) := by
  obtain ⟨front, flag, x, y, behind, rfl, -, hflag, hrun⟩ := h
  rcases eq_nil_or_concat x with rfl | ⟨init, d, rfl⟩
  · exact ⟨flag, getLast?_concat, .inl hflag⟩
  · rw [concat_eq_append] at hrun ⊢
    refine ⟨d, ?_, .inr (hrun.letter d (by simp))⟩
    rw [← cons_append, ← append_assoc, getLast?_concat]

lemma CleanFrom.clean (h : CleanFrom offset text) (htext : text = before ++ c :: after) :
    isStrippedControl c = false ∧
      (isHiddenTextChar (offset + byteLen before) c → InFlag before c after) := by
  induction h generalizing before with
  | nil => exact absurd htext (by simp)
  | @keep offset d rest hcontrol hhidden _ ih =>
    cases before with
    | nil =>
      cases htext
      refine ⟨hcontrol, fun hc => ?_⟩
      rw [byteLen_nil, Nat.add_zero, hhidden] at hc
      cases hc
    | cons e before =>
      obtain ⟨rfl, hrest⟩ := List.cons.inj htext
      obtain ⟨hc, hflag⟩ := ih hrest
      refine ⟨hc, fun hin => ?_⟩
      rw [byteLen_cons, ← Nat.add_assoc] at hin
      obtain ⟨front, flag, x, y, behind, rfl, hrun⟩ := hflag hin
      exact ⟨d :: front, flag, x, y, behind, rfl, hrun⟩
  | @flag offset d run rest hflag hrun _ ih =>
    cases before with
    | nil =>
      cases htext
      obtain ⟨hcontrol, hhidden⟩ := isFlag_spec hflag (offset + byteLen [])
      refine ⟨hcontrol, fun hc => ?_⟩
      rw [hhidden] at hc
      cases hc
    | cons e before =>
      obtain ⟨rfl, hrest⟩ := List.cons.inj htext
      rcases append_eq_append_iff.mp hrest with ⟨x, rfl, hx⟩ | ⟨y, rfl, hy⟩
      · -- behind the run
        obtain ⟨hc, hin⟩ := ih hx
        refine ⟨hc, fun hhidden => ?_⟩
        rw [byteLen_cons, byteLen_append, ← Nat.add_assoc, ← Nat.add_assoc] at hhidden
        obtain ⟨front, flag, x', y', behind, rfl, hrest'⟩ := hin hhidden
        exact ⟨d :: (run ++ front), flag, x', y', behind, by simp, hrest'⟩
      · cases y with
        | nil =>
          have hfirst : rest = [] ++ c :: after := hy.symm
          obtain ⟨hc, hin⟩ := ih hfirst
          refine ⟨hc, fun hhidden => ?_⟩
          rw [byteLen_cons, ← Nat.add_assoc] at hhidden
          rw [append_nil, byteLen_nil, Nat.add_zero] at hin
          obtain ⟨d', hlast, -⟩ := (hin hhidden).last
          cases hlast
        | cons c' y =>
          -- in the run
          cases hy
          refine ⟨hrun.not_stripped (by simp), fun _ => ?_⟩
          exact ⟨[], d, before, y, rest, rfl, rfl, hflag, hrun⟩

lemma InFlag.run {flag c : Char} (hflag : isFlag flag) (h : InFlag (before ++ [flag]) c after) :
    ∃ y behind, after = y ++ behind ∧ FlagRun (c :: y) := by
  obtain ⟨front, flag', x, y, behind, hbefore, rfl, -, hrun⟩ := h
  rcases eq_nil_or_concat x with rfl | ⟨init, d, rfl⟩
  · exact ⟨y, behind, rfl, hrun⟩
  · -- else a tag letter would be the flag
    rw [concat_eq_append] at hrun hbefore
    rw [← cons_append, ← append_assoc] at hbefore
    obtain ⟨-, hlast⟩ := append_inj' hbefore rfl
    obtain rfl := singleton_inj.mp hlast
    have hletter := lt_of_inRange (hrun.letter flag (by simp))
    have hvalue := of_decide_eq_true hflag
    omega

lemma Clean.cleanFrom {before rest : Text} (h : Clean (before ++ rest))
    (hhead : ∀ c ∈ rest.head?, isHiddenTextChar (byteLen before) c = false) :
    CleanFrom (byteLen before) rest := by
  induction hlen : rest.length using Nat.strong_induction_on generalizing before rest with
  | _ n ih =>
    cases rest with
    | nil => exact .nil _
    | cons c rest =>
      rw [length_cons] at hlen
      have hhidden := hhead c rfl
      have hcontrol := (h before c rest rfl).1
      have hassoc : before ++ c :: rest = before ++ [c] ++ rest := by simp
      by_cases hnext : ∀ d ∈ rest.head?, isHiddenTextChar (byteLen (before ++ [c])) d = false
      · have hrest := ih rest.length (by omega) (hassoc ▸ h) hnext rfl
        rw [byteLen_append] at hrest
        exact .keep hcontrol hhidden hrest
      · -- a hidden character follows, so this is a flag, and its run comes next
        cases rest with
        | nil => exact absurd (fun d hd => by cases hd) hnext
        | cons d rest =>
          have hd : isHiddenTextChar (byteLen (before ++ [c])) d := by simpa using hnext
          have hin := (h (before ++ [c]) d rest (by simp)).2 hd
          have hflag : isFlag c := by
            obtain ⟨e, hlast, he⟩ := hin.last
            rw [getLast?_concat] at hlast
            cases hlast
            refine he.resolve_right fun hletter => ?_
            rw [hidden_of_tag (.inl hletter)] at hhidden
            cases hhidden
          obtain ⟨y, behind, rfl, hrun⟩ := InFlag.run hflag hin
          rw [length_cons, length_append] at hlen
          have hwhole : before ++ c :: d :: (y ++ behind) = before ++ c :: (d :: y) ++ behind := by simp
          have hrest : CleanFrom (byteLen (before ++ c :: (d :: y))) behind := by
            refine ih behind.length (by omega) (hwhole ▸ h) ?_ rfl
            intro e he
            -- a run behind this run would start with its own flag
            rw [← Bool.not_eq_true]
            intro hhidden'
            obtain ⟨behind', rfl⟩ : ∃ behind', behind = e :: behind' := by
              cases behind with
              | nil => cases he
              | cons e' behind' => exact ⟨behind', by rw [Option.some.inj he]⟩
            have hin' := (h (before ++ c :: (d :: y)) e behind' (by simp)).2 hhidden'
            obtain ⟨f, hlast, hf⟩ := hin'.last
            obtain ⟨letters, cancel, hletters, -, -, hcancel⟩ := hrun
            rw [hletters, ← cons_append, ← append_assoc, getLast?_concat] at hlast
            cases hlast
            rcases hf with hf | hf
            · have hvalue := of_decide_eq_true hf
              omega
            · have hbounds := lt_of_inRange hf
              omega
          have hsize : byteLen (before ++ c :: (d :: y)) =
              byteLen before + c.utf8Size + byteLen (d :: y) := by
            simp only [byteLen_append, byteLen_cons]
            omega
          rw [hsize] at hrest
          exact .flag hflag hrun hrest

lemma cleanFrom_iff (text : Text) : CleanFrom 0 text ↔ Clean text := by
  constructor
  · intro h before c after htext
    have hclean := h.clean htext
    rwa [Nat.zero_add] at hclean
  · intro h
    refine @Clean.cleanFrom [] text h fun c hc => ?_
    rw [← Bool.not_eq_true]
    intro hhidden
    obtain ⟨rest, rfl⟩ : ∃ rest, text = c :: rest := by
      cases text with
      | nil => cases hc
      | cons c' rest => exact ⟨rest, by rw [Option.some.inj hc]⟩
    obtain ⟨d, hlast, -⟩ := ((h [] c rest rfl).2 hhidden).last
    cases hlast

lemma Regex.removeAll_returns (re : Regex) (text : Text) :
    ∃ out, re.removeAll text = some out := by
  have hapart : Apart text ((re.captures text).map (·.whole)) := by
    refine ⟨fun span hspan => ?_, pairwise_map.mpr (re.ordered text)⟩
    obtain ⟨m, hm, rfl⟩ := mem_map.mp hspan
    exact re.aligned text m hm
  obtain ⟨out, hout, -⟩ := exists_splice [] hapart (boundary_zero text) fun _ _ => Nat.zero_le _
  exact ⟨out, hout⟩

/-- Every pattern has its pass: `scrub` never panics. -/
lemma scrub_returns (sanitizer : Sanitizer) (isJson : Text → Bool) (input : Text) :
    ∃ out, sanitizer.scrub isJson input = some out := by
  obtain ⟨escaped, hescaped⟩ := sanitizer.escapes.removeAll_returns input
  rw [Sanitizer.scrub, Sanitizer.stripControl, hescaped]
  simp only [Option.map_some, Option.bind_eq_bind, Option.bind_some]
  generalize stripFrom 0 0 escaped = text
  induction sanitizer.patterns generalizing text with
  | nil => exact ⟨text, rfl⟩
  | cons pattern patterns ih =>
    obtain ⟨-, spans, -, hspans, haligned, -⟩ := passSpans_spec isJson sanitizer text pattern
    obtain ⟨-, out, hredact, -⟩ := redactSpans_spec haligned pattern.label
    rw [foldlM_cons, pass_eq isJson hspans hredact]
    exact ih out

lemma Clean.escapeFree (h : Clean text) : EscapeFree text := by
  refine escapeFree_of_notMem fun hesc => ?_
  obtain ⟨before, after, htext⟩ := mem_iff_append.mp hesc
  have hcontrol := (h before esc after htext).1
  cases hcontrol

/-- A pass returns a clean text, and a clean text is what it returns. -/
theorem stripControl_clean (sanitizer : Sanitizer) (text : Text)
    (hregex : ∀ text, EscapeFree text → sanitizer.escapes.captures text = []) :
    ∃ out, sanitizer.stripControl text = some out ∧ sanitizer.stripControl out = some out ∧
      Clean out ∧ (Clean text → EscapeFree text → out = text) := by
  have hkept : ∀ s, CleanFrom 0 s → sanitizer.stripControl s = some s := by
    intro s hs
    rw [stripControl_eq (hregex s ((cleanFrom_iff s).mp hs).escapeFree), hs.stripFrom]
  obtain ⟨stripped, hstripped⟩ := sanitizer.escapes.removeAll_returns text
  have hout : sanitizer.stripControl text = some (stripFrom 0 0 stripped) := by
    rw [Sanitizer.stripControl, hstripped]
    rfl
  have hclean : CleanFrom 0 (stripFrom 0 0 stripped) := cleanFrom_stripFrom le_rfl stripped
  refine ⟨_, hout, hkept _ hclean, (cleanFrom_iff _).mp hclean, fun htext _ => ?_⟩
  have hsame := hkept text ((cleanFrom_iff text).mpr htext)
  exact Option.some.inj (hout.symm.trans hsame)

theorem stripControl_clean_mark :
    ∃ out, keySanitizer.stripControl "\uFEFFa\x00\uFEFFb".toList = some out ∧
      keySanitizer.stripControl out = some out ∧ Clean out := by
  obtain ⟨out, hout, hagain, hclean, -⟩ :=
    stripControl_clean keySanitizer "\uFEFFa\x00\uFEFFb".toList fun _ _ => rfl
  exact ⟨out, hout, hagain, hclean⟩

end Sanitize
