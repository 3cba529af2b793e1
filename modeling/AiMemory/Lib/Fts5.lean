/-
The tokens of an FTS5 query.

A string stands between quotes, and a quote in it is doubled.  Outside strings a text is made of
barewords and of symbols, and a blank ends what stands before it.
-/
import Mathlib.Data.List.Chain
import Mathlib.Data.List.Infix
import AiMemory.Lib.Text

open List

namespace Fts5

open Option (some.inj)

inductive Token
  | phrase
  | unterminated
  | word (text : Text)
  | symbol (c : Char)
  deriving DecidableEq

inductive Mode
  | idle
  | bare (text : Text)
  | phrase
  /-- behind a quote that ends the string, unless another one follows -/
  | closing

def isBareword (c : Char) : Bool := c.isAlphanum || c = '_' || c.toNat = 0x1a || 0x80 ≤ c.toNat

def isSpace (c : Char) : Bool := c = ' ' || c = '\t' || c = '\n' || c = '\r'

def start (c : Char) : Mode :=
  if c = '"' then .phrase else if isBareword c then .bare [c] else .idle

def isSymbol (c : Char) : Bool := c ≠ '"' && !isBareword c && !isSpace c

def symbols (c : Char) : List Token := if isSymbol c then [.symbol c] else []

def next : Mode → Char → Mode
  | .idle, c => start c
  | .bare text, c => if isBareword c then .bare (text ++ [c]) else start c
  | .phrase, c => if c = '"' then .closing else .phrase
  | .closing, c => if c = '"' then .phrase else start c

def emit : Mode → Char → List Token
  | .idle, c => symbols c
  | .bare text, c => if isBareword c then [] else .word text :: symbols c
  | .phrase, _ => []
  | .closing, c => if c = '"' then [] else .phrase :: symbols c

def finish : Mode → List Token
  | .idle => []
  | .bare text => [.word text]
  | .phrase => [.unterminated]
  | .closing => [.phrase]

def read : Mode → Text → List Token
  | _, [] => []
  | m, c :: s => emit m c ++ read (next m c) s

def after (m : Mode) (s : Text) : Mode := s.foldl next m

def lex (query : Text) : List Token := read .idle query ++ finish (after .idle query)

/-! ### One text after another -/

variable {m : Mode} {s t : Text}

lemma read_append (m : Mode) (s t : Text) :
    read m (s ++ t) = read m s ++ read (after m s) t := by
  induction s generalizing m with
  | nil => rfl
  | cons c s ih =>
    rw [cons_append, read, ih, read, append_assoc]
    rfl

lemma after_append (m : Mode) (s t : Text) : after m (s ++ t) = after (after m s) t :=
  foldl_append

def Mode.opened : Mode → Bool
  | .phrase => true
  | _ => false

def inside : Bool → Text → Bool
  | opened, [] => opened
  | opened, c :: s => inside (opened ^^ (c = '"')) s

lemma inside_append (opened : Bool) (s t : Text) :
    inside opened (s ++ t) = inside (inside opened s) t := by
  induction s generalizing opened with
  | nil => rfl
  | cons c s ih => exact ih _

lemma inside_of_notMem (opened : Bool) (h : '"' ∉ s) : inside opened s = opened := by
  induction s with
  | nil => rfl
  | cons c s ih =>
    have hc : c ≠ '"' := fun heq => h (heq ▸ mem_cons_self)
    rw [inside, decide_eq_false hc, Bool.xor_false, ih fun hs => h (mem_cons_of_mem _ hs)]

lemma inside_xor (opened : Bool) (s : Text) :
    inside opened s = (opened ^^ inside false s) := by
  induction s generalizing opened with
  | nil => exact (Bool.xor_false opened).symm
  | cons c s ih => rw [inside, inside, ih, ih (false ^^ _), Bool.false_xor, Bool.xor_assoc]

lemma start_opened (c : Char) : (start c).opened = (c = '"' : Bool) := by
  rw [start]
  split
  · rename_i hc
    rw [decide_eq_true hc]
    rfl
  · rename_i hc
    rw [decide_eq_false hc]
    split <;> rfl

lemma next_opened (m : Mode) (c : Char) : (next m c).opened = (m.opened ^^ (c = '"' : Bool)) := by
  cases m with
  | idle =>
    rw [next, start_opened]
    exact (Bool.false_xor _).symm
  | bare text =>
    rw [next]
    split
    · rename_i hc
      have hquote : c ≠ '"' := by
        rintro rfl
        cases hc
      rw [decide_eq_false hquote]
      rfl
    · rw [start_opened]
      exact (Bool.false_xor _).symm
  | phrase =>
    by_cases hc : c = '"'
    · rw [next, if_pos hc, decide_eq_true hc]
      rfl
    · rw [next, if_neg hc, decide_eq_false hc]
      rfl
  | closing =>
    by_cases hc : c = '"'
    · rw [next, if_pos hc, decide_eq_true hc]
      rfl
    · rw [next, if_neg hc, start_opened]
      exact (Bool.false_xor _).symm

lemma after_opened (m : Mode) (s : Text) : (after m s).opened = inside m.opened s := by
  induction s generalizing m with
  | nil => rfl
  | cons c s ih =>
    rw [inside, ← next_opened]
    exact ih _

def resume (opened : Bool) : Mode := if opened then .phrase else .idle

lemma next_blank (m : Mode) : next m ' ' = resume m.opened := by
  cases m <;> rfl

@[simp] lemma resume_opened (opened : Bool) : (resume opened).opened = opened := by
  cases opened <;> rfl

def readPart (opened : Bool) (s : Text) : List Token := read (resume opened) (s ++ [' '])

lemma read_part (opened : Bool) (s t : Text) : read (resume opened) (s ++ ' ' :: t) =
    readPart opened s ++ read (resume (inside opened s)) t := by
  have hblank : s ++ ' ' :: t = (s ++ [' ']) ++ t := by simp
  have hafter : after (resume opened) (s ++ [' ']) = resume (inside opened s) := by
    rw [after_append]
    show next (after (resume opened) s) ' ' = _
    rw [next_blank, after_opened, resume_opened]
  rw [hblank, read_append, hafter]
  rfl

lemma after_part (opened : Bool) (s t : Text) : after (resume opened) (s ++ ' ' :: t) =
    after (resume (inside opened s)) t := by
  rw [after_append]
  show after (next (after (resume opened) s) ' ') t = _
  rw [next_blank, after_opened, resume_opened]

def tail (opened : Bool) : List Token := if opened then [.unterminated] else []

lemma emit_blank (m : Mode) : finish m = emit m ' ' ++ tail m.opened := by
  cases m <;> rfl

lemma read_finish (opened : Bool) (s : Text) :
    read (resume opened) s ++ finish (after (resume opened) s) =
      readPart opened s ++ tail (inside opened s) := by
  rw [emit_blank, after_opened, resume_opened, readPart, read_append, append_assoc]
  show _ = _ ++ ((emit _ ' ' ++ []) ++ _)
  rw [append_nil]

def readParts : Bool → List Text → List Token
  | _, [] => []
  | opened, part :: parts => readPart opened part ++ readParts (inside opened part) parts

lemma readParts_append (opened : Bool) (parts parts' : List Text) :
    readParts opened (parts ++ parts') =
      readParts opened parts ++ readParts (parts.foldl inside opened) parts' := by
  induction parts generalizing opened with
  | nil => rfl
  | cons part parts ih =>
    rw [cons_append, readParts, ih, readParts, append_assoc]
    rfl

lemma read_intercalate (opened : Bool) {parts : List Text} (hne : parts ≠ []) :
    read (resume opened) ([' '].intercalate parts) ++
        finish (after (resume opened) ([' '].intercalate parts)) =
      readParts opened parts ++ tail (parts.foldl inside opened) := by
  induction parts generalizing opened with
  | nil => exact absurd rfl hne
  | cons part parts ih =>
    cases parts with
    | nil =>
      rw [intercalate_singleton, read_finish, readParts, readParts, append_nil]
      rfl
    | cons other parts =>
      have hjoin : [' '].intercalate (part :: other :: parts) =
          part ++ ' ' :: [' '].intercalate (other :: parts) := by
        rw [intercalate_cons_cons, append_assoc]
        rfl
      rw [hjoin, read_part, after_part, append_assoc, ih _ (cons_ne_nil _ _), ← append_assoc]
      rfl

lemma lex_intercalate (parts : List Text) :
    lex ([' '].intercalate parts) = readParts false parts ++ tail (parts.foldl inside false) := by
  cases parts with
  | nil => rfl
  | cons part parts => exact read_intercalate false (cons_ne_nil _ _)

lemma head?_read_opened {m : Mode} (hm : m = .phrase ∨ m = .closing) (s : Text) :
    ∀ t ∈ (read m s ++ finish (after m s)).head?, t = .phrase ∨ t = .unterminated := by
  induction s generalizing m with
  | nil =>
    intro t ht
    rcases hm with rfl | rfl
    · exact .inr (some.inj ht).symm
    · exact .inl (some.inj ht).symm
  | cons c s ih =>
    intro t ht
    rw [read, append_assoc] at ht
    by_cases hemit : emit m c = []
    · rw [hemit] at ht
      refine ih ?_ t ht
      rcases hm with rfl | rfl
      · rw [next]
        split
        · exact .inr rfl
        · exact .inl rfl
      · rw [emit] at hemit
        split at hemit
        · rename_i hc
          exact .inl (if_pos hc)
        · cases hemit
    · rcases hm with rfl | rfl
      · exact absurd rfl hemit
      · rw [emit] at hemit ht
        split at hemit
        · exact absurd rfl hemit
        · rename_i hc
          rw [if_neg hc] at ht
          exact .inl (some.inj ht).symm

lemma head?_read_bare (text s : Text) :
    ∀ t ∈ (read (.bare text) s ++ finish (after (.bare text) s)).head?, ∃ word, t = .word word := by
  induction s generalizing text with
  | nil => exact fun t ht => ⟨text, (some.inj ht).symm⟩
  | cons c s ih =>
    intro t ht
    rw [read, emit, append_assoc] at ht
    split at ht
    · rename_i hc
      have hnext : next (.bare text) c = .bare (text ++ [c]) := if_pos hc
      rw [show after (.bare text) (c :: s) = after (next (.bare text) c) s from rfl, hnext] at ht
      exact ih _ t ht
    · exact ⟨text, (some.inj ht).symm⟩

lemma head?_readParts_opened (parts : List Text) :
    ∀ t ∈ (readParts true parts ++ tail (parts.foldl inside true)).head?,
      t = .phrase ∨ t = .unterminated := by
  cases parts with
  | nil => exact fun t ht => .inr (some.inj ht).symm
  | cons part parts =>
    rw [← read_intercalate true (cons_ne_nil _ _)]
    exact head?_read_opened (.inl rfl) _

variable {c : Char} {word : Text} {prev : Option Token}

lemma head?_readParts_paren {part : Text} (hc : isSpace c = false) (parts : List Text) :
    (readParts false ((c :: part) :: parts) ++
      tail (((c :: part) :: parts).foldl inside false)).head? = some (.symbol '(') ↔ c = '(' := by
  obtain ⟨s, hs⟩ : ∃ s, [' '].intercalate ((c :: part) :: parts) = c :: s := by
    cases parts with
    | nil => exact ⟨part, intercalate_singleton⟩
    | cons other parts => exact ⟨_, intercalate_cons_cons⟩
  rw [← read_intercalate false (cons_ne_nil _ _), hs]
  show (read .idle (c :: s) ++ finish (after .idle (c :: s))).head? = _ ↔ _
  have hafter : after .idle (c :: s) = after (start c) s := rfl
  rw [read, hafter, append_assoc]
  show (symbols c ++ (read (start c) s ++ finish (after (start c) s))).head? = _ ↔ _
  by_cases hquote : c = '"'
  · subst hquote
    refine iff_of_false (fun h => ?_) (by decide)
    exact (head?_read_opened (.inl rfl) s _ h).elim nofun nofun
  by_cases hbare : isBareword c
  · refine iff_of_false (fun h => ?_) ?_
    · rw [symbols, if_neg (by simp [isSymbol, hbare]), start, if_neg hquote, if_pos hbare] at h
      obtain ⟨word, hword⟩ := head?_read_bare [c] s _ h
      cases hword
    · rintro rfl
      cases hbare
  · rw [symbols, if_pos (by simp [isSymbol, hquote, hbare, hc])]
    constructor
    · intro h
      exact Token.symbol.inj (some.inj h)
    · rintro rfl
      rfl

def double (s : Text) : Text := s.flatMap fun c => if c = '"' then ['"', '"'] else [c]

lemma read_double (hc : c ≠ '"') (s t : Text) :
    read .phrase (double s ++ '"' :: c :: t) = .phrase :: read .idle (c :: t) := by
  induction s with
  | nil =>
    show [] ++ (emit .closing c ++ read (next .closing c) t) = _
    rw [emit, if_neg hc, next, if_neg hc, nil_append]
    rfl
  | cons a s ih =>
    have hstep : read .phrase (double (a :: s) ++ '"' :: c :: t) =
        read .phrase (double s ++ '"' :: c :: t) := by
      rw [double, flatMap_cons, append_assoc]
      split
      · rfl
      · rename_i ha
        show [] ++ read (next .phrase a) _ = _
        rw [next, if_neg ha]
        rfl
    rw [hstep, ih]

lemma readPart_closed {opened : Bool} {s t : Text} (h : inside opened (s ++ ['"']) = false)
    (ht : t.head? ≠ some '"') :
    readPart opened (s ++ '"' :: t) = read (resume opened) s ++ .phrase :: readPart false t := by
  have hmode : after (resume opened) s = .phrase := by
    have hopened := after_opened (resume opened) s
    rw [resume_opened] at hopened
    rw [inside_append, ← hopened] at h
    cases hafter : after (resume opened) s with
    | phrase => rfl
    | idle | bare text | closing => rw [hafter] at h; cases h
  obtain ⟨c, rest, hrest, hc⟩ : ∃ c rest, t ++ [' '] = c :: rest ∧ c ≠ '"' := by
    cases t with
    | nil => exact ⟨' ', [], rfl, by decide⟩
    | cons c t => exact ⟨c, t ++ [' '], rfl, fun hc => ht (by rw [hc]; rfl)⟩
  rw [readPart, append_assoc, read_append, hmode, cons_append, hrest]
  have hphrase := read_double hc [] rest
  rw [readPart, hrest]
  exact congrArg (read (resume opened) s ++ ·) hphrase

lemma double_of_notMem (h : '"' ∉ s) : double s = s := by
  induction s with
  | nil => rfl
  | cons c s ih =>
    have hc : c ≠ '"' := fun heq => h (heq ▸ mem_cons_self)
    rw [double, flatMap_cons, if_neg hc]
    exact congrArg (c :: ·) (ih fun hs => h (mem_cons_of_mem _ hs))

lemma inside_double (opened : Bool) (s : Text) : inside opened (double s) = opened := by
  induction s with
  | nil => rfl
  | cons c s ih =>
    rw [double, flatMap_cons, inside_append]
    split
    · have hpair : inside opened ['"', '"'] = opened := by cases opened <;> rfl
      rw [hpair]
      exact ih
    · rename_i hc
      rw [inside, inside, decide_eq_false hc, Bool.xor_false]
      exact ih

/-! ### Text without strings -/

theorem read_symbol (hc : isSymbol c) (t : Text) :
    read .idle (c :: t) = .symbol c :: read .idle t := by
  have hquote : c ≠ '"' := by
    rintro rfl
    cases hc
  have hbare : isBareword c ≠ true := by
    intro hbare
    rw [isSymbol, hbare] at hc
    simp at hc
  rw [read, emit, symbols, if_pos hc, next, start, if_neg hquote, if_neg hbare]
  rfl

lemma read_bareword (hword : ∀ c ∈ word, isBareword c = true)
    (text t : Text) : read (.bare text) (word ++ t) = read (.bare (text ++ word)) t := by
  induction word generalizing text with
  | nil => rw [nil_append, append_nil]
  | cons c word ih =>
    obtain ⟨hc, hword⟩ := forall_mem_cons.mp hword
    rw [cons_append, read, emit, if_pos hc, next, if_pos hc, ih hword, append_assoc]
    rfl

lemma read_word (hne : word ≠ []) (hword : ∀ c ∈ word, isBareword c = true)
    (hc : isBareword c = false) (t : Text) :
    read .idle (word ++ c :: t) = .word word :: read .idle (c :: t) := by
  obtain ⟨a, word, rfl⟩ := exists_cons_of_ne_nil hne
  obtain ⟨ha, hword⟩ := forall_mem_cons.mp hword
  have hquote : a ≠ '"' := by
    rintro rfl
    cases ha
  have hsymbol : isSymbol a ≠ true := by simp [isSymbol, ha]
  have hc : ¬ isBareword c := by simp [hc]
  rw [cons_append, read, emit, symbols, if_neg hsymbol, next, start, if_neg hquote, if_pos ha,
    read_bareword hword, read, emit, if_neg hc, next, if_neg hc]
  rfl

def Token.spell : Token → Text
  | .word text => text
  | .symbol c => [c]
  | _ => []

def Solid (s : Text) : Prop := ∀ c ∈ s, isBareword c = true ∨ isSymbol c = true

lemma readPart_symbol (hc : isSymbol c) (t : Text) :
    readPart false (c :: t) = .symbol c :: readPart false t := read_symbol hc (t ++ [' '])

lemma readPart_word (hne : word ≠ []) (hword : ∀ c ∈ word, isBareword c = true) :
    readPart false word = [.word word] := read_word hne hword rfl []

lemma readPart_word_symbol (hne : word ≠ [])
    (hword : ∀ c ∈ word, isBareword c = true) (hc : isSymbol c) (t : Text) :
    readPart false (word ++ c :: t) = .word word :: .symbol c :: readPart false t := by
  have hbare : isBareword c = false := by
    simp only [isSymbol, Bool.and_eq_true, Bool.not_eq_true'] at hc
    exact hc.1.2
  have hread := read_word hne hword hbare (t ++ [' '])
  rw [read_symbol hc] at hread
  rw [readPart, append_assoc]
  exact hread

lemma Solid.cases {s : Text} (h : Solid s) : s = [] ∨
    (∃ c t, s = c :: t ∧ isSymbol c ∧ Solid t) ∨
    (s ≠ [] ∧ ∀ c ∈ s, isBareword c = true) ∨
    ∃ word c t, s = word ++ c :: t ∧ word ≠ [] ∧ (∀ c ∈ word, isBareword c = true) ∧
      isSymbol c ∧ Solid t := by
  induction s with
  | nil => exact .inl rfl
  | cons a s ih =>
    obtain ⟨ha, hs⟩ := forall_mem_cons.mp h
    right
    by_cases hsymbol : isSymbol a
    · exact .inl ⟨a, s, rfl, hsymbol, hs⟩
    have ha : isBareword a := ha.resolve_right hsymbol
    right
    rcases ih hs with rfl | ⟨c, t, rfl, hc, ht⟩ | ⟨-, hword⟩ | ⟨word, c, t, rfl, -, hword, hc, ht⟩
    · exact .inl ⟨cons_ne_nil _ _, forall_mem_singleton.mpr ha⟩
    · exact .inr ⟨[a], c, t, rfl, cons_ne_nil _ _, forall_mem_singleton.mpr ha, hc, ht⟩
    · exact .inl ⟨cons_ne_nil _ _, forall_mem_cons.mpr ⟨ha, hword⟩⟩
    · exact .inr ⟨a :: word, c, t, rfl, cons_ne_nil _ _, forall_mem_cons.mpr ⟨ha, hword⟩, hc, ht⟩

/-- A text that spells these tokens. -/
inductive Spelled : Text → List Token → Prop
  | nil : Spelled [] []
  | symbol {c : Char} {t : Text} {ts : List Token} (hc : isSymbol c = true)
      (ht : Spelled t ts) : Spelled (c :: t) (.symbol c :: ts)
  | word {word : Text} (hne : word ≠ []) (hword : ∀ c ∈ word, isBareword c = true) :
      Spelled word [.word word]
  | wordSymbol {word : Text} {c : Char} {t : Text} {ts : List Token} (hne : word ≠ [])
      (hword : ∀ c ∈ word, isBareword c = true) (hc : isSymbol c = true) (ht : Spelled t ts) :
      Spelled (word ++ c :: t) (.word word :: .symbol c :: ts)

lemma Solid.spelled {s : Text} (h : Solid s) : Spelled s (readPart false s) := by
  induction hn : s.length using Nat.strong_induction_on generalizing s with
  | _ n ih =>
    rcases h.cases with rfl | ⟨c, t, rfl, hc, ht⟩ | ⟨hne, hword⟩ | ⟨word, c, t, rfl, hne, hword, hc, ht⟩
    · exact .nil
    · rw [readPart_symbol hc]
      rw [length_cons] at hn
      exact .symbol hc (ih t.length (by omega) ht rfl)
    · rw [readPart_word hne hword]
      exact .word hne hword
    · rw [readPart_word_symbol hne hword hc]
      rw [length_append, length_cons] at hn
      exact .wordSymbol hne hword hc (ih t.length (by omega) ht rfl)

variable {ts : List Token}

lemma Spelled.spell (h : Spelled s ts) : ts.flatMap Token.spell = s := by
  induction h with
  | nil => rfl
  | symbol _ _ ih => rw [flatMap_cons, ih]; rfl
  | word => exact append_nil _
  | wordSymbol _ _ _ _ ih => rw [flatMap_cons, flatMap_cons, ih]; rfl

def Token.isSymbol (t : Token) : Prop := ∃ c, t = .symbol c

lemma Spelled.isChain (h : Spelled s ts) : ts.IsChain fun a b => a.isSymbol ∨ b.isSymbol := by
  induction h with
  | nil => exact .nil
  | symbol _ _ ih =>
    rw [isChain_cons]
    exact ⟨fun _ _ => .inl ⟨_, rfl⟩, ih⟩
  | word => exact .singleton _
  | wordSymbol _ _ _ _ ih =>
    rw [isChain_cons, isChain_cons]
    refine ⟨fun b hb => .inr ⟨_, (some.inj hb).symm⟩, fun _ _ => .inl ⟨_, rfl⟩, ih⟩

lemma Spelled.before {t : Token} (h : Spelled s ts)
    (ht : [t, .word word] <:+: ts) : ∃ c, t = .symbol c := by
  have hpair := h.isChain.infix ht
  rw [isChain_pair] at hpair
  exact hpair.resolve_right fun ⟨c, hc⟩ => nomatch hc

lemma Spelled.after {t : Token} (h : Spelled s ts)
    (ht : [.word word, t] <:+: ts) : ∃ c, t = .symbol c := by
  have hpair := h.isChain.infix ht
  rw [isChain_pair] at hpair
  exact hpair.resolve_left fun ⟨c, hc⟩ => nomatch hc

/-! ### What the grammar asks -/

def isOperator (t : Token) : Bool :=
  t = .word "AND".toList || t = .word "OR".toList || t = .word "NOT".toList

def endsOperand : Token → Bool
  | .phrase | .word _ => true
  | .symbol c => c = ')' || c = '*'
  | .unterminated => false

def startsOperand : Token → Bool
  | .phrase | .word _ => true
  | .symbol c => c = '(' || c = '{' || c = '^' || c = '-'
  | .unterminated => false

def isLegal : Token → Bool
  | .phrase | .word _ => true
  | .symbol c => "(){}:,+*-^".toList.contains c
  | .unterminated => false

def wellformedFrom : Option Token → List Token → Bool
  | _, [] => true
  | prev, t :: ts =>
    isLegal t && (!isOperator t || prev.any endsOperand && ts.head?.any startsOperand)
      && wellformedFrom (some t) ts

/-- Every symbol is one of the syntax, and an infix operator stands between two operands. -/
def wellformed (ts : List Token) : Bool := wellformedFrom none ts

lemma wellformedFrom_cons {t : Token}
    (h : wellformedFrom prev (t :: ts)) : isLegal t ∧
      (isOperator t → prev.any endsOperand ∧ ts.head?.any startsOperand) ∧
      wellformedFrom (some t) ts := by
  simp only [wellformedFrom, Bool.and_eq_true, Bool.or_eq_true, Bool.not_eq_true'] at h
  obtain ⟨⟨hlegal, hoperator⟩, hrest⟩ := h
  refine ⟨hlegal, fun ht => ?_, hrest⟩
  exact hoperator.resolve_left (by simp [ht])

lemma legal_of_wellformed (h : wellformedFrom prev ts) :
    ∀ t ∈ ts, isLegal t = true := by
  induction ts generalizing prev with
  | nil => exact forall_mem_nil _
  | cons t ts ih =>
    obtain ⟨hlegal, -, hrest⟩ := wellformedFrom_cons h
    exact forall_mem_cons.mpr ⟨hlegal, ih hrest⟩

lemma endsOperand_of_wellformed {t op : Token}
    (h : wellformedFrom prev ts) (hwithin : [t, op] <:+: ts) (hop : isOperator op) :
    endsOperand t := by
  induction ts generalizing prev with
  | nil => exact absurd (infix_nil.mp hwithin) (cons_ne_nil _ _)
  | cons a ts ih =>
    obtain ⟨-, -, hrest⟩ := wellformedFrom_cons h
    rcases infix_cons_iff.mp hwithin with hbegin | hwithin
    · obtain ⟨rfl, htail⟩ := cons_prefix_cons.mp hbegin
      obtain ⟨ts, rfl⟩ := htail
      exact ((wellformedFrom_cons hrest).2.1 hop).1
    · exact ih hrest hwithin

lemma startsOperand_of_wellformed {op t : Token}
    (h : wellformedFrom prev ts) (hwithin : [op, t] <:+: ts) (hop : isOperator op) :
    startsOperand t := by
  induction ts generalizing prev with
  | nil => exact absurd (infix_nil.mp hwithin) (cons_ne_nil _ _)
  | cons a ts ih =>
    obtain ⟨-, hoperator, hrest⟩ := wellformedFrom_cons h
    rcases infix_cons_iff.mp hwithin with hbegin | hwithin
    · obtain ⟨rfl, htail⟩ := cons_prefix_cons.mp hbegin
      obtain ⟨ts, rfl⟩ := htail
      exact (hoperator hop).2
    · exact ih hrest hwithin

/-- A text that starts with `*` asks for an internal value instead. -/
def isFullText (query : Text) : Bool := query.head? ≠ some '*'

def adjacent (x y : Token) : List Token → Bool
  | a :: b :: ts => (a = x && b = y) || adjacent x y (b :: ts)
  | _ => false

/-- `AND`, `NOT`, or a `NEAR` group. -/
def restricts (ts : List Token) : Bool :=
  ts.contains (.word "AND".toList) || ts.contains (.word "NOT".toList) ||
    adjacent (.word "NEAR".toList) (.symbol '(') ts

lemma adjacent_append {x y : Token} {ts ts' : List Token} : adjacent x y (ts ++ ts') =
    (adjacent x y ts || adjacent x y ts' || (ts.getLast? = some x && ts'.head? = some y)) := by
  induction ts with
  | nil => simp [adjacent]
  | cons a ts ih =>
    cases ts with
    | nil =>
      cases ts' with
      | nil => simp [adjacent]
      | cons b ts' => simp [adjacent, Bool.or_comm]
    | cons b ts =>
      rw [cons_append, cons_append, adjacent, ← cons_append, ih, adjacent, getLast?_cons_cons]
      simp only [Bool.or_assoc]

lemma restricts_append (ts ts' : List Token) : restricts (ts ++ ts') =
    (restricts ts || restricts ts' ||
      (ts.getLast? = some (.word "NEAR".toList) && ts'.head? = some (.symbol '('))) := by
  rw [Bool.eq_iff_iff]
  simp only [restricts, adjacent_append, Bool.or_eq_true, contains_iff_mem, mem_append]
  tauto

lemma adjacent_eq_true {x y : Token} : adjacent x y ts ↔ [x, y] <:+: ts := by
  induction ts with
  | nil => simp [adjacent]
  | cons a ts ih =>
    cases ts with
    | nil => simp [adjacent, infix_singleton_iff]
    | cons b ts =>
      rw [adjacent, infix_cons_iff, cons_prefix_cons, cons_prefix_cons, ← ih,
        Bool.or_eq_true, Bool.and_eq_true, decide_eq_true_eq, decide_eq_true_eq, eq_comm,
        eq_comm (a := b)]
      simp only [List.nil_prefix, and_true]

end Fts5
