/-
Bodies with rewritten wikilinks (`delink_wikilinks` and `rewrite_wikilink_targets` of
`markdown.rs`).

Both functions walk the lines of a body as the extraction does, but look for links in
the text between two code spans, where the extraction looks in the whole line.
-/
import AiMemory.Lib.Spans
import AiMemory.Wiki.Links

open Strings List

namespace Wiki

open Store

/-! ### The walk -/

section

variable (out : Text → Text)

/-- The text between two code spans, with `out` written for what a link holds. -/
def rewriteSegmentFor : ℕ → Text → Text
  | 0, rest => rest
  | fuel + 1, rest =>
    match splitOnce ['[', '['] rest with
    | none => rest
    | some (before, behind) =>
      match splitOnce [']', ']'] behind with
      | none => rest
      | some (raw, after) => before ++ out raw ++ rewriteSegmentFor fuel after

def rewriteSegment (seg : Text) : Text := rewriteSegmentFor out seg.length seg

def Piece.rewrite : Piece → Piece
  | .text chars => .text (rewriteSegment out chars)
  | .code chars => .code chars

def Piece.chars : Piece → Text
  | .text chars => chars
  | .code chars => chars

def rewriteLine (line : Text) : Text :=
  (codePieces line).flatMap fun piece => (piece.rewrite out).chars

def rewriteLines : Option CodeFence → List Text → Text
  | _, [] => []
  | fence, raw :: rest =>
    let (line, terminator) := splitLineTerminator raw
    let (next, code) := CodeFence.step fence line
    (if code then line else rewriteLine out line) ++ terminator ++ rewriteLines next rest

def rewriteBody (body : Text) : Text := rewriteLines out none (splitInclusive body)

end

def Piece.segment : Piece → Bool × Text
  | .text chars => (false, chars)
  | .code chars => (true, chars)

/-- The fenced lines, code spans and line ends of a body, marked, and the text between them. -/
def segments : Option CodeFence → List Text → List (Bool × Text)
  | _, [] => []
  | fence, raw :: rest =>
    let (line, terminator) := splitLineTerminator raw
    let (next, code) := CodeFence.step fence line
    (if code then [(true, line)] else (codePieces line).map Piece.segment) ++
      (true, terminator) :: segments next rest

lemma rewriteLines_eq (out : Text → Text) (fence : Option CodeFence) (raws : List Text) :
    rewriteLines out fence raws = (segments fence raws).flatMap fun segment =>
      if segment.1 then segment.2 else rewriteSegment out segment.2 := by
  induction raws generalizing fence with
  | nil => rfl
  | cons raw raws ih =>
    rw [rewriteLines, segments]
    dsimp only
    rw [ih, flatMap_append, flatMap_cons, if_pos rfl, append_assoc]
    refine congrArg (· ++ _) ?_
    split
    · exact (append_nil _).symm
    · rw [rewriteLine, flatMap_map]
      refine flatMap_congr fun piece _ => ?_
      cases piece <;> rfl

def bracketed (raw : Text) : Text := '[' :: '[' :: (raw ++ [']', ']'])

def targetAndLabel (raw : Text) : Text × Option Text :=
  match splitOnce ['|'] raw with
  | none => (raw, none)
  | some (target, label) => (target, some label)

section

variable (U : CharTables) (page : PagePath)

def linkText (raw : Text) : Text :=
  let (target, label) := targetAndLabel raw
  ((label.map trim).filter (· ≠ [])).getD (trim target)

variable (delink : Finset LinkKey)

def delinked (raw : Text) : Bool :=
  (wikilinkKey U page raw).any (· ∈ delink)

def delinkedLink (raw : Text) : Text :=
  if delinked U page delink raw then linkText raw else bracketed raw

def delinkWikilinks (body : Text) (delink : Finset LinkKey) : Text :=
  if delink = ∅ then body else rewriteBody (delinkedLink U page delink) body

def redirected (redirects : List (Text × Text)) (raw : Text) :
    Option Text :=
  let key := splitScope U (trim (targetAndLabel raw).1)
  if key.workspace = none ∧ key.project = none then
    (normalizeLinkTarget key.path page true).bind (List.lookup · redirects)
  else none

def retarget (target raw : Text) : Text :=
  '[' :: '[' :: (target ++ (targetAndLabel raw).2.elim [] ('|' :: ·) ++ [']', ']'])

def redirectedLink (redirects : List (Text × Text)) (raw : Text) : Text :=
  match redirected U page redirects raw with
  | some target => retarget target raw
  | none => bracketed raw

/-- Every wikilink of the same project whose path is redirected, with its new target. -/
def rewriteWikilinkTargets (body : Text) (redirects : List (Text × Text)) :
    Text :=
  if redirects = [] then body else rewriteBody (redirectedLink U page redirects) body

end

/-! ### Chunks -/

/-- A character that stays, or a link that is replaced. -/
inductive Chunk
  | char (c : Char)
  | link (raw new : Text)
  deriving DecidableEq

def Chunk.old : Chunk → Text
  | .char c => [c]
  | .link raw _ => bracketed raw

def Chunk.new : Chunk → Text
  | .char c => [c]
  | .link _ new => new

def Chunk.raw : Chunk → Option Text
  | .char _ => none
  | .link raw _ => some raw

variable (s : Text)

@[simp] lemma flatMap_old_chars : (s.map .char).flatMap Chunk.old = s := by
  induction s with
  | nil => rfl
  | cons c s ih => rw [map_cons, flatMap_cons, ih, Chunk.old, singleton_append]

@[simp] lemma flatMap_new_chars : (s.map .char).flatMap Chunk.new = s := by
  induction s with
  | nil => rfl
  | cons c s ih => rw [map_cons, flatMap_cons, ih, Chunk.new, singleton_append]

@[simp] lemma raws_chars : (s.map Chunk.char).filterMap Chunk.raw = [] := by
  rw [filterMap_map]
  exact filterMap_eq_nil_iff.mpr fun c _ => rfl

lemma mem_raws {chunks : List Chunk} {raw : Text} :
    raw ∈ chunks.filterMap Chunk.raw ↔ ∃ new, .link raw new ∈ chunks := by
  rw [mem_filterMap]
  constructor
  · rintro ⟨chunk, hchunk, hraw⟩
    cases chunk with
    | char c => cases hraw
    | link raw' new =>
      cases hraw
      exact ⟨new, hchunk⟩
  · rintro ⟨new, hchunk⟩
    exact ⟨_, hchunk, rfl⟩

lemma link_notMem_chars (raw new s : Text) : Chunk.link raw new ∉ s.map .char := by
  intro hmem
  obtain ⟨c, -, hc⟩ := mem_map.mp hmem
  cases hc

lemma one_link {s t raw new raw' new' : Text} {pre post : List Chunk}
    (h : s.map .char ++ .link raw new :: t.map .char = pre ++ .link raw' new' :: post) :
    pre = s.map .char ∧ raw' = raw ∧ new' = new ∧ post = t.map .char := by
  induction s generalizing pre with
  | nil =>
    cases pre with
    | nil =>
      obtain ⟨hlink, hpost⟩ := List.cons.inj h
      obtain ⟨hraw, hnew⟩ := Chunk.link.inj hlink
      exact ⟨rfl, hraw.symm, hnew.symm, hpost.symm⟩
    | cons chunk pre =>
      obtain ⟨-, htail⟩ := List.cons.inj h
      exact absurd (by rw [htail]; simp) (link_notMem_chars raw' new' t)
  | cons c s ih =>
    cases pre with
    | nil => cases (List.cons.inj h).1
    | cons chunk pre =>
      obtain ⟨rfl, htail⟩ := List.cons.inj h
      obtain ⟨rfl, hrest⟩ := ih htail
      exact ⟨rfl, hrest⟩

/-- The links that are replaced, when `out` is written for what a link holds. -/
structure Cutting (out : Text → Text) where
  asked : Text → Bool
  kept : ∀ raw, asked raw = false → out raw = bracketed raw

variable {out : Text → Text}

section

variable (K : Cutting out)

def Cutting.cut (raw : Text) : List Chunk :=
  if K.asked raw then [.link raw (out raw)] else (bracketed raw).map .char

def segmentChunksFor : ℕ → Text → List Chunk
  | 0, rest => rest.map .char
  | fuel + 1, rest =>
    match splitOnce ['[', '['] rest with
    | none => rest.map .char
    | some (before, behind) =>
      match splitOnce [']', ']'] behind with
      | none => rest.map .char
      | some (raw, after) => before.map .char ++ K.cut raw ++ segmentChunksFor fuel after

def segmentChunks (seg : Text) : List Chunk := segmentChunksFor K seg.length seg

def Piece.chunks : Piece → List Chunk
  | .text chars => segmentChunks K chars
  | .code chars => chars.map .char

def lineChunks (line : Text) : List Chunk := (codePieces line).flatMap (Piece.chunks K)

def blankedChunks (line : Text) : List Chunk :=
  (codePieces line).flatMap fun piece => match piece with
    | .text chars => segmentChunks K chars
    | .code chars => List.replicate chars.length (.char ' ')

end

variable {K : Cutting out} {line : Text}

lemma Cutting.old (raw : Text) : (K.cut raw).flatMap Chunk.old = bracketed raw := by
  rw [cut]
  split
  · exact append_nil _
  · exact flatMap_old_chars _

lemma Cutting.new (raw : Text) : (K.cut raw).flatMap Chunk.new = out raw := by
  rw [cut]
  split
  · exact append_nil _
  · rename_i hasked
    rw [flatMap_new_chars, K.kept raw (Bool.not_eq_true _ ▸ hasked)]

lemma old_segmentChunksFor (fuel : ℕ) (s : Text) :
    (segmentChunksFor K fuel s).flatMap Chunk.old = s := by
  induction fuel generalizing s with
  | zero => exact flatMap_old_chars s
  | succ fuel ih =>
    rw [segmentChunksFor]
    cases hopen : splitOnce ['[', '['] s with
    | none => exact flatMap_old_chars s
    | some parts =>
      obtain ⟨before, behind⟩ := parts
      obtain ⟨hs, -⟩ := splitOnce_pair_eq_some.mp hopen
      dsimp only
      cases hclose : splitOnce [']', ']'] behind with
      | none => exact flatMap_old_chars s
      | some parts =>
        obtain ⟨raw, after⟩ := parts
        obtain ⟨hbehind, -⟩ := splitOnce_pair_eq_some.mp hclose
        dsimp only
        rw [flatMap_append, flatMap_append, flatMap_old_chars, K.old, ih, hs, hbehind]
        simp [bracketed]

lemma new_segmentChunksFor (fuel : ℕ) (s : Text) :
    (segmentChunksFor K fuel s).flatMap Chunk.new = rewriteSegmentFor out fuel s := by
  induction fuel generalizing s with
  | zero => exact flatMap_new_chars s
  | succ fuel ih =>
    rw [segmentChunksFor, rewriteSegmentFor]
    cases splitOnce ['[', '['] s with
    | none => exact flatMap_new_chars s
    | some parts =>
      dsimp only
      cases splitOnce [']', ']'] parts.2 with
      | none => exact flatMap_new_chars s
      | some parts' =>
        dsimp only
        rw [flatMap_append, flatMap_append, flatMap_new_chars, K.new, ih]

lemma old_segmentChunks : (segmentChunks K s).flatMap Chunk.old = s :=
  old_segmentChunksFor _ s

lemma new_segmentChunks :
    (segmentChunks K s).flatMap Chunk.new = rewriteSegment out s :=
  new_segmentChunksFor _ s

lemma link_segmentChunksFor {fuel : ℕ} {s raw new : Text}
    (h : .link raw new ∈ segmentChunksFor K fuel s) :
    K.asked raw ∧ new = out raw ∧ NoDouble ']' (raw ++ [']']) ∧ ∀ c ∈ raw, c ∈ s := by
  have hchars := link_notMem_chars raw new
  induction fuel generalizing s with
  | zero => exact absurd h (hchars s)
  | succ fuel ih =>
    rw [segmentChunksFor] at h
    cases hopen : splitOnce ['[', '['] s with
    | none =>
      rw [hopen] at h
      exact absurd h (hchars s)
    | some parts =>
      obtain ⟨before, behind⟩ := parts
      obtain ⟨hs, -⟩ := splitOnce_pair_eq_some.mp hopen
      rw [hopen] at h
      dsimp only at h
      cases hclose : splitOnce [']', ']'] behind with
      | none =>
        rw [hclose] at h
        exact absurd h (hchars s)
      | some parts =>
        obtain ⟨raw', after⟩ := parts
        obtain ⟨hbehind, hno⟩ := splitOnce_pair_eq_some.mp hclose
        rw [hclose] at h
        dsimp only at h
        rw [mem_append, mem_append, Cutting.cut] at h
        rcases h with (h | h) | h
        · exact absurd h (hchars before)
        · split at h
          · rename_i hasked
            obtain ⟨rfl, rfl⟩ := Chunk.link.inj (mem_singleton.mp h)
            exact ⟨hasked, rfl, hno, fun c hc => by rw [hs, hbehind]; simp [hc]⟩
          · exact absurd h (hchars _)
        · obtain ⟨hasked, hnew, hno', hsub⟩ := ih h
          exact ⟨hasked, hnew, hno', fun c hc => by rw [hs, hbehind]; simp [hsub c hc]⟩

lemma Piece.old_chunks (piece : Piece) : (piece.chunks K).flatMap Chunk.old = piece.chars := by
  cases piece with
  | text chars => exact old_segmentChunks chars
  | code chars => exact flatMap_old_chars chars

lemma Piece.new_chunks (piece : Piece) :
    (piece.chunks K).flatMap Chunk.new = (piece.rewrite out).chars := by
  cases piece with
  | text chars => exact new_segmentChunks chars
  | code chars => exact flatMap_new_chars chars

lemma old_blankedChunks (line : Text) :
    (blankedChunks K line).flatMap Chunk.old = blankInlineCode line := by
  rw [blankedChunks, blankInlineCode, flatMap_assoc]
  refine flatMap_congr fun piece _ => ?_
  cases piece with
  | text chars => exact old_segmentChunks chars
  | code chars =>
    show (List.replicate chars.length (Chunk.char ' ')).flatMap Chunk.old =
      List.replicate chars.length ' '
    rw [← map_replicate, flatMap_old_chars]

lemma raws_blankedChunks (line : Text) :
    (blankedChunks K line).filterMap Chunk.raw = (lineChunks K line).filterMap Chunk.raw := by
  rw [blankedChunks, lineChunks, filterMap_flatMap, filterMap_flatMap]
  refine flatMap_congr fun piece _ => ?_
  cases piece with
  | text chars => rfl
  | code chars =>
    show (List.replicate chars.length (Chunk.char ' ')).filterMap Chunk.raw =
      (chars.map Chunk.char).filterMap Chunk.raw
    rw [← map_replicate, raws_chars, raws_chars]

lemma link_blankedChunks {raw new : Text} (h : .link raw new ∈ blankedChunks K line) :
    .link raw new ∈ lineChunks K line := by
  obtain ⟨piece, hpiece, hlink⟩ := mem_flatMap.mp h
  refine mem_flatMap.mpr ⟨piece, hpiece, ?_⟩
  cases piece with
  | text chars => exact hlink
  | code chars => cases eq_of_mem_replicate hlink

/-! ### Code spans -/

def tick (c : Char) : Bool := c = '\x60'

def ofSpan : Spans.Piece Char → Piece
  | .text chars => .text chars
  | .span chars => .code chars

lemma ticks_eq : ticks s = Spans.run tick s := rfl

lemma exists_fuel {c : Char} {s : Text} {fuel : ℕ} (h : (c :: s).length ≤ fuel) :
    ∃ n, fuel = n + 1 ∧ s.length ≤ n :=
  ⟨fuel - 1, by simp only [length_cons] at h; omega⟩

lemma length_drop_run {c : Char} {s : Text} {n : ℕ} (hc : tick c) (h : s.length ≤ n) :
    ((c :: s).drop (Spans.run tick (c :: s))).length ≤ n := by
  rw [Spans.run_cons_pos hc, drop_succ_cons, length_drop]
  omega

lemma spanEnd_eq (opening : ℕ) {fuel : ℕ} {s : Text} (h : s.length ≤ fuel) :
    spanEnd opening fuel s = Spans.spanEnd tick opening s := by
  fun_induction Spans.spanEnd tick opening s generalizing fuel with
  | case1 => cases fuel <;> rfl
  | case2 c s hc hrun =>
    obtain ⟨fuel, rfl, hs⟩ := exists_fuel h
    rw [spanEnd, if_pos (by simpa [tick] using hc), ticks_eq, if_pos hrun]
  | case3 c s hc hrun ih =>
    obtain ⟨fuel, rfl, hs⟩ := exists_fuel h
    rw [spanEnd, if_pos (by simpa [tick] using hc), ticks_eq, if_neg hrun,
      ih (length_drop_run hc hs)]
  | case4 c s hc ih =>
    obtain ⟨fuel, rfl, hs⟩ := exists_fuel h
    rw [spanEnd, if_neg (by simpa [tick] using hc), ih hs]

lemma map_ofSpan_pushText (chars : Text) (spans : List (Spans.Piece Char)) :
    (Spans.pushText chars spans).map ofSpan = pushText chars (spans.map ofSpan) := by
  cases spans with
  | nil => rfl
  | cons p spans => cases p <;> rfl

lemma codePiecesFor_eq {fuel : ℕ} {s : Text} (h : s.length ≤ fuel) :
    codePiecesFor fuel s = (Spans.pieces tick s).map ofSpan := by
  fun_induction Spans.pieces tick s generalizing fuel with
  | case1 => cases fuel <;> rfl
  | case2 c s hc close hclose ih =>
    obtain ⟨fuel, rfl, hs⟩ := exists_fuel h
    have hlen := (drop_sublist close _).length_le.trans (length_drop_run hc hs)
    rw [codePiecesFor, if_neg (by simpa [tick] using hc)]
    simp only [ticks_eq, spanEnd_eq _ le_rfl, hclose]
    rw [ih hlen, map_cons, ofSpan]
  | case3 c s hc hnone ih =>
    obtain ⟨fuel, rfl, hs⟩ := exists_fuel h
    rw [codePiecesFor, if_neg (by simpa [tick] using hc)]
    simp only [ticks_eq, spanEnd_eq _ le_rfl, hnone]
    rw [ih (length_drop_run hc hs), map_ofSpan_pushText]
  | case4 c s hc ih =>
    obtain ⟨fuel, rfl, hs⟩ := exists_fuel h
    rw [codePiecesFor, if_pos (by simpa [tick] using hc), ih hs, map_ofSpan_pushText]

lemma codePieces_eq (line : Text) :
    codePieces line = (Spans.pieces tick line).map ofSpan :=
  codePiecesFor_eq le_rfl

lemma flatten_codePieces (line : Text) : (codePieces line).flatMap Piece.chars = line := by
  have hspans : (Spans.pieces tick line).flatMap Spans.Piece.content = line :=
    Spans.flatten_pieces line
  have hchars : (fun p => Piece.chars (ofSpan p)) = Spans.Piece.content := by
    funext p
    cases p <;> rfl
  rw [codePieces_eq, flatMap_map, hchars, hspans]

lemma old_lineChunks (line : Text) : (lineChunks K line).flatMap Chunk.old = line := by
  rw [lineChunks, flatMap_assoc]
  refine Eq.trans ?_ (flatten_codePieces line)
  exact congrArg (fun f => List.flatMap f (codePieces line)) (funext Piece.old_chunks)

lemma new_lineChunks (line : Text) :
    (lineChunks K line).flatMap Chunk.new = rewriteLine out line := by
  rw [lineChunks, flatMap_assoc, rewriteLine]
  exact congrArg (fun f => List.flatMap f (codePieces line)) (funext Piece.new_chunks)

lemma link_lineChunks {raw new : Text} (h : .link raw new ∈ lineChunks K line) :
    K.asked raw ∧ new = out raw ∧ NoDouble ']' (raw ++ [']']) ∧ ∀ c ∈ raw, c ∈ line := by
  obtain ⟨piece, hpiece, hlink⟩ := mem_flatMap.mp h
  cases piece with
  | code chars => exact absurd hlink (link_notMem_chars raw new chars)
  | text chars =>
    obtain ⟨hasked, hnew, hno, hsub⟩ := link_segmentChunksFor hlink
    refine ⟨hasked, hnew, hno, fun c hc => ?_⟩
    rw [← flatten_codePieces line]
    exact mem_flatMap.mpr ⟨_, hpiece, hsub c hc⟩

lemma rewriteLine_eq_self (h : ∀ raw new, .link raw new ∉ lineChunks K line) :
    rewriteLine out line = line := by
  conv_rhs => rw [← old_lineChunks (K := K) line]
  rw [← new_lineChunks (K := K)]
  refine flatMap_congr fun chunk hchunk => ?_
  cases chunk with
  | char c => rfl
  | link raw new => exact absurd hchunk (h raw new)

def Piece.spanned (K : Cutting out) : Piece → Spans.Piece Chunk
  | .text chars => .text (segmentChunks K chars)
  | .code chars => .span (chars.map .char)

lemma flatten_spanned (line : Text) :
    ((codePieces line).map (Piece.spanned K)).flatMap Spans.Piece.content = lineChunks K line := by
  rw [flatMap_map, lineChunks]
  refine flatMap_congr fun piece _ => ?_
  cases piece <;> rfl

/-- What is written for the links of a line makes no run of backticks, and joins none. -/
structure Unticked (K : Cutting out) (line : Text) : Prop where
  ne_nil : ∀ raw new, .link raw new ∈ lineChunks K line → new ≠ []
  runs : ∀ raw new, .link raw new ∈ lineChunks K line →
    Spans.runs tick new <+ Spans.runs tick (bracketed raw)
  apart : ∀ pre raw new post, lineChunks K line = pre ++ .link raw new :: post →
    Spans.Apart tick (pre.flatMap Chunk.new) new ∧ Spans.Apart tick new (post.flatMap Chunk.new)

lemma apart_bracketed (s raw t : Text) :
    Spans.Apart tick s (bracketed raw) ∧ Spans.Apart tick (bracketed raw) t := by
  constructor
  · intro a _ b hb _
    cases hb
    decide
  · intro a ha b _ htick
    have hlast : (bracketed raw).getLast? = some ']' := by
      rw [bracketed, ← cons_append, ← cons_append]
      exact getLast?_append_of_ne_nil _ (cons_ne_nil _ _)
    rw [hlast] at ha
    cases ha
    exact absurd htick (by decide)

lemma Unticked.substitutes (h : Unticked K line) :
    Spans.Substitutes tick Chunk.old Chunk.new [] (lineChunks K line) [] := by
  intro pre chunk post hsplit
  cases chunk with
  | char c => exact ⟨cons_ne_nil c [], .inl rfl⟩
  | link raw new =>
    have hmem : .link raw new ∈ lineChunks K line := by rw [hsplit]; simp
    obtain ⟨hbefore, hbehind⟩ := h.apart pre raw new post hsplit
    rw [append_nil]
    exact ⟨cons_ne_nil _ _, .inr {
      ne_nil := h.ne_nil raw new hmem
      runs := h.runs raw new hmem
      before := (apart_bracketed _ raw []).1
      behind := (apart_bracketed [] raw _).2
      before' := hbefore
      behind' := hbehind }⟩

/-- When no run of backticks is made or joined, the code spans of a line are those of the
rewritten line. -/
theorem codePieces_rewriteLine (h : Unticked K line) :
    codePieces (rewriteLine out line) = (codePieces line).map (Piece.rewrite out) := by
  have hold : ((codePieces line).map (Piece.spanned K)).map
      (Spans.Piece.map (·.flatMap Chunk.old)) = Spans.pieces tick line := by
    rw [codePieces_eq, map_map, map_map]
    conv_rhs => rw [← map_id (Spans.pieces tick line)]
    refine map_congr_left fun p _ => ?_
    cases p with
    | text chars => exact congrArg Spans.Piece.text (old_segmentChunks chars)
    | span chars => exact congrArg Spans.Piece.span (flatMap_old_chars chars)
  have hcut := Spans.Cut.substitute (hold ▸ Spans.cut_pieces line)
    ((flatten_spanned line).symm ▸ h.substitutes) fun xs hxs => by
      obtain ⟨piece, -, hpiece⟩ := mem_map.mp hxs
      cases piece with
      | text chars => cases hpiece
      | code chars =>
        cases hpiece
        rw [flatMap_new_chars, flatMap_old_chars]
  have hpieces := Spans.pieces_of_cut hcut
  rw [Spans.flatMap_content_map, flatten_spanned, new_lineChunks] at hpieces
  rw [codePieces_eq, hpieces, map_map, map_map]
  refine map_congr_left fun piece _ => ?_
  cases piece with
  | text chars => exact congrArg Piece.text (new_segmentChunks chars)
  | code chars => exact congrArg Piece.code (flatMap_new_chars chars)

lemma new_blankedChunks (h : Unticked K line) :
    (blankedChunks K line).flatMap Chunk.new = blankInlineCode (rewriteLine out line) := by
  rw [blankedChunks, blankInlineCode, flatMap_assoc, codePieces_rewriteLine h, flatMap_map]
  refine flatMap_congr fun piece _ => ?_
  cases piece with
  | text chars => exact new_segmentChunks chars
  | code chars =>
    show (List.replicate chars.length (Chunk.char ' ')).flatMap Chunk.new =
      List.replicate chars.length ' '
    rw [← map_replicate, flatMap_new_chars]

end Wiki
