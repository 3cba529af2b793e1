/-
The repair of session times (`repair_session_times` of `ai-memory-store/src/ops.rs`).

A batch of candidate times is read against the sessions of one scope, each candidate
against the row that the ones before it have left.

A dry run rolls back.  The detail of the audit row is kept as its entries.
-/
import Mathlib.Data.List.TakeWhile
import AiMemory.Store.Projects

open Table List

namespace SessionTimes

open Store Projects
open Bool (and_eq_true not_eq_true' eq_false_iff)
open Option (any_none getD_none any_some getD_some none_or some_ne_none elim_some)

/-! ### Candidates and reports -/

structure SessionTimesCandidate where
  sessionId : SessionId
  startedAtUs : ℤ
  endedAtUs : Option ℤ

inductive SessionTimesSkipReason
  | notFound | notFlattened | unchanged | invalidTime | invertedTimes | futureTime
  deriving DecidableEq

def repairTimesFutureSlackUs : ℤ := 5 * 60 * 1000000

structure RepairedSessionTimes where
  sessionId : SessionId
  oldStartedAtUs : ℤ
  oldEndedAtUs : Option ℤ
  newStartedAtUs : ℤ
  newEndedAtUs : Option ℤ
  endKeptOpen : Bool

structure SkippedSessionTimes where
  sessionId : SessionId
  reason : SessionTimesSkipReason

structure RepairSessionTimesSummary where
  repaired : List RepairedSessionTimes
  skipped : List SkippedSessionTimes

@[ext] structure SessionTable where
  rows : List SessionRow
  keyed : KeyUnique SessionRow.id rows

structure RepairAudit where
  at' : ℤ
  workspaceId : WorkspaceId
  projectId : ProjectId
  authorId : Option UserId
  detail : List (SessionId × ℤ × Option ℤ × ℤ × Option ℤ)

structure TimesDb where
  sessions : SessionTable
  auditLog : List RepairAudit

def judge (now : ℤ) (row : SessionRow) (c : SessionTimesCandidate) :
    Except SessionTimesSkipReason RepairedSessionTimes :=
  -- candidate sanity first, whatever the row looks like
  if c.startedAtUs ≤ 0 ∨ c.endedAtUs.any (· ≤ 0) then .error .invalidTime
  else if c.endedAtUs.any (· < c.startedAtUs) then .error .invertedTimes
  else
    let futureCutoff := now + repairTimesFutureSlackUs
    if c.startedAtUs > futureCutoff ∨ c.endedAtUs.any (· > futureCutoff) then .error .futureTime
    else
      -- no end is imposed on a session that is still open
      let newEndedAtUs := if row.endedAt = none then none else c.endedAtUs
      if c.startedAtUs = row.startedAt ∧ newEndedAtUs.all (some · = row.endedAt) then
        .error .unchanged
      -- the signature of the bug: the row is dated after the transcript's own end
      else if row.startedAt ≤ c.endedAtUs.getD c.startedAtUs then .error .notFlattened
      else if (newEndedAtUs.or row.endedAt).any (· < c.startedAtUs) then .error .invertedTimes
      else .ok
        { sessionId := c.sessionId
          oldStartedAtUs := row.startedAt
          oldEndedAtUs := row.endedAt
          newStartedAtUs := c.startedAtUs
          newEndedAtUs := newEndedAtUs
          endKeptOpen := row.endedAt.isNone && c.endedAtUs.isSome }

def inScope (ws : WorkspaceId) (proj : ProjectId) (sid : SessionId) (r : SessionRow) : Bool :=
  r.id = sid && r.workspaceId = ws && r.projectId = proj

/-- `started_at = ?1, ended_at = COALESCE(?2, ended_at)`. -/
def retimed (rep : RepairedSessionTimes) (r : SessionRow) : SessionRow :=
  { r with startedAt := rep.newStartedAtUs, endedAt := rep.newEndedAtUs.or r.endedAt }

def SessionTable.setTimes (t : SessionTable) (ws : WorkspaceId) (proj : ProjectId)
    (rep : RepairedSessionTimes) : SessionTable where
  rows := update (inScope ws proj rep.sessionId) (retimed rep) t.rows
  keyed := t.keyed.update fun _ => rfl

def repairOne (ws : WorkspaceId) (proj : ProjectId) (now : ℤ)
    (st : SessionTable × RepairSessionTimesSummary) (c : SessionTimesCandidate) :
    SessionTable × RepairSessionTimesSummary :=
  let skip (reason : SessionTimesSkipReason) :=
    (st.1, { st.2 with skipped := st.2.skipped ++ [⟨c.sessionId, reason⟩] })
  match st.1.rows.find? (inScope ws proj c.sessionId) with
  | none => skip .notFound
  | some row => match judge now row c with
    | .error reason => skip reason
    | .ok rep =>
      (st.1.setTimes ws proj rep, { st.2 with repaired := st.2.repaired ++ [rep] })

def repairAll (ws : WorkspaceId) (proj : ProjectId) (now : ℤ) (candidates : List SessionTimesCandidate)
    (t : SessionTable) : SessionTable × RepairSessionTimesSummary :=
  candidates.foldl (repairOne ws proj now) (t, ⟨[], []⟩)

def repairSessionTimes (db : TimesDb) (ws : WorkspaceId) (proj : ProjectId)
    (candidates : List SessionTimesCandidate) (now : ℤ) (author : Option UserId) (commit : Bool) :
    TimesDb × RepairSessionTimesSummary :=
  let (sessions, summary) := repairAll ws proj now candidates db.sessions
  let auditLog := if summary.repaired = [] then db.auditLog else
    db.auditLog ++ [⟨now, ws, proj, author, summary.repaired.map fun r =>
      (r.sessionId, r.oldStartedAtUs, r.oldEndedAtUs, r.newStartedAtUs, r.newEndedAtUs)⟩]
  (if commit then ⟨sessions, auditLog⟩ else db, summary)

/-! ### One row -/

def SessionTimesCandidate.until (c : SessionTimesCandidate) : ℤ := c.endedAtUs.getD c.startedAtUs

def SessionTimesCandidate.sane (now : ℤ) (c : SessionTimesCandidate) : Bool :=
  0 < c.startedAtUs && c.startedAtUs ≤ c.until && c.until ≤ now + repairTimesFutureSlackUs

def accepts (row : SessionRow) (c : SessionTimesCandidate) : Bool :=
  c.until < row.startedAt && !(c.endedAtUs = none && row.endedAt.any (· < c.startedAtUs))

def withTimes (row : SessionRow) (c : SessionTimesCandidate) : SessionRow :=
  { row with startedAt := c.startedAtUs
             endedAt := if row.endedAt = none then none else c.endedAtUs.or row.endedAt }

def repairRow (ws : WorkspaceId) (proj : ProjectId) (now : ℤ) (row : SessionRow)
    (c : SessionTimesCandidate) : SessionRow :=
  if inScope ws proj c.sessionId row && c.sane now && accepts row c then withTimes row c else row

section

variable {ws : WorkspaceId} {proj : ProjectId} {now : ℤ}

variable {r row : SessionRow} {c : SessionTimesCandidate} {cs : List SessionTimesCandidate}

lemma inScope_iff {sid : SessionId} :
    inScope ws proj sid r ↔ r.id = sid ∧ r.workspaceId = ws ∧ r.projectId = proj := by
  rw [inScope, and_eq_true, and_eq_true, decide_eq_true_eq, decide_eq_true_eq,
    decide_eq_true_eq, and_assoc]

lemma sane_iff : c.sane now ↔
    0 < c.startedAtUs ∧ c.startedAtUs ≤ c.until ∧ c.until ≤ now + repairTimesFutureSlackUs := by
  rw [SessionTimesCandidate.sane, and_eq_true, and_eq_true, decide_eq_true_eq,
    decide_eq_true_eq, decide_eq_true_eq, and_assoc]

lemma sane_iff_checks : c.sane now ↔
    ¬ (c.startedAtUs ≤ 0 ∨ c.endedAtUs.any (· ≤ 0)) ∧
      ¬ c.endedAtUs.any (· < c.startedAtUs) ∧
      ¬ (c.startedAtUs > now + repairTimesFutureSlackUs ∨
        c.endedAtUs.any (· > now + repairTimesFutureSlackUs)) := by
  rw [sane_iff, SessionTimesCandidate.until]
  cases c.endedAtUs with
  | none =>
    rw [any_none, any_none, any_none, getD_none]
    simp only [Bool.false_eq_true, or_false, not_false_eq_true, true_and]
    omega
  | some e =>
    rw [any_some, any_some, any_some, getD_some, decide_eq_true_eq,
      decide_eq_true_eq, decide_eq_true_eq]
    omega

lemma judge_of_not_sane
    (h : ¬ c.sane now) : ∃ reason, judge now row c = .error reason := by
  rw [sane_iff_checks] at h
  rw [judge]
  by_cases hpos : c.startedAtUs ≤ 0 ∨ c.endedAtUs.any (· ≤ 0)
  · exact ⟨_, if_pos hpos⟩
  by_cases hinv : c.endedAtUs.any (· < c.startedAtUs)
  · exact ⟨_, (if_neg hpos).trans (if_pos hinv)⟩
  · have hfut := not_not.mp fun hfut => h ⟨hpos, hinv, hfut⟩
    exact ⟨_, (if_neg hpos).trans ((if_neg hinv).trans (if_pos hfut))⟩

lemma any_end_left (hle : c.startedAtUs ≤ c.until) :
    ((if row.endedAt = none then none else c.endedAtUs).or row.endedAt).any (· < c.startedAtUs) =
      (c.endedAtUs = none && row.endedAt.any (· < c.startedAtUs)) := by
  rw [SessionTimesCandidate.until] at hle
  cases hrow : row.endedAt with
  | none => rw [if_pos rfl, none_or, any_none, Bool.and_false]
  | some e =>
    rw [if_neg (some_ne_none e)]
    cases hend : c.endedAtUs with
    | none => rw [none_or, decide_eq_true rfl, Bool.true_and]
    | some b =>
      rw [hend, getD_some] at hle
      rw [Option.some_or, any_some, decide_eq_false (Int.not_lt.mpr hle),
        decide_eq_false (some_ne_none b), Bool.false_and]

lemma judge_of_sane (h : c.sane now) :
    (accepts row c → ∃ rep, judge now row c = .ok rep ∧ rep.sessionId = c.sessionId ∧
      retimed rep row = withTimes row c) ∧
    (accepts row c = false → ∃ reason, judge now row c = .error reason) := by
  obtain ⟨hpos, hinv, hfut⟩ := sane_iff_checks.mp h
  obtain ⟨-, hle, -⟩ := sane_iff.mp h
  rw [judge, if_neg hpos, if_neg hinv]
  have huntil : c.endedAtUs.getD c.startedAtUs = c.until := rfl
  simp only [if_neg hfut, any_end_left hle, huntil]
  constructor
  · intro hacc
    rw [accepts, and_eq_true, decide_eq_true_eq, not_eq_true'] at hacc
    obtain ⟨hlt, hend⟩ := hacc
    have hchanged : ¬ (c.startedAtUs = row.startedAt ∧
        (if row.endedAt = none then none else c.endedAtUs).all (some · = row.endedAt)) := by
      rintro ⟨heq, -⟩
      omega
    rw [if_neg hchanged, if_neg (by omega), hend, if_neg Bool.false_ne_true]
    refine ⟨_, rfl, rfl, ?_⟩
    rw [retimed, withTimes]
    cases row.endedAt with
    | none => rfl
    | some e => rfl
  · intro hacc
    rw [accepts, Bool.and_eq_false_iff, decide_eq_false_iff_not, Bool.not_eq_false'] at hacc
    by_cases hsame : c.startedAtUs = row.startedAt ∧
        (if row.endedAt = none then none else c.endedAtUs).all (some · = row.endedAt) = true
    · exact ⟨_, if_pos hsame⟩
    rw [if_neg hsame]
    by_cases hflat : row.startedAt ≤ c.until
    · exact ⟨_, if_pos hflat⟩
    · rw [if_neg hflat]
      exact ⟨_, if_pos (hacc.resolve_left (not_not.mpr (Int.not_le.mp hflat)))⟩

def Upright (r : SessionRow) : Prop := ∀ e, r.endedAt = some e → r.startedAt ≤ e

/-- What repairs make of a row: only the times change, an end is neither imposed nor taken back,
and the start only moves back, to before the end. -/
structure RowRepair (r r' : SessionRow) : Prop where
  same : r' = { r with startedAt := r'.startedAt, endedAt := r'.endedAt }
  «open» : r'.endedAt = none ↔ r.endedAt = none
  moved : r' = r ∨ r'.startedAt < r.startedAt ∧ Upright r'

namespace RowRepair

lemma refl (r : SessionRow) : RowRepair r r := ⟨rfl, Iff.rfl, .inl rfl⟩

lemma id_eq {r r' : SessionRow} (h : RowRepair r r') : r'.id = r.id := by rw [h.same]

lemma trans {r r' r'' : SessionRow} (h : RowRepair r r') (h' : RowRepair r' r'') :
    RowRepair r r'' where
  same := h'.same.trans (congrArg (fun x : SessionRow =>
    { x with startedAt := r''.startedAt, endedAt := r''.endedAt }) h.same)
  «open» := h'.open.trans h.open
  moved := by
    rcases h'.moved with rfl | ⟨hlt', hup'⟩
    · exact h.moved
    · rcases h.moved with rfl | ⟨hlt, -⟩
      · exact .inr ⟨hlt', hup'⟩
      · exact .inr ⟨Int.lt_trans hlt' hlt, hup'⟩

end RowRepair

lemma repairRow_pos (hscope : inScope ws proj c.sessionId r) (hsane : c.sane now)
    (hacc : accepts r c) : repairRow ws proj now r c = withTimes r c := by
  rw [repairRow, hscope, hsane, hacc]
  rfl

lemma withTimes_law (hsane : c.sane now) (hacc : accepts r c) :
    RowRepair r (withTimes r c) ∧ (withTimes r c).startedAt < r.startedAt ∧
      Upright (withTimes r c) := by
  obtain ⟨-, hle, -⟩ := sane_iff.mp hsane
  rw [accepts, and_eq_true, decide_eq_true_eq, not_eq_true'] at hacc
  obtain ⟨hlt, hend⟩ := hacc
  have hstart : (withTimes r c).startedAt < r.startedAt := Int.lt_of_le_of_lt hle hlt
  have hup : Upright (withTimes r c) := by
    intro e he
    show c.startedAtUs ≤ e
    rw [withTimes] at he
    cases hrow : r.endedAt with
    | none =>
      rw [hrow] at he
      cases he
    | some e₀ =>
      rw [hrow] at he hend
      rw [SessionTimesCandidate.until] at hle
      cases hc : c.endedAtUs with
      | none =>
        -- the stored end is left
        rw [hc] at he hend
        rw [decide_eq_true rfl, Bool.true_and, any_some, decide_eq_false_iff_not] at hend
        cases he
        exact Int.not_lt.mp hend
      | some b =>
        rw [hc] at he hle
        cases he
        exact hle
  refine ⟨⟨rfl, ?_, .inr ⟨hstart, hup⟩⟩, hstart, hup⟩
  rw [withTimes]
  cases r.endedAt with
  | none => exact Iff.rfl
  | some e => cases c.endedAtUs <;> simp

lemma repairRow_law (r : SessionRow) (c : SessionTimesCandidate) :
    RowRepair r (repairRow ws proj now r c) := by
  rw [repairRow]
  split
  · rename_i h
    rw [and_eq_true, and_eq_true] at h
    exact (withTimes_law h.1.2 h.2).1
  · exact .refl r

lemma repairRow_ne :
    repairRow ws proj now r c ≠ r ↔
      (inScope ws proj c.sessionId r ∧ c.sane now) ∧ accepts r c := by
  rw [repairRow, ← and_eq_true, ← and_eq_true]
  split
  · rename_i h
    refine iff_of_true (fun heq => ?_) h
    rw [and_eq_true, and_eq_true] at h
    obtain ⟨-, hlt, -⟩ := withTimes_law h.1.2 h.2
    rw [heq] at hlt
    exact Int.lt_irrefl _ hlt
  · rename_i h
    exact iff_of_false (not_not.mpr rfl) h

variable (st : SessionTable × RepairSessionTimesSummary)

lemma repairOne_cases
    (c : SessionTimesCandidate) :
    ((∀ r ∈ st.1.rows, repairRow ws proj now r c = r) ∧ (repairOne ws proj now st c).1 = st.1 ∧
      (repairOne ws proj now st c).2.repaired = st.2.repaired) ∨
    ∃ row ∈ st.1.rows, ∃ rep, repairRow ws proj now row c ≠ row ∧
      rep.sessionId = c.sessionId ∧ retimed rep row = withTimes row c ∧
      (repairOne ws proj now st c).1 = st.1.setTimes ws proj rep ∧
      (repairOne ws proj now st c).2.repaired = st.2.repaired ++ [rep] := by
  cases hfind : st.1.rows.find? (inScope ws proj c.sessionId) with
  | none =>
    rw [repairOne, hfind]
    refine .inl ⟨fun r hr => by_contra fun hne => ?_, rfl, rfl⟩
    exact find?_eq_none.mp hfind r hr (repairRow_ne.mp hne).1.1
  | some row =>
    have hscope := find?_some hfind
    have hrow := mem_of_find?_eq_some hfind
    -- no other row has the id
    have honly : ∀ r ∈ st.1.rows, inScope ws proj c.sessionId r = true → r = row := by
      intro r hr hr'
      exact st.1.keyed.eq hr hrow ((inScope_iff.mp hr').1.trans (inScope_iff.mp hscope).1.symm)
    by_cases htaken : c.sane now ∧ accepts row c
    · obtain ⟨rep, hok, hid, hrep⟩ := (judge_of_sane htaken.1).1 htaken.2
      have hone : repairOne ws proj now st c = (st.1.setTimes ws proj rep,
          { st.2 with repaired := st.2.repaired ++ [rep] }) := by
        simp only [repairOne, hfind, hok]
      rw [hone]
      exact .inr ⟨row, hrow, rep, repairRow_ne.mpr ⟨⟨hscope, htaken.1⟩, htaken.2⟩, hid, hrep,
        rfl, rfl⟩
    · have hjudge : ∃ reason, judge now row c = .error reason := by
        by_cases hsane : c.sane now
        · exact (judge_of_sane hsane).2 (eq_false_iff.mpr fun hacc => htaken ⟨hsane, hacc⟩)
        · exact judge_of_not_sane hsane
      obtain ⟨reason, hjudge⟩ := hjudge
      have hone : repairOne ws proj now st c = (st.1,
          { st.2 with skipped := st.2.skipped ++ [⟨c.sessionId, reason⟩] }) := by
        simp only [repairOne, hfind, hjudge]
      rw [hone]
      refine .inl ⟨fun r hr => by_contra fun hne => ?_, rfl, rfl⟩
      obtain ⟨⟨hr', hsane⟩, hacc⟩ := repairRow_ne.mp hne
      rw [honly r hr hr'] at hacc
      exact htaken ⟨hsane, hacc⟩

lemma repairOne_rows (c : SessionTimesCandidate) :
    (repairOne ws proj now st c).1.rows = st.1.rows.map (repairRow ws proj now · c) := by
  rcases repairOne_cases st c with ⟨hkeep, htable, -⟩ | ⟨row, hrow, rep, hne, hid, hrep, htable, -⟩
  · rw [htable]
    exact ((map_congr_left hkeep).trans (map_id' _)).symm
  · obtain ⟨⟨hscope, hsane⟩, hacc⟩ := repairRow_ne.mp hne
    rw [htable]
    show st.1.rows.map _ = _
    refine map_congr_left fun r hr => ?_
    rw [hid]
    by_cases hr' : inScope ws proj c.sessionId r
    · have heq : r = row :=
        st.1.keyed.eq hr hrow ((inScope_iff.mp hr').1.trans (inScope_iff.mp hscope).1.symm)
      rw [if_pos hr', heq, hrep, repairRow_pos hscope hsane hacc]
    · rw [if_neg hr', repairRow, eq_false_iff.mpr hr']
      rfl

lemma repairOne_repaired
    (c : SessionTimesCandidate) {sid : SessionId} :
    sid ∈ (repairOne ws proj now st c).2.repaired.map (·.sessionId) ↔
      sid ∈ st.2.repaired.map (·.sessionId) ∨
        ∃ r ∈ st.1.rows, r.id = sid ∧ repairRow ws proj now r c ≠ r := by
  rcases repairOne_cases st c with
    ⟨hkeep, -, hlist⟩ | ⟨row, hrow, rep, hne, hid, -, -, hlist⟩
  · rw [hlist]
    refine (or_iff_left ?_).symm
    rintro ⟨r, hr, -, hne⟩
    exact hne (hkeep r hr)
  · have hscope := inScope_iff.mp (repairRow_ne.mp hne).1.1
    rw [hlist, map_append, mem_append, map_singleton, mem_singleton]
    refine or_congr_right ⟨fun hsid => ⟨row, hrow, ?_, hne⟩, ?_⟩
    · rw [hsid, hid, hscope.1]
    · rintro ⟨r, -, hr, hne'⟩
      rw [← hr, hid, (inScope_iff.mp (repairRow_ne.mp hne').1.1).1]

def repairRows (ws : WorkspaceId) (proj : ProjectId) (now : ℤ) (r : SessionRow)
    (cs : List SessionTimesCandidate) : SessionRow :=
  cs.foldl (repairRow ws proj now) r

lemma repairRows_cons (r : SessionRow) (c : SessionTimesCandidate)
    (cs : List SessionTimesCandidate) :
    repairRows ws proj now r (c :: cs) = repairRows ws proj now (repairRow ws proj now r c) cs :=
  rfl

lemma repairRows_law (cs : List SessionTimesCandidate) (r : SessionRow) :
    RowRepair r (repairRows ws proj now r cs) := by
  induction cs generalizing r with
  | nil => exact .refl r
  | cons c cs ih => exact (repairRow_law r c).trans (ih _)

lemma repairRows_cons_ne :
    repairRows ws proj now r (c :: cs) ≠ r ↔ repairRow ws proj now r c ≠ r ∨
      repairRows ws proj now (repairRow ws proj now r c) cs ≠ repairRow ws proj now r c := by
  rw [repairRows_cons]
  by_cases hone : repairRow ws proj now r c = r
  · rw [hone]
    exact (or_iff_right (not_not.mpr rfl)).symm
  · refine iff_of_true (fun hback => ?_) (.inl hone)
    have hlt := ((repairRow_law r c).moved.resolve_left hone).1
    have hrest : RowRepair (repairRow ws proj now r c)
        (repairRows ws proj now (repairRow ws proj now r c) cs) := repairRows_law cs _
    rcases hrest.moved with heq | ⟨hlt', -⟩
    · exact hone (heq.symm.trans hback)
    · rw [hback] at hlt'
      omega

lemma repairRows_eq_self :
    repairRows ws proj now r cs = r ↔ ∀ c ∈ cs, repairRow ws proj now r c = r := by
  induction cs with
  | nil => exact iff_of_true rfl fun _ h => absurd h not_mem_nil
  | cons c cs ih =>
    rw [forall_mem_cons, ← not_iff_not]
    show repairRows ws proj now r (c :: cs) ≠ r ↔ _
    rw [repairRows_cons_ne, not_and_or]
    by_cases hone : repairRow ws proj now r c = r
    · rw [hone, ← ih]
    · exact iff_of_true (.inl hone) (.inl hone)

lemma foldl_repairOne (cs : List SessionTimesCandidate)
    (st : SessionTable × RepairSessionTimesSummary) :
    (cs.foldl (repairOne ws proj now) st).1.rows = st.1.rows.map (repairRows ws proj now · cs) ∧
      ∀ sid, sid ∈ (cs.foldl (repairOne ws proj now) st).2.repaired.map (·.sessionId) ↔
        sid ∈ st.2.repaired.map (·.sessionId) ∨
          ∃ r ∈ st.1.rows, r.id = sid ∧ repairRows ws proj now r cs ≠ r := by
  induction cs generalizing st with
  | nil =>
    refine ⟨(map_id'' (fun _ => rfl) _).symm, fun sid => (or_iff_left ?_).symm⟩
    rintro ⟨r, -, -, hne⟩
    exact hne rfl
  | cons c cs ih =>
    obtain ⟨hrows, hlist⟩ := ih (repairOne ws proj now st c)
    rw [foldl_cons]
    refine ⟨?_, fun sid => ?_⟩
    · rw [hrows, repairOne_rows, map_map]
      rfl
    · rw [hlist, repairOne_repaired, or_assoc, repairOne_rows]
      refine or_congr_right ?_
      constructor
      · rintro (⟨r, hr, hid, hne⟩ | ⟨r', hr', hid, hne⟩)
        · exact ⟨r, hr, hid, repairRows_cons_ne.mpr (.inl hne)⟩
        · obtain ⟨r, hr, rfl⟩ := mem_map.mp hr'
          exact ⟨r, hr, (repairRow_law r c).id_eq.symm.trans hid, repairRows_cons_ne.mpr (.inr hne)⟩
      · rintro ⟨r, hr, hid, hne⟩
        rcases repairRows_cons_ne.mp hne with hone | hrest
        · exact .inl ⟨r, hr, hid, hone⟩
        · exact .inr ⟨_, mem_map_of_mem hr, (repairRow_law r c).id_eq.trans hid, hrest⟩

/-! ### A second pass -/

def leftStart (start : ℤ) (cs : List SessionTimesCandidate) : ℤ :=
  cs.foldl (fun start c => if c.until < start then c.startedAtUs else start) start

def refuses (start «end» : ℤ) (c : SessionTimesCandidate) : Bool :=
  c.endedAtUs.elim («end» < c.startedAtUs) (start ≤ ·)

/-- Before the first candidate that the stored times do not refuse stands one without an end of
its own, and it starts before the start that is left in the end. -/
def SecondChance (start «end» : ℤ) (cs : List SessionTimesCandidate) : Prop :=
  match cs.dropWhile (refuses start «end») with
  | [] => False
  | d :: rest => ∃ c ∈ cs.takeWhile (refuses start «end»),
      c.endedAtUs = none ∧ c.startedAtUs < leftStart d.startedAtUs rest

def ownCandidates (now : ℤ) (sid : SessionId) (cs : List SessionTimesCandidate) :
    List SessionTimesCandidate :=
  cs.filter fun c => c.sessionId = sid && c.sane now

def Own (ws : WorkspaceId) (proj : ProjectId) (now : ℤ) (r : SessionRow)
    (cs : List SessionTimesCandidate) : Prop :=
  ∀ c ∈ cs, inScope ws proj c.sessionId r = true ∧ c.sane now = true

lemma RowRepair.inScope_eq {r r' : SessionRow} (h : RowRepair r r') (sid : SessionId) :
    inScope ws proj sid r' = inScope ws proj sid r := by
  rw [h.same, inScope, inScope]

lemma Own.repaired {r r' : SessionRow}
    (hown : Own ws proj now r cs) (h : RowRepair r r') : Own ws proj now r' cs := by
  intro c hc
  rw [h.inScope_eq]
  exact hown c hc

lemma repairRows_own (hws : r.workspaceId = ws) (hproj : r.projectId = proj)
    (cs : List SessionTimesCandidate) :
    repairRows ws proj now r cs = repairRows ws proj now r (ownCandidates now r.id cs) := by
  induction cs generalizing r with
  | nil => rfl
  | cons c cs ih =>
    have hlaw : RowRepair r (repairRow ws proj now r c) := repairRow_law r c
    have hrest := ih (r := repairRow ws proj now r c) (by rw [hlaw.same]; exact hws)
      (by rw [hlaw.same]; exact hproj)
    rw [repairRows_cons, hrest, hlaw.id_eq, ownCandidates, ownCandidates]
    by_cases hc : (decide (c.sessionId = r.id) && c.sane now)
    · rw [filter_cons, if_pos hc]
      rfl
    · rw [filter_cons, if_neg hc]
      have hkeep : repairRow ws proj now r c = r := by
        refine by_contra fun hne => hc ?_
        obtain ⟨⟨hscope, hsane⟩, -⟩ := repairRow_ne.mp hne
        rw [hsane, Bool.and_true, decide_eq_true_eq]
        exact (inScope_iff.mp hscope).1.symm
      rw [hkeep]

lemma own_ownCandidates (hws : r.workspaceId = ws)
    (hproj : r.projectId = proj) (cs : List SessionTimesCandidate) :
    Own ws proj now r (ownCandidates now r.id cs) := by
  intro c hc
  have hc := (mem_filter.mp hc).2
  rw [and_eq_true, decide_eq_true_eq] at hc
  exact ⟨inScope_iff.mpr ⟨hc.1.symm, hws, hproj⟩, hc.2⟩

lemma accepts_upright (hup : Upright r) :
    accepts r c ↔ c.until < r.startedAt := by
  rw [accepts, and_eq_true, decide_eq_true_eq, not_eq_true']
  refine and_iff_left_of_imp fun hlt => ?_
  rw [SessionTimesCandidate.until] at hlt
  cases hc : c.endedAtUs with
  | some b => rw [decide_eq_false (some_ne_none b), Bool.false_and]
  | none =>
    rw [hc, getD_none] at hlt
    rw [decide_eq_true rfl, Bool.true_and]
    cases he : r.endedAt with
    | none => rfl
    | some e =>
      have hle := hup e he
      rw [any_some, decide_eq_false_iff_not]
      omega

lemma Upright.repaired {r r' : SessionRow} (hup : Upright r) (h : RowRepair r r') :
    Upright r' := by
  rcases h.moved with rfl | ⟨-, hup'⟩
  · exact hup
  · exact hup'

lemma repairRows_upright (hup : Upright r) (hown : Own ws proj now r cs) :
    (repairRows ws proj now r cs).startedAt = leftStart r.startedAt cs := by
  induction cs generalizing r with
  | nil => rfl
  | cons c cs ih =>
    have hlaw : RowRepair r (repairRow ws proj now r c) := repairRow_law r c
    obtain ⟨⟨hscope, hsane⟩, hown⟩ := forall_mem_cons.mp hown
    have hown : Own ws proj now r cs := hown
    rw [repairRows_cons, ih (hup.repaired hlaw) (hown.repaired hlaw), leftStart, leftStart,
      foldl_cons]
    congr 1
    by_cases hlt : c.until < r.startedAt
    · rw [if_pos hlt, repairRow_pos hscope hsane ((accepts_upright hup).mpr hlt)]
      rfl
    · have hkeep : repairRow ws proj now r c = r := by_contra fun hne =>
        hlt ((accepts_upright hup).mp (repairRow_ne.mp hne).2)
      rw [if_neg hlt, hkeep]

lemma leftStart_le (hsane : ∀ c ∈ cs, c.sane now = true) (start : ℤ) :
    leftStart start cs ≤ start ∧ ∀ c ∈ cs, leftStart start cs ≤ c.until := by
  induction cs generalizing start with
  | nil => exact ⟨Int.le_refl _, fun _ h => absurd h not_mem_nil⟩
  | cons c cs ih =>
    obtain ⟨hc, hsane⟩ := forall_mem_cons.mp hsane
    obtain ⟨hle, hrest⟩ := ih hsane (if c.until < start then c.startedAtUs else start)
    obtain ⟨-, hin, -⟩ := sane_iff.mp hc
    rw [forall_mem_cons, leftStart, foldl_cons]
    show leftStart _ cs ≤ start ∧ leftStart _ cs ≤ c.until ∧ ∀ x ∈ cs, leftStart _ cs ≤ x.until
    have hnext : (if c.until < start then c.startedAtUs else start) ≤ start ∧
        (if c.until < start then c.startedAtUs else start) ≤ c.until := by
      split <;> omega
    exact ⟨Int.le_trans hle hnext.1, Int.le_trans hle hnext.2, hrest⟩

lemma repairRows_upright_settled (hup : Upright r) (hown : Own ws proj now r cs) (hc : c ∈ cs) :
    accepts (repairRows ws proj now r cs) c = false := by
  rw [eq_false_iff, Ne, accepts_upright (hup.repaired (repairRows_law cs r)),
    repairRows_upright hup hown, Int.not_lt]
  exact (leftStart_le (fun x hx => (hown x hx).2) _).2 c hc

lemma accepts_inverted {e : ℤ} (he : r.endedAt = some e)
    (hlt : e < r.startedAt) (c : SessionTimesCandidate) :
    accepts r c = !refuses r.startedAt e c := by
  rw [accepts, refuses, SessionTimesCandidate.until, he, any_some]
  cases hc : c.endedAtUs with
  | some b =>
    rw [getD_some, decide_eq_false (some_ne_none b), Bool.false_and, Bool.not_false,
      Bool.and_true, elim_some, ← decide_not, decide_eq_decide]
    exact Int.not_le.symm
  | none =>
    rw [getD_none, decide_eq_true rfl, Bool.true_and, Option.elim_none, ← decide_not,
      ← Bool.decide_and, decide_eq_decide]
    omega

lemma inverted_settled_iff {e : ℤ}
    (he : r.endedAt = some e) (hlt : e < r.startedAt) (hown : Own ws proj now r cs) :
    (∀ c ∈ cs, accepts (repairRows ws proj now r cs) c = false) ↔
      ¬ SecondChance r.startedAt e cs := by
  have hsplit := takeWhile_append_dropWhile (p := refuses r.startedAt e) (l := cs)
  have hkeep : repairRows ws proj now r (cs.takeWhile (refuses r.startedAt e)) = r := by
    refine repairRows_eq_self.mpr fun c hc => by_contra fun hne => ?_
    have hacc := (repairRow_ne.mp hne).2
    rw [accepts_inverted he hlt, mem_takeWhile_imp hc] at hacc
    cases hacc
  have hrun : repairRows ws proj now r cs =
      repairRows ws proj now r (cs.dropWhile (refuses r.startedAt e)) := by
    rw [← hsplit, repairRows, foldl_append, hsplit]
    exact congrArg (repairRows ws proj now · _) hkeep
  rw [SecondChance, hrun]
  cases hdrop : cs.dropWhile (refuses r.startedAt e) with
  | nil =>
    rw [hdrop, append_nil] at hsplit
    refine iff_of_true (fun c hc => ?_) not_false
    rw [← hsplit] at hc
    show accepts r c = false
    rw [accepts_inverted he hlt, mem_takeWhile_imp hc, Bool.not_true]
  | cons d rest =>
    rw [hdrop] at hsplit
    have hrefused : refuses r.startedAt e d = false := by
      have hhead := head?_dropWhile_not (refuses r.startedAt e) cs
      rw [hdrop] at hhead
      exact hhead
    have hmem : ∀ c ∈ d :: rest, c ∈ cs := fun c hc =>
      hsplit ▸ mem_append_right _ hc
    obtain ⟨hscope, hsane⟩ := hown d (hmem d mem_cons_self)
    have hacc : accepts r d := by rw [accepts_inverted he hlt, hrefused, Bool.not_false]
    obtain ⟨hlaw, hless, hup⟩ := withTimes_law hsane hacc
    have hrest : Own ws proj now (withTimes r d) rest :=
      Own.repaired (fun c hc => hown c (hmem c (mem_cons_of_mem d hc))) hlaw
    rw [repairRows_cons, repairRow_pos hscope hsane hacc]
    -- the row is in order from here on
    have hfinal : ∀ c, accepts (repairRows ws proj now (withTimes r d) rest) c = true ↔
        c.until < leftStart d.startedAtUs rest := by
      intro c
      rw [accepts_upright (hup.repaired (repairRows_law rest _)), repairRows_upright hup hrest]
      exact Iff.rfl
    obtain ⟨hleft, hleft'⟩ := leftStart_le (fun c hc => (hrest c hc).2) d.startedAtUs
    constructor
    · rintro hall ⟨c, hc, hend, hstart⟩
      have hfalse := hall c (hsplit ▸ mem_append_left _ hc)
      rw [eq_false_iff, Ne, hfinal, SessionTimesCandidate.until, hend] at hfalse
      exact hfalse hstart
    · intro hno c hc
      rw [eq_false_iff, Ne, hfinal]
      intro hc'
      rw [← hsplit, mem_append, mem_cons] at hc
      rcases hc with hc | rfl | hc
      · have href := mem_takeWhile_imp hc
        rw [refuses] at href
        cases hend : c.endedAtUs with
        | none =>
          rw [SessionTimesCandidate.until, hend] at hc'
          exact hno ⟨c, hc, hend, hc'⟩
        | some b =>
          rw [hend, elim_some, decide_eq_true_eq] at href
          rw [SessionTimesCandidate.until, hend, getD_some] at hc'
          have hless : d.startedAtUs < r.startedAt := hless
          omega
      · have hin := (sane_iff.mp hsane).2.1
        omega
      · have hle := hleft' c hc
        omega

/-- A second pass over a row finds nothing exactly when no candidate gets a second chance. -/
theorem repair_settled_iff (hws : r.workspaceId = ws)
    (hproj : r.projectId = proj) (cs : List SessionTimesCandidate) :
    repairRows ws proj now (repairRows ws proj now r cs) cs = repairRows ws proj now r cs ↔
      ∀ e, r.endedAt = some e → e < r.startedAt →
        ¬ SecondChance r.startedAt e (ownCandidates now r.id cs) := by
  have hlaw : RowRepair r (repairRows ws proj now r (ownCandidates now r.id cs)) :=
    repairRows_law _ r
  have hown : Own ws proj now r (ownCandidates now r.id cs) := own_ownCandidates hws hproj cs
  rw [repairRows_own hws hproj cs, repairRows_own (by rw [hlaw.same]; exact hws)
    (by rw [hlaw.same]; exact hproj), hlaw.id_eq, repairRows_eq_self]
  have hkeep : (∀ c ∈ ownCandidates now r.id cs,
      repairRow ws proj now (repairRows ws proj now r (ownCandidates now r.id cs)) c =
        repairRows ws proj now r (ownCandidates now r.id cs)) ↔
      ∀ c ∈ ownCandidates now r.id cs,
        accepts (repairRows ws proj now r (ownCandidates now r.id cs)) c = false := by
    refine forall₂_congr fun c hc => ?_
    rw [← not_iff_not]
    show repairRow ws proj now _ c ≠ _ ↔ _
    rw [repairRow_ne, Bool.not_eq_false]
    exact and_iff_right (hown.repaired hlaw c hc)
  rw [hkeep]
  by_cases hup : Upright r
  · refine iff_of_true (fun c hc => repairRows_upright_settled hup hown hc) fun e he hlt => ?_
    exact absurd (hup e he) (Int.not_le.mpr hlt)
  · obtain ⟨e, he⟩ := not_forall.mp hup
    obtain ⟨he, hle⟩ := Classical.not_imp.mp he
    rw [inverted_settled_iff he (Int.not_le.mp hle) hown]
    refine ⟨fun hno e' he' _ => ?_, fun hall => hall e he (Int.not_le.mp hle)⟩
    rw [he, Option.some.injEq] at he'
    rwa [← he']

end

/-- What a committed repair has made of one session, when it reports those of `ids`. -/
structure RowOutcome (ws : WorkspaceId) (proj : ProjectId) (ids : List SessionId)
    (r r' : SessionRow) : Prop where
  repair : RowRepair r r'
  scope : r' ≠ r → r.workspaceId = ws ∧ r.projectId = proj
  listed : r.id ∈ ids ↔ r' ≠ r

/-- A committed repair keeps to its scope and to the order of times, the same list finds nothing
more to repair, and a dry run changes nothing but reports the same. -/
structure SafeAndRepeatable (db : TimesDb) (ws : WorkspaceId) (proj : ProjectId)
    (candidates : List SessionTimesCandidate) (now : ℤ) (author : Option UserId) : Prop where
  rows : List.Forall₂
    (RowOutcome ws proj
      ((repairSessionTimes db ws proj candidates now author true).2.repaired.map (·.sessionId)))
    db.sessions.rows (repairSessionTimes db ws proj candidates now author true).1.sessions.rows
  again : ∀ author' commit, (repairSessionTimes
    (repairSessionTimes db ws proj candidates now author true).1 ws proj candidates now author'
      commit).2.repaired = []
  dry : repairSessionTimes db ws proj candidates now author false =
    (db, (repairSessionTimes db ws proj candidates now author true).2)

section

variable {ws : WorkspaceId} {proj : ProjectId} {now : ℤ} {candidates : List SessionTimesCandidate}

lemma repairAll_rows (t : SessionTable) : (repairAll ws proj now candidates t).1.rows =
    t.rows.map (repairRows ws proj now · candidates) :=
  (foldl_repairOne candidates (t, ⟨[], []⟩)).1

lemma mem_repaired {t : SessionTable} {r : SessionRow} (hr : r ∈ t.rows) :
    r.id ∈ (repairAll ws proj now candidates t).2.repaired.map (·.sessionId) ↔
      repairRows ws proj now r candidates ≠ r := by
  rw [repairAll, (foldl_repairOne candidates (t, ⟨[], []⟩)).2, map_nil, or_iff_right not_mem_nil]
  refine ⟨?_, fun hne => ⟨r, hr, rfl, hne⟩⟩
  rintro ⟨r', hr', hid, hne⟩
  rwa [t.keyed.eq hr' hr hid] at hne

lemma repaired_eq_nil {t : SessionTable} :
    (repairAll ws proj now candidates t).2.repaired = [] ↔
      ∀ r ∈ t.rows, repairRows ws proj now r candidates = r := by
  constructor
  · intro hnil r hr
    refine by_contra fun hne => ?_
    have hmem := (mem_repaired hr).mpr hne
    rw [hnil] at hmem
    cases hmem
  · intro hkeep
    rw [← map_eq_nil_iff (f := (·.sessionId)), eq_nil_iff_forall_not_mem]
    intro sid hsid
    rw [repairAll, (foldl_repairOne candidates (t, ⟨[], []⟩)).2, map_nil,
      or_iff_right not_mem_nil] at hsid
    obtain ⟨r, hr, -, hne⟩ := hsid
    exact hne (hkeep r hr)

lemma repairRows_scope {r : SessionRow} (h : repairRows ws proj now r candidates ≠ r) :
    r.workspaceId = ws ∧ r.projectId = proj := by
  rw [Ne, repairRows_eq_self, not_forall] at h
  obtain ⟨c, hc⟩ := h
  obtain ⟨-, hne⟩ := Classical.not_imp.mp hc
  exact (inScope_iff.mp (repairRow_ne.mp hne).1.1).2

end

/-- The repair is safe, and repeatable unless a session is stored with its end before its start
and a candidate that this end refuses gets a second chance. -/
theorem repair_safe_iff (db : TimesDb) (ws : WorkspaceId) (proj : ProjectId)
    (candidates : List SessionTimesCandidate) (now : ℤ) (author : Option UserId) :
    SafeAndRepeatable db ws proj candidates now author ↔
      ∀ r ∈ db.sessions.rows, r.workspaceId = ws → r.projectId = proj →
        ∀ e, r.endedAt = some e → e < r.startedAt →
          ¬ SecondChance r.startedAt e (ownCandidates now r.id candidates) := by
  have hagain : (∀ author' commit, (repairSessionTimes
      (repairSessionTimes db ws proj candidates now author true).1 ws proj candidates now author'
        commit).2.repaired = []) ↔
      ∀ r ∈ db.sessions.rows, repairRows ws proj now (repairRows ws proj now r candidates)
        candidates = repairRows ws proj now r candidates := by
    show (∀ _ _, (repairAll ws proj now candidates
      (repairAll ws proj now candidates db.sessions).1).2.repaired = []) ↔ _
    rw [forall_const, forall_const, repaired_eq_nil, repairAll_rows, forall_mem_map]
  have hrows : List.Forall₂
      (RowOutcome ws proj
        ((repairSessionTimes db ws proj candidates now author true).2.repaired.map (·.sessionId)))
      db.sessions.rows
      (repairSessionTimes db ws proj candidates now author true).1.sessions.rows := by
    show List.Forall₂ _ _ (repairAll ws proj now candidates db.sessions).1.rows
    rw [repairAll_rows, forall₂_map_right_iff, forall₂_same]
    exact fun r hr => ⟨repairRows_law candidates r, repairRows_scope, mem_repaired hr⟩
  have hsettled : (∀ r ∈ db.sessions.rows, repairRows ws proj now
      (repairRows ws proj now r candidates) candidates = repairRows ws proj now r candidates) ↔
      ∀ r ∈ db.sessions.rows, r.workspaceId = ws → r.projectId = proj →
        ∀ e, r.endedAt = some e → e < r.startedAt →
          ¬ SecondChance r.startedAt e (ownCandidates now r.id candidates) := by
    refine forall₂_congr fun r _ => ⟨fun heq hws hproj => ?_, fun hno => ?_⟩
    · exact (repair_settled_iff hws hproj candidates).mp heq
    · by_cases hne : repairRows ws proj now r candidates = r
      · rw [hne, hne]
      · obtain ⟨hws, hproj⟩ := repairRows_scope hne
        exact (repair_settled_iff hws hproj candidates).mpr (hno hws hproj)
  rw [← hsettled, ← hagain]
  exact ⟨SafeAndRepeatable.again, fun hno => ⟨hrows, hno, rfl⟩⟩

/-- A session stored from 100 to 20: a start at 30 is refused, and taken over once the next
candidate has repaired the end. -/
theorem refused_start_gets_second_chance : ¬ SafeAndRepeatable
    ⟨⟨[⟨1, 0, 0, "claude-code", none, 100, some 20, none, 0, none⟩], nodup_singleton _⟩, []⟩
    0 0 [⟨1, 30, none⟩, ⟨1, 40, some 60⟩] 1000 none := by
  intro h
  have hnil := h.again none true
  revert hnil
  decide +kernel

end SessionTimes
