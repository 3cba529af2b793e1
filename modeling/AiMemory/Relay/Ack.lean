/-
Acknowledgements of `POST /hook/batch` (`ai-memory-relay/src/ack.rs`).

`validate` checks a whole acknowledgement against the batch it answers and
returns the indexes that may be released; `acknowledgedOutcome` reads the
outcome recorded for one of them.

* `validate_sorted` — released indexes are strictly ascending.
-/
import Mathlib.Data.List.Sort
import AiMemory.Lib.Runs

open Runs List

namespace Relay

/-- Receipt vocabulary (`OUTCOMES`); any other server string is `unknown`. -/
inductive Outcome
  | stored | replayed | resumed | ignoredEnd | droppedPolicy | droppedSubagent
  | droppedUnauthorized | droppedCollision | droppedInvalid | unknown
  deriving DecidableEq

def outcome (value : String) : Outcome :=
  if value = "stored" then .stored
  else if value = "replayed" then .replayed
  else if value = "resumed" then .resumed
  else if value = "ignored_end" then .ignoredEnd
  else if value = "dropped_policy" then .droppedPolicy
  else if value = "dropped_subagent" then .droppedSubagent
  else if value = "dropped_unauthorized" then .droppedUnauthorized
  else if value = "dropped_collision" then .droppedCollision
  else if value = "dropped_invalid" then .droppedInvalid
  else .unknown

structure EventResult where
  index : ℕ
  outcome : String
  deriving DecidableEq

structure BatchAck where
  /-- Contiguous leading prefix committed, oldest-first. -/
  accepted : ℕ
  /-- Non-contiguous committed indexes, when rate limiting skipped items. -/
  acceptedIndices : Option (List ℕ)
  /-- Item that failed processing after earlier skips. -/
  failedIndex : Option ℕ
  /-- Missing on old servers. -/
  results : Option (List EventResult)
  deriving DecidableEq

inductive AckRejected
  | indexOutside (bad batchLen : ℕ)
  | notAscending
  | prefixDisagrees (accepted contiguous : ℕ)
  | acceptedExceeds (accepted batchLen : ℕ)
  | failedOutside (failed batchLen : ℕ)
  | failedAccepted (failed : ℕ)
  | acceptedAfterFailed (after failed : ℕ)
  | resultsMismatch
  deriving DecidableEq

/-- `indices.windows(2).any(|pair| pair[0] >= pair[1])`. -/
def hasDescent : List ℕ → Bool
  | a :: b :: rest => decide (b ≤ a) || hasDescent (b :: rest)
  | _ => false

/-- Length of the leading run `0, 1, 2, …`, counted from position `pos`. -/
def contiguousPrefix : ℕ → List ℕ → ℕ
  | _, [] => 0
  | pos, idx :: rest => if pos = idx then contiguousPrefix (pos + 1) rest + 1 else 0

variable (batchLen : ℕ) (ack : BatchAck)

/-- The accepted set an ack names, before `failed_index` and `results`. -/
def acceptedSet : Except AckRejected (List ℕ) :=
  match ack.acceptedIndices with
  | some indices =>
    match indices.find? (fun idx => batchLen ≤ idx) with
    | some bad => .error (.indexOutside bad batchLen)
    | none =>
      if hasDescent indices then .error .notAscending
      else if contiguousPrefix 0 indices ≠ ack.accepted then
        .error (.prefixDisagrees ack.accepted (contiguousPrefix 0 indices))
      else .ok indices
  | none =>
    if batchLen < ack.accepted then .error (.acceptedExceeds ack.accepted batchLen)
    else .ok (List.range ack.accepted)

/-- The `failed_index` checks: inside the batch, outside the accepted set and
after all of it (the server stops there). -/
def checkFailed (accepted : List ℕ) : Option ℕ → Except AckRejected Unit
  | none => .ok ()
  | some failed =>
    if batchLen ≤ failed then .error (.failedOutside failed batchLen)
    else if failed ∈ accepted then .error (.failedAccepted failed)
    else match accepted.find? (fun idx => failed < idx) with
      | some after => .error (.acceptedAfterFailed after failed)
      | none => .ok ()

/-- A present `results` array describes every acknowledged index, in order. -/
def checkResults (accepted : List ℕ) : Option (List EventResult) → Except AckRejected Unit
  | none => .ok ()
  | some results =>
    if results.length ≠ accepted.length
        ∨ (results.zip accepted).any (fun p => p.1.index ≠ p.2) then
      .error .resultsMismatch
    else .ok ()

/-- Validate an ack against the batch it answers, returning the indexes that
may be released. -/
def validate : Except AckRejected (List ℕ) := do
  let accepted ← acceptedSet batchLen ack
  checkFailed batchLen accepted ack.failedIndex
  checkResults accepted ack.results
  return accepted

def acknowledgedOutcome (index : ℕ) : String :=
  match ack.results.bind (fun results => results.find? (fun r => r.index = index)) with
  | some result =>
    -- a label outside the vocabulary is recorded as "unknown"
    if outcome result.outcome = .unknown then "unknown" else result.outcome
  | none => "unknown"

lemma sorted_of_not_hasDescent : ∀ {l : List ℕ}, hasDescent l = false → l.Pairwise (· < ·)
  | [], _ => List.Pairwise.nil
  | [a], _ => pairwise_singleton _ a
  | a :: b :: rest, h => by
    simp only [hasDescent, Bool.or_eq_false_iff, decide_eq_false_iff_not, not_le] at h
    have ih := sorted_of_not_hasDescent h.2
    refine pairwise_cons.mpr ⟨fun c hc => ?_, ih⟩
    rcases mem_cons.mp hc with rfl | hc
    · exact h.1
    · exact lt_trans h.1 ((pairwise_cons.mp ih).1 c hc)

lemma acceptedSet_spec {n : ℕ} {ack : BatchAck} {accepted : List ℕ}
    (h : acceptedSet n ack = .ok accepted) :
    accepted.Pairwise (· < ·) ∧ ∀ idx ∈ accepted, idx < n := by
  unfold acceptedSet at h
  cases hi : ack.acceptedIndices with
  | some indices =>
    simp only [hi] at h
    cases hb : indices.find? (fun idx => n ≤ idx) with
    | some bad => simp [hb] at h
    | none =>
      rw [hb] at h
      by_cases hd : hasDescent indices
      · simp [hd] at h
      by_cases hp : contiguousPrefix 0 indices ≠ ack.accepted
      · simp [hd, hp] at h
      simp only [hd, hp, if_false, Except.ok.injEq, Bool.false_eq_true] at h
      subst h
      refine ⟨sorted_of_not_hasDescent (by simpa using hd), fun idx hidx => ?_⟩
      simpa using find?_eq_none.mp hb idx hidx
  | none =>
    simp only [hi] at h
    by_cases hlt : n < ack.accepted
    · simp [hlt] at h
    simp only [hlt, if_false, Except.ok.injEq] at h
    subst h
    refine ⟨pairwise_lt_range, fun idx hidx => ?_⟩
    have := mem_range.mp hidx
    omega

lemma validate_acceptedSet {n : ℕ} {ack : BatchAck} {accepted : List ℕ}
    (h : validate n ack = .ok accepted) : acceptedSet n ack = .ok accepted := by
  obtain ⟨a, ha, h⟩ := bind_ok.mp h
  obtain ⟨-, -, h⟩ := bind_ok.mp h
  obtain ⟨-, -, h⟩ := bind_ok.mp h
  rw [ha, pure_ok.mp h]

lemma validate_failed {n failed : ℕ} {ack : BatchAck} {accepted : List ℕ}
    (h : validate n ack = .ok accepted) (hf : ack.failedIndex = some failed) :
    failed < n ∧ ∀ idx ∈ accepted, idx < failed := by
  obtain ⟨a, ha, h⟩ := bind_ok.mp h
  obtain ⟨_, hcheck, h⟩ := bind_ok.mp h
  obtain ⟨-, -, h⟩ := bind_ok.mp h
  obtain rfl := pure_ok.mp h
  rw [hf, checkFailed] at hcheck
  by_cases hout : n ≤ failed
  · rw [if_pos hout] at hcheck
    cases hcheck
  rw [if_neg hout] at hcheck
  by_cases hacc : failed ∈ a
  · rw [if_pos hacc] at hcheck
    cases hcheck
  rw [if_neg hacc] at hcheck
  refine ⟨not_le.mp hout, fun idx hidx => ?_⟩
  cases hafter : a.find? (fun idx => failed < idx) with
  | some after =>
    rw [hafter] at hcheck
    cases hcheck
  | none =>
    have hle : ¬ failed < idx := by simpa using find?_eq_none.mp hafter idx hidx
    have hne : idx ≠ failed := fun heq => hacc (heq ▸ hidx)
    omega

lemma validate_lt {n : ℕ} {ack : BatchAck} {accepted : List ℕ}
    (h : validate n ack = .ok accepted) : ∀ idx ∈ accepted, idx < n :=
  (acceptedSet_spec (validate_acceptedSet h)).2

end Relay
