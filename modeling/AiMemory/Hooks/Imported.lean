/-
Tool calls rebuilt from a transcript (`ai-memory-hooks`, `capture_policy.rs`).

An import rebuilds the payload an agent's live hook would have sent, so that it applies the
live decision.  The builder has a table of payload shapes of its own, and one agent that the
reader knows is missing from it: a call of Cline is read as no call at all, and kept.
-/
import AiMemory.Hooks.Inspect

namespace Capture

open Json (Value)
open CapturePolicy

def hookToolCall (agent : AgentKind) (name : String) (args : Value) : String × Value :=
  if agent = .codex ∧ lowercased name = "exec_command" then
    match args with
    | .object recorded =>
      ("Bash", .object ([("cmd", "command"), ("workdir", "workdir")].filterMap fun keys =>
        (recorded.lookup keys.1).map fun value => (keys.2, value)))
    | args => ("Bash", args)
  else (name, args)

def payloadFields (agent : AgentKind) (name : String) (args : Value) : List (String × Value) :=
  match agent with
  | .antigravityCli => [("toolCall", .object [("name", .string name), ("args", args)])]
  | .zero => [("toolName", .string name), ("input", args)]
  | .openCode | .omp | .pi | .openClaw => [("tool", .string name), ("args", args)]
  | _ => [("tool_name", .string name), ("tool_input", args)]

def toolCallPayload (agent : AgentKind) (name : String) (args : Option Value)
    (callId : Option String) : Value :=
  let call := hookToolCall agent name (args.getD .null)
  .object (payloadFields agent call.1 call.2 ++
    callId.toList.map fun id => ("tool_use_id", .string id))

/-- The live hook's payload of a call: the fields read for the agent hold the name and the
arguments the hook receives. -/
def Live (agent : AgentKind) (name : String) (args : Option Value)
    (fields : List (String × Value)) : Prop :=
  toolFields agent (.object fields) =
    some ((hookToolCall agent name (args.getD .null)).1,
      some (hookToolCall agent name (args.getD .null)).2)

def CaptureDecision.summary (decision : CaptureDecision) :
    CaptureDisposition × ToolFamily × ExtractionState :=
  (decision.protocol.disposition, decision.protocol.toolFamily, decision.protocol.extractionState)

variable {U : Unicode} {policy : CapturePolicy} {agent : AgentKind} {cwd : Text}

lemma inspectExtracted_callId (agent : AgentKind) (name : String) (args : Option Value)
    (id id' : Option String) :
    policy.inspectExtracted U (extractCall agent name args id) cwd =
      policy.inspectExtracted U (extractCall agent name args id') cwd := rfl

lemma summary_of_toolFields {fields : List (String × Value)} {name : String}
    {args : Option Value} (h : toolFields agent (.object fields) = some (name, args)) :
    (policy.inspect U agent (.object fields) cwd).summary =
      ((policy.inspectExtracted U (extractCall agent name args none) cwd).1, agentFamily agent name,
        (policy.inspectExtracted U (extractCall agent name args none) cwd).2) := by
  have hextract : extract agent (.object fields) =
      extractCall agent name args (callId (.object fields)) := by
    rw [extract, h]
  rw [CaptureDecision.summary, inspect, hextract,
    inspectExtracted_callId agent name args (callId (.object fields)) none]
  rfl

lemma toolFields_payload {fields : List (String × Value)} {name : String} {args : Value}
    (hknown : (toolFields agent (.object fields)).isSome) (hagent : agent ≠ .cline)
    (callId : Option String) :
    toolFields agent (.object (payloadFields agent name args ++
      callId.toList.map fun id => ("tool_use_id", .string id))) = some (name, some args) := by
  cases agent with
  | cline => exact absurd rfl hagent
  | claudeDesktop | crush | kimiCode | other => cases hknown
  | _ => cases callId <;> rfl

lemma toolFields_payload_cline (name : String) (args : Value) (callId : Option String) :
    toolFields .cline (.object (payloadFields .cline name args ++
      callId.toList.map fun id => ("tool_use_id", .string id))) = none := by
  cases callId <;> rfl

lemma inspectExtracted_unsupported :
    policy.inspectExtracted U .unsupported cwd = (.keep, .unsupportedSchema) := by
  unfold inspectExtracted
  cases policy.state <;> rfl

lemma inspectExtracted_supported (name : String) (args : Option Value) :
    (policy.inspectExtracted U (extractCall agent name args none) cwd).2 ≠ .unsupportedSchema := by
  have hstate : (extractCall agent name args none).state ≠ .unsupportedSchema := by
    have hread : (extractCall agent name args none).state = .missingOrMalformed ∨
        (extractCall agent name args none).state = .extracted := ite_eq_or_eq _ _ _
    rcases hread with hread | hread <;> rw [hread] <;> decide
  have hfile : ∀ globs paths, (policy.inspectFile U globs paths cwd).2 ≠ .unsupportedSchema := by
    intro globs paths
    unfold inspectFile
    cases paths with
    | none => exact nofun
    | some paths =>
      simp only
      split
      · decide
      · split
        · decide
        · split <;> decide
        · decide
  unfold inspectExtracted
  cases policy.state with
  | inactive => exact hstate
  | invalid =>
    simp only
    split <;> exact hstate
  | active =>
    simp only
    split
    · exact hstate
    · split
      · decide
      · exact hfile _ _
      · split
        · exact hstate
        · split <;> exact hstate
      · exact hstate

/-- A call rebuilt from a transcript gets the disposition, the family and the extraction
state of the live payload exactly when its agent is not Cline. -/
theorem imported_decision_iff (U : Unicode) (policy : CapturePolicy) (agent : AgentKind)
    (name : String) (args : Option Value) (callId : Option String) (cwd : Text)
    (fields : List (String × Value)) (h : Live agent name args fields) :
    (policy.inspect U agent (toolCallPayload agent name args callId) cwd).summary =
      (policy.inspect U agent (.object fields) cwd).summary ↔ agent ≠ .cline := by
  have hknown : (toolFields agent (.object fields)).isSome = true := by rw [h]; rfl
  constructor
  · rintro heq rfl
    -- the rebuilt payload is of no schema, the live one is of Cline's
    have hbuilt : (policy.inspect U .cline (toolCallPayload .cline name args callId) cwd).summary =
        (.keep, .unknown, .unsupportedSchema) := by
      have hextract : extract .cline (toolCallPayload .cline name args callId) = .unsupported := by
        rw [toolCallPayload, extract, toolFields_payload_cline]
      rw [CaptureDecision.summary, inspect, hextract, inspectExtracted_unsupported]
      rfl
    rw [hbuilt, summary_of_toolFields h] at heq
    exact inspectExtracted_supported _ _ (Prod.mk.inj (Prod.mk.inj heq).2).2.symm
  · intro hagent
    rw [summary_of_toolFields h, toolCallPayload,
      summary_of_toolFields (toolFields_payload hknown hagent callId)]

theorem imported_decision_iff_codex :
    ((ignoring ["docs/**"] "/repo").inspect asciiUnicode .codex
        (toolCallPayload .codex "exec_command" (some (.object [("cmd", .string "cat docs/x")])) none)
        "/repo".toList).summary =
      ((ignoring ["docs/**"] "/repo").inspect asciiUnicode .codex
        (.object [("tool_name", .string "Bash"),
          ("tool_input", .object [("command", .string "cat docs/x")])]) "/repo".toList).summary :=
  (imported_decision_iff asciiUnicode _ .codex "exec_command"
    (some (.object [("cmd", .string "cat docs/x")])) none _
    [("tool_name", .string "Bash"),
      ("tool_input", .object [("command", .string "cat docs/x")])] rfl).mpr (by decide)

/-- Cline reads an ignored file: the live call is dropped, the imported one is kept. -/
theorem imported_cline_keeps_ignored :
    Live .cline "read_files" (some (.object [("files", .array [.string "docs/x"])]))
        [("tool_call", .object [("name", .string "read_files"),
          ("input", .object [("files", .array [.string "docs/x"])])])] ∧
      ((ignoring ["docs/**"] "/repo").inspect asciiUnicode .cline
        (.object [("tool_call", .object [("name", .string "read_files"),
          ("input", .object [("files", .array [.string "docs/x"])])])])
        "/repo".toList).summary = (.drop, .file, .extracted) ∧
      ((ignoring ["docs/**"] "/repo").inspect asciiUnicode .cline
        (toolCallPayload .cline "read_files"
          (some (.object [("files", .array [.string "docs/x"])])) none)
        "/repo".toList).summary = (.keep, .unknown, .unsupportedSchema) := by
  refine ⟨rfl, ?_, ?_⟩
  · decide +kernel
  · decide +kernel

end Capture
