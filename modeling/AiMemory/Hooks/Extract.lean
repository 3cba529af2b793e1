/-
Tool calls, as an agent's hook payload spells them (`ai-memory-hooks`,
`capture_policy.rs`).

Each agent puts a call's name and arguments in fields of its own.  A call is a file, a
search or a command by its name; its paths or its command are read from the arguments.
-/
import AiMemory.Hooks.Shell
import AiMemory.Lib.Json

open Strings

namespace Capture

open Json (Value)

/-! ### Agents and tools -/

inductive AgentKind
  | claudeCode | codex | openCode | cursor | geminiCli | claudeDesktop | openClaw
  | antigravityCli | omp | pi | crush | grok | zero | devin | kimiCode | kiroCli | commandCode
  | hermes | pool | zcode | copilotCli | grizzybot | droid | muse | codeBuddy | ibmBob | dsh
  | cline | qwenCode | qoder | other
  deriving DecidableEq

inductive ExtractionState
  | notApplicable | extracted | missingOrMalformed | unsupportedSchema
  deriving DecidableEq

inductive ToolFamily
  | file | searchList | nonFile | unknown
  deriving DecidableEq

def lowercased (name : String) : String := String.ofList (name.toList.map Char.toLower)

def fileToolNames : List String :=
  ["read", "write", "edit", "apply_patch", "notebookedit", "notebook_edit", "create_file",
    "delete_file", "remove", "rename_file", "move_file", "multi_edit", "multiedit", "replace",
    "replace_all", "view_file", "replace_file_content", "multi_replace_file_content",
    "write_to_file", "fs_read", "fs_write", "read_file", "write_file", "edit_file", "patch",
    "read_many_files"]

def searchListToolNames : List String :=
  ["search", "grep", "glob", "find", "list", "ls", "list_files", "read_dir", "list_dir",
    "grep_search", "search_files", "find_by_name", "list_directory", "search_file_content"]

def nonFileToolNames : List String :=
  ["bash", "shell", "shell_command", "exec", "execute", "run_command", "web_search", "search_web",
    "manage_task", "manage_subagents", "terminal", "execute_bash", "execute_cmd", "powershell",
    "pwsh", "run_shell_command", "execute_code", "run_code", "browser_exec", "browser_navigate",
    "web_extract", "web_fetch", "delegate_task"]

def inlineCodeToolNames : List String := ["execute_code", "run_code"]

def outputReaderToolNames : List String :=
  ["bashoutput", "taskoutput", "write_stdin", "process", "read_bash", "write_bash",
    "read_powershell", "write_powershell"]

def museMemoryToolNames : List String := ["read_memory", "add_memory", "edit_memory"]

def family (name : String) : ToolFamily :=
  if fileToolNames.contains (lowercased name) then .file
  else if searchListToolNames.contains (lowercased name) then .searchList
  else if nonFileToolNames.contains (lowercased name) then .nonFile
  else .unknown

def agentToolNames : AgentKind → List (String × ToolFamily)
  | .copilotCli =>
    [("view", .file), ("create", .file), ("str_replace_editor", .file), ("rg", .searchList)]
  | .muse => museMemoryToolNames.map (·, .file) ++ [("monitor", .nonFile)]
  | .droid => [("create", .file), ("applypatch", .file)]
  | .cline =>
    [("read_files", .file), ("editor", .file), ("replace_in_file", .file),
      ("search_codebase", .searchList), ("run_commands", .nonFile), ("execute_command", .nonFile),
      ("fetch_web_content", .nonFile), ("skills", .nonFile), ("use_skill", .nonFile),
      ("ask_question", .nonFile), ("submit_and_exit", .nonFile)]
  | _ => []

variable (agent : AgentKind)

def agentFamily (name : String) : ToolFamily :=
  ((agentToolNames agent).lookup (lowercased name)).getD (family name)

/-! ### Paths -/

def maxCaptureCandidates : ℕ := 32

def directPathKeys : List String :=
  ["file_path", "filePath", "path", "absolute_path", "AbsolutePath", "notebook_path", "TargetFile"]

/-- The strings of an array; `none` when an entry is none. -/
def strings (values : List Value) : Option (List Text) :=
  values.mapM fun value => value.asStr?.map String.toList

variable (object : Value)

/-- The single-path fields and the `paths` field of an object. -/
def directPaths : Option (List Text) := do
  let direct ← strings (directPathKeys.filterMap object.get?)
  let paths ← match object.get? "paths" with
    | none => some direct
    | some values => do
      let entries ← values.asArray?
      if maxCaptureCandidates < direct.length + entries.length then none
      else (strings entries).map (direct ++ ·)
  if paths = [] then none else some paths

def usablePath (path : Text) : Bool :=
  !path.all isWhitespace && decide (path.length ≤ maxCandidatePathChars)

def usablePaths (paths : List Text) : Option (List Text) :=
  if paths ≠ [] && paths.all usablePath then some paths else none

def entryPaths : List Text → List Value → Option (List Text)
  | paths, [] => some paths
  | paths, entry :: rest => do
    let _ ← entry.asObject?
    let found ← directPaths entry
    if maxCaptureCandidates < paths.length + found.length then none
    else entryPaths (paths ++ found) rest

def isMultiEdit (name : String) : Bool :=
  ["multi_edit", "multiedit", "replace_all"].contains (lowercased name)

def editPaths (name : String) (args : Value) (paths : List Text) :
    Option (List Text) :=
  if isMultiEdit name then do
    let entries ← ((args.get? "edits").or (args.get? "replacements")).bind Value.asArray?
    if entries.length = 0 ∨ maxCaptureCandidates < entries.length then none
    else entryPaths paths entries
  else some paths

def includePaths (name : String) (args : Value) (paths : List Text) :
    Option (List Text) :=
  if lowercased name = "read_many_files" then
    match args.get? "include" with
    | none => some paths
    | some values => do
      let entries ← values.asArray?
      if maxCaptureCandidates < paths.length + entries.length then none
      else (strings entries).map (paths ++ ·)
  else some paths

def operationPaths (name : String) (args : Value) (paths : List Text) :
    Option (List Text) :=
  if ["read", "fs_read"].contains (lowercased name) then
    match args.get? "operations" with
    | none => some paths
    | some values => do
      let entries ← values.asArray?
      if entries.length = 0 ∨ maxCaptureCandidates < entries.length then none
      else entryPaths paths entries
  else some paths

def extractPaths (name : String) (args : Value) : Option (List Text) := do
  let _ ← args.asObject?
  let paths ← editPaths name args ((directPaths args).getD [])
  let paths ← includePaths name args paths
  let paths ← operationPaths name args paths
  usablePaths paths

variable (args : Value)

def museMemoryPaths : Option (List Text) := do
  let _ ← args.asObject?
  if (args.get? "scope").bind Value.asStr? ≠ some "project" then none
  else do
    let path ← (args.get? "path").bind Value.asStr?
    if !usablePath path.toList then none
    else if isAbsolute path.toList then some [path.toList]
    else some [".agents/memory/".toList ++ path.toList]

/-- One entry of Cline's `files`. -/
def clineFile : Value → Option Text
  | .string path => some path.toList
  | .object fields =>
    (((fields.lookup "path").or (fields.lookup "file_path")).or (fields.lookup "filePath")).bind
      fun value => value.asStr?.map String.toList
  | _ => none

def clineFilePaths : Option (List Text) := do
  let _ ← args.asObject?
  let direct := (directPaths args).getD []
  let paths ← match args.get? "files" with
    | none => some direct
    | some files => do
      let entries ← files.asArray?
      if maxCaptureCandidates < direct.length + entries.length then none
      else (entries.mapM clineFile).map (direct ++ ·)
  usablePaths paths

/-! ### Commands and searches -/

def shellCommand : Option ShellCommand :=
  match ((args.get? "command").or (args.get? "cmd")).or (args.get? "CommandLine") with
  | some (.string command) => some (.line command.toList)
  | some (.array items) => (strings items).map .argv
  | _ => none

def clineLine (item : Value) : Option Text := do
  let line ← match item with
    | .string line => some line
    | .object fields => (fields.lookup "command").bind Value.asStr?
    | _ => none
  if line.toList.all isWhitespace then none else some line.toList

def clineShellCommand : Option ShellCommand :=
  match args.get? "commands" with
  | some (.array items) =>
    if items.length = 0 ∨ maxCaptureCandidates < items.length then none
    else (items.mapM clineLine).map .argv
  | some (.string line) => if line.toList.all isWhitespace then none else some (.line line.toList)
  | _ => none

def keyedStrings (keys : List String) : Option (List Text) :=
  strings (keys.filterMap args.get?)

def namesDirectPath : Bool :=
  args.keys.any fun key => directPathKeys.contains key || key = "paths"

def droidSearchRootKeys : List String := ["directory_path", "folder"]

def droidRootKeys : List String :=
  if agent = .droid then droidSearchRootKeys else []

def searchDirectPaths : Option (List Text) := do
  let paths ← match directPaths args with
    | some paths => some paths
    | none => if namesDirectPath args then none else some []
  let roots ← keyedStrings args (droidRootKeys agent)
  if paths ++ roots = [] then none else some (paths ++ roots)

structure SearchScope where
  roots : List Text
  patterns : List Text

def isGlobTool (name : String) : Bool := ["glob", "find", "find_by_name"].contains (lowercased name)

def patternKeys (name : String) : List String :=
  (if isGlobTool name then ["pattern", "Pattern"] else []) ++
    ["glob", "include", "file_pattern", "file_glob", "Includes"] ++
    (if agent = .droid then (if isGlobTool name then ["patterns"] else []) ++ ["glob_pattern"]
      else [])

def filterStrings : Value → Option (List Text)
  | .string pattern => some [pattern.toList]
  | .array patterns => strings patterns
  | _ => none

def searchScope (name : String) (args : Option Value) : Option SearchScope :=
  match args with
  | none => some ⟨[], []⟩
  | some .null => some ⟨[], []⟩
  | some args => do
    let _ ← args.asObject?
    let direct ← if namesDirectPath args then directPaths args else some []
    let roots ← keyedStrings args
      (["dir_path", "directory", "DirectoryPath", "SearchDirectory", "SearchPath"] ++
        droidRootKeys agent)
    let patterns ← ((patternKeys agent name).filterMap args.get?).mapM filterStrings
    let scope : SearchScope := ⟨direct ++ roots, patterns.flatten⟩
    if scope.roots.length + scope.patterns.length ≤ maxCaptureCandidates ∧
        (scope.roots ++ scope.patterns).all usablePath then some scope
    else none

def patchHeaders : List String :=
  ["*** Add File:", "*** Update File:", "*** Delete File:", "*** Move to:"]

/-- `str::lines`. -/
def lines (text : Text) : List Text :=
  let parts := text.splitOn '\n'
  let ended := parts.dropLast.map fun line =>
    if line.getLast? = some '\r' then line.dropLast else line
  if parts.getLast? = some [] then ended else ended ++ parts.getLast?.toList

def patchHeader (line : Text) : Option Text :=
  let line := line.dropWhile isWhitespace
  (patchHeaders.find? fun header => header.toList.isPrefixOf line).map fun header =>
    trimBy isWhitespace (line.drop header.toList.length)

/-- The files an `apply_patch` patch names. -/
def patchPaths (name : String) (args : Value) : Option (List Text) := do
  if !(["apply_patch", "patch"].contains (lowercased name)) then none
  else do
    let text ← match args with
      | .string text => some text
      | .object fields =>
        ["command", "patch", "patchText", "input"].findSome? fun key =>
          (fields.lookup key).bind Value.asStr?
      | _ => none
    let paths := (lines text.toList).filterMap patchHeader
    if paths = [] ∨ maxCaptureCandidates < paths.length ∨
        paths.any (fun path => path = [] || decide (maxCandidatePathChars < path.length)) then none
    else some paths

/-! ### Payloads -/

/-- Cline nests a call in `tool_call` or `tool_result`, or in an extension's envelope. -/
def clineToolFields : Option (String × Option Value) :=
  let nested := (object.get? "tool_call").or (object.get? "tool_result")
  match nested.bind fun tool => (tool.get? "name").bind Value.asStr? with
  | some name => some (name, nested.bind fun tool => tool.get? "input")
  | none =>
    ((object.get? "preToolUse").or (object.get? "postToolUse")).bind fun envelope =>
      ((envelope.get? "toolName").or (envelope.get? "tool")).bind fun name =>
        name.asStr?.map fun name => (name, envelope.get? "parameters")

def fieldsUnder (name args : String) : Option (String × Option Value) :=
  ((object.get? name).bind Value.asStr?).map fun text => (text, object.get? args)

def toolFields : Option (String × Option Value) :=
  match agent with
  | .antigravityCli =>
    (object.get? "toolCall").bind fun call => fieldsUnder call "name" "args"
  | .cline => clineToolFields object
  | .grok =>
    (((object.get? "tool_name").or (object.get? "toolName")).bind Value.asStr?).map fun name =>
      (name, (object.get? "tool_input").or (object.get? "toolInput"))
  | .zero => fieldsUnder object "toolName" "input"
  | .claudeCode | .commandCode | .codex | .cursor | .geminiCli | .qwenCode | .qoder | .devin
  | .hermes | .kiroCli | .pool | .grizzybot | .zcode | .copilotCli | .droid | .muse | .codeBuddy
  | .ibmBob | .dsh => fieldsUnder object "tool_name" "tool_input"
  | .openCode | .omp | .pi | .openClaw => fieldsUnder object "tool" "args"
  | .claudeDesktop | .crush | .kimiCode | .other => none

def callIdKeys : List String :=
  ["tool_use_id", "toolUseId", "tool_call_id", "toolCallId", "call_id", "callId", "callID"]

def validCallId (id : String) : Bool :=
  id ≠ "" && decide (id.toList.length ≤ 128) &&
    id.toList.all fun c => c.isAlphanum || c = '_' || c = '-' || c = '.'

def callId : Option String :=
  callIdKeys.findSome? fun key => ((object.get? key).bind Value.asStr?).filter validCallId

structure Extracted where
  family : ToolFamily
  paths : Option (List Text)
  command : Option ShellCommand
  /-- a command-running tool, even when its command is unreadable -/
  shell : Bool
  workdir : Option Text
  searchPaths : Option (List Text)
  searchScope : Option SearchScope
  patchPaths : Option (List Text)
  /-- the paths are globs -/
  globs : Bool
  /-- reads back output of an earlier command -/
  outputReader : Bool
  powershell : Bool
  /-- a non-file tool whose input is program source -/
  inlineCode : Bool
  callId : Option String
  state : ExtractionState

def Extracted.unsupported : Extracted where
  family := .unknown
  paths := none
  command := none
  shell := false
  workdir := none
  searchPaths := none
  searchScope := none
  patchPaths := none
  globs := false
  outputReader := false
  powershell := false
  inlineCode := false
  callId := none
  state := .unsupportedSchema

def filePaths (name : String) (args : Value) : Option (List Text) :=
  if agent = .muse ∧ museMemoryToolNames.contains (lowercased name) then museMemoryPaths args
  else if agent = .cline then (extractPaths name args).or (clineFilePaths args)
  else extractPaths name args

def agentCommand : Option ShellCommand :=
  if agent = .cline then (clineShellCommand args).or (shellCommand args) else shellCommand args

def workdirKeys : List String :=
  if agent = .antigravityCli then ["Cwd"] else ["workdir", "dir_path", "directory"]

/-- The directory a command runs in: the first key present, when it is a text. -/
def commandWorkdir : Option Text :=
  (((workdirKeys agent).findSome? args.get?).bind Value.asStr?).bind fun dir =>
    if dir.toList.all isWhitespace then none else some dir.toList

def extractCall (name : String) (args : Option Value) (id : Option String) :
    Extracted :=
  let family := agentFamily agent name
  let paths := if family = .file then args.bind (filePaths agent name) else none
  let command := if family = .nonFile then args.bind (agentCommand agent) else none
  let patchName :=
    if agent = .droid ∧ lowercased name = "applypatch" then "apply_patch" else name
  { family := family
    paths := paths
    command := command
    shell := family = .nonFile && lowercased name ≠ "web_search"
    workdir := if command.isSome then args.bind (commandWorkdir agent) else none
    searchPaths := if family = .searchList then
      args.bind fun args => args.asObject?.bind fun _ => searchDirectPaths agent args else none
    searchScope := if family = .searchList then searchScope agent name args else none
    patchPaths := if family = .file ∧ paths = none then args.bind (patchPaths patchName) else none
    globs := lowercased name = "read_many_files"
    outputReader := outputReaderToolNames.contains (lowercased name) ||
      (agent = .muse && lowercased name = "bash_input")
    powershell := lowercased name = "powershell" || lowercased name = "pwsh"
    inlineCode := family = .nonFile && inlineCodeToolNames.contains (lowercased name)
    callId := id
    state := if family = .file ∧ paths = none then .missingOrMalformed else .extracted }

/-- What the policy reads of a payload. -/
def extract (raw : Value) : Extracted :=
  match raw with
  | .object _ =>
    match toolFields agent raw with
    | some (name, args) => extractCall agent name args (callId raw)
    | none => .unsupported
  | _ => .unsupported

end Capture
