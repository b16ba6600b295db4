import ColossalCode.Dispatch.Tools
import ColossalCode.Backend.ResponsesStream
import ColossalCode.Sessionizer.Manager

/-! How a tool call is executed: what it asks of the cells that all calls share and of the world
outside, and what it makes of each reply. -/
namespace ColossalCode.Dispatch

open Protocol (Value)
open Sessionizer
open Backend.Responses (strAt u64At)

def asBool : Value → Option Bool
  | .bool b => some b
  | _ => none

def boolAt (key : String) (value : Value) : Option Bool := (value.get key).bind asBool

/-- `Value::as_i64`: the whole numbers of 64 bits with a sign; `-0` is a float. -/
def asI64 (value : Value) : Option Int :=
  match value with
  | .number literal =>
    match literal.toList with
    | '-' :: digits =>
      match Backend.Responses.asU64 (.number (String.ofList digits)) with
      | some n => if 0 < n ∧ n ≤ 0x8000000000000000 then some (-n) else none
      | none => none
    | _ =>
      match Backend.Responses.asU64 value with
      | some n => if n < 0x8000000000000000 then some n else none
      | none => none
  | _ => none

def i64At (key : String) (value : Value) : Option Int := (value.get key).bind asI64

/-- The strings of an array. -/
def stringsAt (key : String) (value : Value) : List String :=
  (((value.get key).bind Value.asArray).getD []).filterMap Value.asStr

/-- `n as i64` where `n` is a number of 64 bits; `n` may also be the first one that is not. -/
def wrapI64 (n : Nat) : Int :=
  if n < 0x8000000000000000 then n else if n < 0x10000000000000000 then n - 0x10000000000000000 else 0

def readFileArgs (arguments : Value) : List String :=
  let shouldReadEntire := (boolAt "should_read_entire_file" arguments).getD true
  let startByte := u64At "start_byte_one_indexed" arguments
  let endByte := u64At "end_byte_one_indexed" arguments
  let lineLimit := i64At "limit" arguments
  let lineOffset := i64At "offset" arguments
  if startByte.isSome || endByte.isSome then
    ["bytes", (startByte.map toString).getD "", (endByte.map toString).getD ""]
  else
    match u64At "start_line_one_indexed" arguments with
    | some start =>
      let limitLines : Option Int := (u64At "end_line_one_indexed" arguments).bind fun last =>
        if start ≤ last then some (wrapI64 (last - start + 1)) else none
      ["lines", toString (wrapI64 (start - 1)), toString (limitLines.getD (-1))]
    | none =>
      if lineLimit.isSome || lineOffset.isSome then
        ["lines", toString (lineOffset.getD 0), toString (lineLimit.getD (-1))]
      else if shouldReadEntire then ["entire"]
      else ["lines", "0", "-1"]

/-- `jsonText` is how `serde_json` prints a list of values. -/
def buildToolsBinaryArgs (jsonText : List Value → String) (name : String) (arguments : Value) :
    List String :=
  let text (key default : String) : String := (strAt key arguments).getD default
  name ::
    match name with
    | "read_file" => text "path" "" :: readFileArgs arguments
    | "delete_path" => [text "path" ""]
    | "get_files" => [text "path" ".", ((u64At "limit" arguments).map toString).getD "100"]
    | "get_files_recursive" =>
      let excluded := ((arguments.get "exclude_patterns").bind Value.asArray).getD []
      [text "path" ".", toString (min ((u64At "limit" arguments).getD 200) 200)] ++
        ((u64At "offset" arguments).map toString).toList ++
        stringsAt "include_patterns" arguments ++
        (if excluded.isEmpty then []
          else "--exclude" :: stringsAt "exclude_patterns" arguments)
    | "edit_file" => [text "path" "", text "old_string" "", text "new_string" ""]
    | "semantic_search" => [text "query" ""]
    | "search_files_with_regex" =>
      [text "path" ".", text "regex_pattern" "",
        ((u64At "limit" arguments).map toString).getD "1000",
        toString ((boolAt "case_sensitive" arguments).getD false)]
    | "delete_many" => (((arguments.get "paths").bind Value.asArray).map jsonText).toList
    | _ => []

/-- The sites of a search, one or several. -/
def siteAt (arguments : Value) : Option (List String) :=
  (arguments.get "site").bind fun site =>
    match site with
    | .array items => some (items.filterMap Value.asStr)
    | _ => site.asStr.map fun site => [site]

/-- The text a call returns, before it is printed. -/
inductive Answer where
  | yaml (fields : List (String × Value))
  | json (fields : List (String × Value))
  | text (text : String)

abbrev Outcome := Except String Answer

/-- What the model is told is a failure. The loop over the calls turns an error into one. -/
def failed : Outcome → Bool
  | .error _ => true
  | .ok (.yaml fields) => (fields.lookup "status").bind Value.asStr = some "Failure"
  | .ok (.json fields) => (fields.lookup "status").bind Value.asStr = some "Failure"
  | .ok (.text _) => false

def optional (key : String) (value : Option Value) : List (String × Value) :=
  (value.map fun value => (key, value)).toList

def exitDebug : ExitStatus → String
  | .completed code => "Completed \x7b code: " ++ toString code ++ " \x7d"
  | .ongoing sessionId => "Ongoing(SessionId(\"" ++ sessionId ++ "\"))"
  | .timeout => "Timeout"
  | .killed => "Killed"

def execCommandOutputToYaml (command : String) (result : ExecCommandOutput) : Answer :=
  match result.exitStatus with
  | .ongoing sessionId =>
    .yaml [("command", .string command), ("status", .string "Background"),
      ("session_id", .string sessionId),
      ("log_file", (result.logFile.map Value.string).getD .null),
      ("message", .string result.aggregatedOutput)]
  | exitStatus =>
    if exitStatus = .completed 0 then
      .yaml [("command", .string command), ("status", .string "Success"),
        ("cmd_out", .string result.aggregatedOutput)]
    else
      .yaml [("command", .string command), ("status", .string "Failure"),
        ("cmd_out", .string result.aggregatedOutput), ("message", .string (exitDebug exitStatus))]

def commandFailure (command message : String) : Outcome :=
  .ok (.yaml [("status", .string "Failure"), ("command", .string command),
    ("message", .string message)])

def ColossalErr.display : ColossalErr → String
  | .io message => "IO error: " ++ message
  | .denied code reason =>
    "Sandbox error: Sandbox denied (code " ++ toString code ++ "): " ++ reason
  | .missingSandboxHelper => "Sandbox helper binary was required but not found"

/-- `PersistentSessionState`, as far as it is handed from session to session here. -/
structure Continuity where
  shellPath : String
  initialCwd : String
  currentCwd : String
  envVars : List (String × String)
  replayCommands : List String
  deriving DecidableEq, Repr

/-- A command with the flags it is called with. -/
structure ExecRequest where
  command : String
  isBackground : Bool
  replayState : Bool
  timeoutMs : Nat
  deriving DecidableEq, Repr

inductive Query where
  | writePolicy (policy : SandboxPolicy)
  | readPolicy
  | toolsBinary (args : List String) (policy : SandboxPolicy) (cwd : String)
  | readBackgroundOutput (sessionId : SessionId)
  | webSearch (query : String) (limit : Option Nat) (site : Option (List String))
  | htmlToText (url : String) (maxContentLength : Option Nat)
  | shellSession (seedCwd : String)
  | forkEval (sessionId : SessionId) (request : ExecRequest) (approval : AskForApproval)
  | execInSession (sessionId : SessionId) (request : ExecRequest) (approval : AskForApproval)
  | syncContinuity (sessionId : SessionId) (replayedCommand : Option String)
  | dropSession (sessionId : SessionId) (onlyCurrent : Bool)
  | readContinuity
  | runIsolated (request : ExecRequest) (cwd : String) (env : List (String × String))
      (policy : SandboxPolicy) (approval : AskForApproval)
  | requestApproval (message : String)

/-- How the tools binary ended, if it could be started. -/
inductive BinaryRun where
  | notStarted (error : String)
  | timedOut
  | exited (success : Bool) (stdout stderr : String)

/-- A search may end before or after it has reached the network. -/
inductive SearchRun where
  | unreachable (error : String)
  | failed (error : String)
  | results (results : Value)

/-- What the manager says to a command; a failure may come before or after the command has
started. -/
inductive Attempt where
  | ran (output : ExecCommandOutput)
  | unmanaged
  | failed (error : ColossalErr) (started : Bool)

inductive Reply where
  | done
  | policy (policy : SandboxPolicy)
  | binary (run : BinaryRun)
  | output (contents : Except String (Option String))
  | search (run : SearchRun)
  | page (content : Except String String)
  | session (opened : Except String SessionId)
  | attempt (attempt : Attempt)
  | synced (result : Except String Unit)
  | continuity (state : Continuity)
  | approval (answer : Option Bool)

/-- The ways a command is run in a shell session: in a fork of a managed Nu session, in the session
where there is none, or in the session whose state is kept. -/
inductive Way where
  | fork
  | generic
  | replay
  deriving DecidableEq, Repr

inductive Phase where
  | called
  | readingPolicy (args : List String)
  | invoking (args : List String) (policy : SandboxPolicy)
  | readingOutput (sessionId : SessionId)
  | searching (query : String) (limit : Option Nat) (site : Option (List String))
  | fetching (url : String) (maxContentLength : Option Nat)
  | opening (way : Way) (request : ExecRequest) (approval : AskForApproval) (retried : Bool)
  | attempting (way : Way) (request : ExecRequest) (approval : AskForApproval) (retried : Bool)
      (sessionId : SessionId)
  | syncing (way : Way) (request : ExecRequest) (sessionId : SessionId) (output : ExecCommandOutput)
  | reopening (request : ExecRequest) (approval : AskForApproval) (sessionId : SessionId)
  | dropping (request : ExecRequest) (sessionId : SessionId) (output : ExecCommandOutput)
  | readingContinuity (request : ExecRequest) (approval : AskForApproval)
  | readingIsolatedPolicy (request : ExecRequest) (approval : AskForApproval) (state : Continuity)
  | isolated (request : ExecRequest) (approval : AskForApproval) (state : Continuity)
      (policy : SandboxPolicy)
  | askingFork (request : ExecRequest) (sessionId : SessionId)
  | askingReplay (request : ExecRequest) (retried : Bool)
  | askingIsolated (request : ExecRequest)
  | ended (outcome : Outcome)

/-- What a call reads of its agent. -/
structure CallingAgent where
  safetyConfig : SafetyConfig
  effectiveCwd : String

/-- What all calls have in common: the process, its shell, and how JSON is read and printed. -/
structure Platform where
  env : ProcessEnv
  workspaceRoot : String
  shellKind : ShellKind
  parse : String → Except String Value
  jsonText : List Value → String

/-- The commands of the tools binary. -/
def binaryTools : List String :=
  ["read_file", "delete_path", "delete_many", "get_files", "get_files_recursive",
    "search_files_with_regex", "edit_file", "semantic_search"]

section Call

variable (platform : Platform) (agent : CallingAgent)

/-- `execute_non_exec_tool_call`, up to its first question; nothing for a name it does not know. -/
def executeNonExecToolCall (name : String) (arguments : Value) : Option Phase :=
  let text (key default : String) : String := (strAt key arguments).getD default
  if name = "read_output" then some (.readingOutput (text "session_id" ""))
  else if name = "submit_verification" then
    some (.ended (.ok (.yaml [("status", .string "Success"),
      ("verification_status", .string (text "status" "unknown")),
      ("feedback", ((strAt "feedback" arguments).map Value.string).getD .null),
      ("end_convo", .bool ((boolAt "end_convo" arguments).getD false))])))
  else if name ∈ binaryTools then
    some (.readingPolicy (buildToolsBinaryArgs platform.jsonText name arguments))
  else if name = "web_search" then
    some (.searching (text "query" "") (u64At "limit" arguments) (siteAt arguments))
  else if name = "html_to_text" then
    some (.fetching (text "url" "") (u64At "max_content_length" arguments))
  else if name = "todo_write" then
    some (.ended (.ok (.json [("status", .string "Success"),
      ("todos", (arguments.get "todos").getD .null)])))
  else if name = "request_split" then
    some (.ended (.ok (.yaml [("status", .string "split_requested"),
      ("reason", .string (text "reason" ""))])))
  else if name = "orchestrate_task" then
    some (.ended (.ok (.json [("status", .string "orchestration_requested"),
      ("goal", .string (text "goal" "")), ("reason", .string (text "reason" ""))])))
  else none

def execRequest (arguments : Value) : ExecRequest where
  command := (strAt "command" arguments).getD ""
  isBackground := (boolAt "is_background" arguments).getD false
  replayState := (boolAt "replay_state" arguments).getD false
  timeoutMs := (u64At "timeout" arguments).getD 600000

/-- A background command cannot be replayed. -/
def ExecRequest.conflicting (request : ExecRequest) : Bool :=
  request.replayState && request.isBackground

def executeExecCommand (request : ExecRequest) : Phase :=
  let approval : AskForApproval := if agent.safetyConfig.askPermission then .onRequest else .never
  let usesManagedNuForeground := platform.shellKind == .managedNu && !request.isBackground
  if request.conflicting then
    .ended (commandFailure request.command
      ("Background commands cannot use replay_state because their shell state cannot be " ++
        "replayed safely"))
  else if !request.replayState && usesManagedNuForeground then
    .opening .fork request approval false
  else if !request.replayState && request.isBackground then .readingContinuity request approval
  else .opening .replay request approval false

/-- A call goes by its name alone; a name that is not known counts as executed. -/
def dispatch (name arguments : String) : Phase :=
  match platform.parse arguments with
  | .error error => .ended (.error error)
  | .ok arguments =>
    if name = "exec_command" then executeExecCommand platform agent (execRequest arguments)
    else
      (executeNonExecToolCall platform name arguments).getD
        (.ended (.ok (.text ("Tool '" ++ name ++ "' executed (not fully implemented)"))))

/-- What a call asks next. -/
def query : Phase → Option Query
  | .called => some (.writePolicy
      (sandboxPolicyFromConfigWithWorkspace platform.env agent.safetyConfig agent.effectiveCwd))
  | .readingPolicy _ => some .readPolicy
  | .invoking args policy => some (.toolsBinary args policy agent.effectiveCwd)
  | .readingOutput sessionId => some (.readBackgroundOutput sessionId)
  | .searching query limit site => some (.webSearch query limit site)
  | .fetching url maxContentLength => some (.htmlToText url maxContentLength)
  | .opening _ _ _ _ => some (.shellSession agent.effectiveCwd)
  | .attempting .fork request approval _ sessionId => some (.forkEval sessionId request approval)
  | .attempting _ request approval _ sessionId => some (.execInSession sessionId request approval)
  | .syncing way request sessionId _ => some (.syncContinuity sessionId
      (if way = .replay ∧ request.replayState = true then some request.command else none))
  | .reopening _ _ sessionId => some (.dropSession sessionId false)
  | .dropping _ sessionId _ => some (.dropSession sessionId true)
  | .readingContinuity _ _ => some .readContinuity
  | .readingIsolatedPolicy _ _ _ => some .readPolicy
  | .isolated request approval state policy => some (.runIsolated request
      (if state.currentCwd = platform.workspaceRoot then agent.effectiveCwd else state.currentCwd)
      (if platform.shellKind = .managedNu then [] else state.envVars) policy approval)
  | .askingFork request _ => some (.requestApproval ("Allow command: " ++ request.command))
  | .askingReplay request _ => some (.requestApproval ("Allow command: " ++ request.command))
  | .askingIsolated request => some (.requestApproval
      ((if request.isBackground then "Allow background command: " else "Allow command: ") ++
        request.command))
  | .ended _ => none

end Call

/-- A command that was refused: the user may be asked. -/
def refused (asking : Phase) (command : String) (error : ColossalErr) : Phase :=
  match error with
  | .denied _ reason =>
    if reason = "User approval required" then asking
    else .ended (commandFailure command (ColossalErr.display error))
  | _ => .ended (commandFailure command (ColossalErr.display error))

/-- The answer of the user; `again` is how the call goes on if the command is allowed. -/
def answered (again : Phase) (command : String) : Option Bool → Phase
  | some true => again
  | some false => .ended (commandFailure command "Command denied by user")
  | none => .ended (.error "Approval channel closed")

def binaryOutcome : BinaryRun → Outcome
  | .notStarted error => .error error
  | .timedOut => .error "Tool execution timed out after 600 seconds"
  | .exited true stdout _ => .ok (.text stdout)
  | .exited false _ stderr => .error ("Tool execution failed: " ++ stderr)

def outputOutcome (sessionId : SessionId) : Except String (Option String) → Outcome
  | .ok contents => .ok (.yaml [("status", .string "Success"), ("session_id", .string sessionId),
      ("output", .string (match contents with
        | none => "(waiting for output...)"
        | some "" => "(no output yet)"
        | some contents => contents))])
  | .error error => .ok (.yaml [("status", .string "Failure"), ("session_id", .string sessionId),
      ("error", .string ("Failed to read output: " ++ error))])

def searchOutcome (query : String) : SearchRun → Outcome
  | .results results => .ok (.yaml [("status", .string "Success"), ("query", .string query),
      ("results", results)])
  | .failed error | .unreachable error =>
    .ok (.yaml [("status", .string "Failure"), ("query", .string query),
      ("error", .string ("Web search failed: " ++ error))])

/-- A page that cannot be fetched is a success that says so. -/
def pageOutcome (url : String) (content : Except String String) : Outcome :=
  .ok (.yaml [("status", .string "Success"), ("url", .string url),
    ("result", .object [("url", .string url), ("content", .string (match content with
      | .ok content => content
      | .error error => "ERROR: " ++ error))])])

/-- How a call goes on with the reply to its question. -/
def resume (platform : Platform) (agent : CallingAgent) (name arguments : String) :
    Phase → Reply → Option Phase
  | .called, .done => some (dispatch platform agent name arguments)
  | .readingPolicy args, .policy policy => some (.invoking args policy)
  | .invoking _ _, .binary run => some (.ended (binaryOutcome run))
  | .readingOutput sessionId, .output contents => some (.ended (outputOutcome sessionId contents))
  | .searching query _ _, .search run => some (.ended (searchOutcome query run))
  | .fetching url _, .page content => some (.ended (pageOutcome url content))
  | .opening way request approval retried, .session opened =>
    match opened with
    | .ok sessionId => some (.attempting way request approval retried sessionId)
    | .error error => some (.ended (.error error))
  | .attempting .fork request approval _ sessionId, .attempt attempt =>
    match attempt with
    | .ran output => some (.ended (.ok (execCommandOutputToYaml request.command output)))
    | .unmanaged => some (.opening .generic { request with timeoutMs := 600000 } approval false)
    | .failed error _ => some (refused (.askingFork request sessionId) request.command error)
  | .attempting .generic request _ _ sessionId, .attempt attempt =>
    match attempt with
    | .ran output => some (.syncing .generic request sessionId output)
    | .unmanaged => none
    | .failed error _ => some (.ended (.error (ColossalErr.display error)))
  | .attempting .replay request approval retried sessionId, .attempt attempt =>
    match attempt with
    | .ran output => some (.syncing .replay request sessionId output)
    | .unmanaged => none
    | .failed (.io message) _ =>
      if Text.contains message "failed to send input to shell" && !retried then
        some (.reopening request approval sessionId)
      else some (.ended (commandFailure request.command (ColossalErr.display (.io message))))
    | .failed error _ => some (refused (.askingReplay request retried) request.command error)
  | .syncing way request sessionId output, .synced result =>
    match result with
    | .ok () => some (.ended (.ok (execCommandOutputToYaml request.command output)))
    | .error error =>
      if way = .replay ∧ (output.exitStatus = .timeout ∨ output.exitStatus = .killed) then
        some (.dropping request sessionId output)
      else some (.ended (.error error))
  | .reopening request approval _, .done => some (.opening .replay request approval true)
  | .dropping request _ output, .done =>
    some (.ended (.ok (execCommandOutputToYaml request.command output)))
  | .readingContinuity request approval, .continuity state =>
    some (.readingIsolatedPolicy request approval state)
  | .readingIsolatedPolicy request approval state, .policy policy =>
    some (.isolated request approval state policy)
  | .isolated request _ _ _, .attempt attempt =>
    match attempt with
    | .ran output => some (.ended (.ok (execCommandOutputToYaml request.command output)))
    | .unmanaged => none
    | .failed error _ => some (refused (.askingIsolated request) request.command error)
  | .askingFork request sessionId, .approval answer =>
    some (answered (.attempting .fork request .never false sessionId) request.command answer)
  | .askingReplay request retried, .approval answer =>
    some (answered (.opening .replay request .never retried) request.command answer)
  | .askingIsolated request, .approval answer =>
    some (answered (.readingContinuity request .never) request.command answer)
  | _, _ => none

end ColossalCode.Dispatch
