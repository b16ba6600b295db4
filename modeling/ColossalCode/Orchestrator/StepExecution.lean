import ColossalCode.Orchestrator.Step

/-! A step executed by `Agent`: from the messages of its model to the task it hands back. -/
namespace ColossalCode.Orchestrator

open Protocol

/-- The messages of an agent, without their token counts; `other` stands for those that
`handle_agent_message` ignores. -/
inductive AgentMessage where
  | agentResponse (content : String)
  | thinkingContent (content : String)
  | thinkingComplete
  | toolCallStarted (name args : String)
  | toolCallCompleted (name result : String)
  | error (err : String)
  | generationStats (promptTokens completionTokens : Nat)
  | done
  | other

/-- What arrives while a step is executed, on the channel of the agent's messages and on that of
its cancellation. -/
inductive Arrival where
  | message (agentMsg : AgentMessage)
  | messagesClosed
  | signal
  | cancelClosed

/-- What the loop over the messages collects. -/
structure Collected where
  latestResponse : String
  toolLog : List Value
  errorMessage : Option String
  events : List OrchestratorEvent

def Collected.emit (c : Collected) (events : List OrchestratorEvent) : Collected :=
  { c with events := c.events ++ events }

def isErrorResult (result : String) : Bool :=
  ["Error:", "error:", "Failed:", "failed:", "Permission denied", "No such file",
    "Command failed"].any (Text.startsWith result) ||
  (result.utf8ByteSize < 500 && Text.contains result "\"error\"") ||
  (result.utf8ByteSize < 500 && Text.contains result "\"is_error\": true") ||
  Text.contains result "status: Failure"

/-- Whether an entry of the tool log is a call of the tool that has no result yet. -/
def awaitsResult (name : String) (entry : Value) : Bool :=
  (entry.get "name").bind Value.asStr == some name &&
    ((entry.get "result").map Value.isNull).getD false

/-- The last call of the tool that has no result yet is given one. -/
def setToolResult (name result : String) (log : List Value) : List Value :=
  (log.reverse.replaceF fun entry =>
    if awaitsResult name entry then
      match entry with
      | .object fields => some (.object (setField "result" (.string result) fields))
      | _ => none
    else none).reverse

/-- `handle_agent_message`: what one message adds, and whether it is the last one. -/
def handleAgentMessage (stepPrefix : String) (c : Collected) : AgentMessage → Collected × Bool
  | .agentResponse content =>
    ({ c.emit [.agentMessage stepPrefix (.text content)] with latestResponse := content }, false)
  | .thinkingContent content => (c.emit [.agentMessage stepPrefix (.thinking content)], false)
  | .thinkingComplete => (c.emit [.agentMessage stepPrefix (.thinking "")], false)
  | .error err =>
    ({ c.emit [.agentMessage stepPrefix (.error err)] with errorMessage := some err }, true)
  | .toolCallStarted name args =>
    ({ c.emit [.toolCallStarted stepPrefix name args,
          .agentMessage stepPrefix (.toolCall name args none false)] with
        toolLog := c.toolLog ++
          [.object [("name", .string name), ("arguments", .string args),
            ("result", .null)]] }, false)
  | .toolCallCompleted name result =>
    let isError := isErrorResult result
    ({ c.emit [.toolCallCompleted stepPrefix name result isError,
          .agentMessage stepPrefix (.toolCall name "" (some result) isError)] with
        toolLog := setToolResult name result c.toolLog }, false)
  | .generationStats promptTokens completionTokens =>
    (c.emit [.agentMessage stepPrefix (.generationStats promptTokens completionTokens)], false)
  | .done => (c.emit [.agentMessage stepPrefix .done], true)
  | .other => (c, false)

/-- The loop of `execute_step_with_events_and_cancel`: what it has collected when it ends, and
whether a cancel signal was received. `none` while it waits for more; the cancel channel is read
only while `listening`. -/
def collect (stepPrefix : String) (listening cancelRequested : Bool) (c : Collected) :
    List Arrival → Option (Collected × Bool)
  | [] => none
  | .message agentMsg :: rest =>
    let (c, last) := handleAgentMessage stepPrefix c agentMsg
    if last then some (c, cancelRequested)
    else collect stepPrefix listening cancelRequested c rest
  | .messagesClosed :: _ => some (c, cancelRequested)
  | .signal :: rest =>
    if listening then collect stepPrefix false true c rest
    else collect stepPrefix listening cancelRequested c rest
  | .cancelClosed :: rest => collect stepPrefix false cancelRequested c rest

/-- The prompt that a step is executed with. -/
def stepPrompt (workingDirectory : Option String) (step : SpecStep) (spec : SpecSheet) : String :=
  let worktreeContext := match workingDirectory with
    | some cwd => "\n\n**IMPORTANT - Working Directory:**\n" ++
        "You are working in an isolated git worktree at: " ++ cwd ++ "\n" ++
        "ALL file operations (create, edit, read) MUST use this directory as the base.\n" ++
        "Use relative paths from this directory, or absolute paths starting with this path.\n" ++
        "Do NOT use paths like ~/rust/todo or /home/user/... - use the worktree path instead."
    | none => ""
  "## Current Task: " ++ step.title ++ "\n\n**Spec:** " ++ spec.title ++ "\n\n**Step " ++
    step.index ++ " of " ++ toString spec.steps.length ++ ":** " ++ step.title ++
    "\n\n**Instructions:**\n" ++ step.instructions ++ worktreeContext ++
    "\n\n**Acceptance Criteria:**\n" ++
    Text.join "\n" (step.acceptanceCriteria.map fun c => "- " ++ c)

/-- What an execution has besides its step: the agent's working directory, the ids of the tasks it
makes, what arrives, and how `process_message` ends. -/
structure Execution where
  workingDirectory : Option String
  taskId : String
  cancelledTaskId : String
  arrivals : List Arrival
  processed : Except String Unit

namespace Execution

/-- `execute_step_with_events_and_cancel` once its loop has ended. -/
def finish (x : Execution) (rt : Runtime) (step : SpecStep) (spec : SpecSheet) (c : Collected)
    (wasCancelled : Bool) : Except String Task :=
  let errorMessage := match x.processed with
    | .ok () => c.errorMessage
    | .error err => c.errorMessage.or (some err)
  if wasCancelled then
    .ok ⟨x.cancelledTaskId, some spec.id, ⟨.cancelled, some "Step cancelled by user"⟩, none⟩
  else
    match errorMessage with
    | some err => .ok ⟨x.taskId, some spec.id, ⟨.failed, some err⟩, none⟩
    | none =>
      let summary : TaskSummary :=
        { taskId := x.taskId
          stepIndex := step.index
          summaryText :=
            if c.latestResponse.isEmpty then s!"Step {step.index} completed: {step.title}"
            else c.latestResponse
          artifactsTouched := []
          testsRun := []
          verification := ⟨.passed, []⟩
          worktree := none }
      match rt.valueOfSummary summary with
      | .error err => .error err
      | .ok value =>
        let metadata : TaskMetadata :=
          { specSheet := none
            summary := some value
            extra := [("prompt", .string (stepPrompt x.workingDirectory step spec)),
              ("step_index", .string step.index), ("step_title", .string step.title),
              ("toolLog", .array c.toolLog)] }
        .ok ⟨x.taskId, some spec.id, ⟨.completed, some s!"Step {step.index} completed"⟩,
          some metadata⟩

/-- `execute_step_with_events_and_cancel`, with a cancel channel where `listening`: the events it
sends and the task it returns. -/
def executeStep (x : Execution) (rt : Runtime) (step : SpecStep) (spec : SpecSheet)
    (stepPrefix : String) (listening : Bool) :
    Option (List OrchestratorEvent × Except String Task) :=
  let prompt := stepPrompt x.workingDirectory step spec
  let start : Collected := ⟨"", [], none, [.agentMessage stepPrefix (.userPrompt prompt)]⟩
  (collect stepPrefix listening false start x.arrivals).map fun (c, wasCancelled) =>
    (c.events, x.finish rt step spec c wasCancelled)

end Execution

variable {rt : Runtime} {x : Execution} {step : SpecStep} {spec : SpecSheet} {stepPrefix : String}
  {listening : Bool} {events : List OrchestratorEvent} {task : Task}

/-- No cancel signal, no cancellation. -/
theorem collect_cancelled {requested : Bool} {c d : Collected} {arrivals : List Arrival}
    (h : collect stepPrefix listening requested c arrivals = some (d, true)) :
    requested = true ∨ .signal ∈ arrivals := by
  fun_induction collect stepPrefix listening requested c arrivals with
  | case1 => simp at h
  | case2 | case4 =>
    simp only [Option.some.injEq, Prod.mk.injEq] at h
    exact .inl h.2
  | case3 | case6 | case7 =>
    rename_i ih
    exact (ih h).imp_right (List.mem_cons_of_mem _)
  | case5 => exact .inr List.mem_cons_self

/-- A task that an agent hands back holds no sub-spec, and is cancelled only by a signal. -/
theorem executeStep_task (h : x.executeStep rt step spec stepPrefix listening =
      some (events, .ok task)) :
    extractSubSpec rt task = .ok none ∧
      (task.status.state = .cancelled → .signal ∈ x.arrivals) := by
  obtain ⟨⟨c, wasCancelled⟩, hc, hx⟩ := Option.map_eq_some_iff.mp h
  simp only [Prod.mk.injEq] at hx
  obtain ⟨-, hx⟩ := hx
  unfold Execution.finish at hx
  cases wasCancelled with
  | true =>
    obtain rfl : _ = task := by simpa using hx
    refine ⟨rfl, fun _ => ?_⟩
    simpa using collect_cancelled hc
  | false =>
    simp only [Bool.false_eq_true, if_false] at hx
    split at hx
    · obtain rfl := Except.ok.inj hx
      exact ⟨rfl, by simp⟩
    · split at hx
      · simp at hx
      · obtain rfl := Except.ok.inj hx
        exact ⟨rfl, by simp⟩

end ColossalCode.Orchestrator
