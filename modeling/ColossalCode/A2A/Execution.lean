import ColossalCode.Orchestrator.StepExecution
import ColossalCode.Pending.Settle

/-! `AgentA2AHandler::execute_task`: what an execution does, one effect after the other. The
messages and the error that a task holds, its time stamps and the statistics of a generation are
left out. -/
namespace ColossalCode.A2A

open Protocol
open Orchestrator (AgentMessage)

def splitDirective : String := "__nite_split__"

/-- An entry of `tool_events`. -/
abbrev ToolEvent := Pending.Call String String String

inductive StreamEvent where
  | statusUpdate (status : TaskStatus) (finalUpdate : Bool)
  | message (content : String)
  | task (task : Task)

/-- What an execution does to what it shares: it sends to the streams of its task, has the agent
process its prompt, cancels what the agent does, and stores its task. -/
inductive Effect where
  | send (event : StreamEvent)
  | process
  | requestCancel
  | processed
  | store (task : Task)

/-- What the agent gives an execution: the messages of `process_message` and its result, and the
results of its functions of a step. -/
structure Agent where
  messages : List AgentMessage
  processed : Except String Unit
  extractSplitReason : String → Option String
  requestSplit : SpecStep → Except String SpecSheet
  valueOfSpec : SpecSheet → Except String Value
  synthesizeSplitSummary : Task → SpecStep → SpecSheet → TaskSummary
  collectSummary : Task → TaskSummary

/-- What the loop over the messages has read. -/
structure Reading where
  latestResponse : String
  errorMessage : Option String
  toolEvents : List ToolEvent
  /-- The reason for a split, once one is requested. -/
  splitRequested : Option (Option String)
  effects : List Effect

def Reading.init : Reading := ⟨"", none, [], none, []⟩

/-- The entry of a tool event in `toolLog`. -/
def entry (event : ToolEvent) : Value :=
  .object [("name", .string event.key), ("arguments", .string event.item),
    ("result", (event.result.map Value.string).getD .null)]

section Execute

variable (rt : Runtime) (agent : Agent)

/-- What a message adds, and whether it is the last one to be read. -/
def readMessage (r : Reading) : AgentMessage → Reading × Bool
  | .agentResponse content =>
    ({ r with
      latestResponse := content
      effects := r.effects ++ [.send (.message content)] }, false)
  | .error err => ({ r with errorMessage := some err }, true)
  | .toolCallStarted name args =>
    ({ r with toolEvents := r.toolEvents ++ [⟨name, args, none⟩] }, false)
  | .toolCallCompleted name result =>
    let r := { r with toolEvents := Pending.settle r.toolEvents (name, result) }
    if name = "request_split" then
      ({ r with
        splitRequested := some (agent.extractSplitReason result)
        effects := r.effects ++ [.requestCancel] }, true)
    else (r, false)
  | .done => (r, true)
  | _ => (r, false)

def readMessages : Reading → List AgentMessage → Reading
  | r, [] => r
  | r, agentMsg :: rest =>
    let (r, last) := readMessage agent r agentMsg
    if last then r else readMessages r rest

def baseMetadataForStep (step : SpecStep) : TaskMetadata :=
  ⟨none, none, [("stepIndex", .string step.index), ("stepInstructions", .string step.instructions),
    ("stepTitle", .string step.title)]⟩

/-- `handle_split_task`, after some effects. -/
def handleSplitTask (effects : List Effect) (task : Task) (step : SpecStep) (spec : SpecSheet)
    (splitReason : Option String) : List Effect × Except String Task :=
  match agent.requestSplit step with
  | .error err => (effects, .error s!"failed to request split: {err}")
  | .ok splitSpec =>
    let summary := agent.synthesizeSplitSummary task step splitSpec
    match agent.valueOfSpec splitSpec, rt.valueOfSummary summary with
    | .error err, _ | _, .error err =>
        (effects, .error s!"failed to serialize split metadata: {err}")
    | .ok specValue, .ok summaryValue =>
      let metadata := { baseMetadataForStep step with
        specSheet := some specValue, summary := some summaryValue }
      let task := { task with
        status := ⟨.submitted, some "split"⟩, metadata := some metadata }
      let reason := (splitReason.map fun reason => s!" (reason: {reason})").getD ""
      let response := s!"Step {step.index} split into {splitSpec.steps.length} child steps for spec " ++
        s!"{spec.id}{reason}"
      (effects ++ [.send (.message response), .send (.statusUpdate task.status true)], .ok task)

/-- `execute_task` once its generation has ended well. -/
def completeTask (effects : List Effect) (task : Task) (step : SpecStep) (r : Reading) :
    List Effect × Except String Task :=
  let effects := effects ++
    if (Text.trim r.latestResponse).isEmpty then [] else [.send (.message r.latestResponse)]
  let base := baseMetadataForStep step
  let metadata := { base with
    extra := base.extra ++ [("toolLog", .array (r.toolEvents.map entry))] }
  let task := { task with metadata := some metadata }
  match rt.valueOfSummary (agent.collectSummary task) with
  | .error err => (effects, .error s!"failed to serialize summary: {err}")
  | .ok summaryValue =>
    let task := { task with
      status := ⟨.completed, some "Response ready"⟩
      metadata := some { metadata with summary := some summaryValue } }
    (effects ++ [.send (.statusUpdate task.status true), .send (.task task), .store task], .ok task)

/-- `execute_task`: its effects in their order, and its result. -/
def executeTask (id : String) (step : SpecStep) (spec : SpecSheet) :
    List Effect × Except String Task :=
  let task : Task := ⟨id, some spec.id, ⟨.working, some s!"Processing step {step.index}"⟩, none⟩
  let effects : List Effect :=
    [.send (.statusUpdate task.status false), .send (.message step.instructions)]
  if step.constraints.contains splitDirective then
    handleSplitTask rt agent effects task step spec none
  else
    let r := readMessages agent .init agent.messages
    let effects := effects ++ .process :: r.effects ++ [.processed]
    let errorMessage := match agent.processed with
      | .ok () => r.errorMessage
      | .error err => some err
    match r.splitRequested, errorMessage with
    | some reason, _ => handleSplitTask rt agent effects task step spec reason
    | none, some err =>
      let task := { task with status := ⟨.failed, some "Generation failed"⟩ }
      (effects ++ [.send (.statusUpdate task.status true), .send (.task task), .store task],
        .error err)
    | none, none => completeTask rt agent effects task step r

end Execute

/-- Any summary is written as null. -/
def jsonless : Runtime :=
  ⟨"", fun _ => none, fun _ => none, fun _ => .ok .null, fun _ => none, fun _ => none⟩

end ColossalCode.A2A
