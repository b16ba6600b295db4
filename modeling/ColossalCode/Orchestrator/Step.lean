import ColossalCode.Orchestrator.State
import ColossalCode.Transition.Run

/-! One step of a run: of the orchestrator's `run` loop between two accesses to shared state or
two waits on an agent, or of a control call. -/
namespace ColossalCode.Orchestrator

open Protocol

/-- `emit_event` of a status change of a step of the run loop. -/
def statusEvent (a : Active) (status : StepStatus) : OrchestratorEvent :=
  .stepStatusChanged a.spec.id a.spec.title a.step.index a.step.title a.currentPrefix
    .implementor status

/-- The status change a step announces with the status its frame records: the event, then
`update_spec_status`. -/
def announce (a : Active) : List Entry :=
  [.event (statusEvent a a.step.status),
    .call (.updateSpecStatus a.spec a.step a.currentPrefix)]

def markSummary (summary : TaskSummary) (status : VerificationStatus) : TaskSummary :=
  { summary with verification := { summary.verification with status } }

/-- A failed verification with one more feedback entry. -/
def noteFeedback (summary : TaskSummary) (author message : String) : TaskSummary :=
  { summary with verification :=
      ⟨.failed, summary.verification.feedback ++ [⟨author, message⟩]⟩ }

def agentEvent (context : VerificationContext) (step : SpecStep) (suffix : String)
    (role : StepRole) (status : StepStatus) : OrchestratorEvent :=
  .stepStatusChanged context.specId context.specTitle step.index step.title
    (context.stepPrefix ++ suffix) role status

def summarizerEvent (context : VerificationContext) (status : StepStatus) : OrchestratorEvent :=
  agentEvent context (buildSummarizerStep context) ".summary" .summarizer status

def verifierEvent (context : VerificationContext) (status : StepStatus) : OrchestratorEvent :=
  agentEvent context (buildVerifierStep context) ".verify" .verifier status

/-- `run_summarizer_agent` from the agent's result on: what it emits and what it returns. -/
def summarizerResult (rt : Runtime) (context : VerificationContext) :
    Except String Task → List Entry × Except String TaskSummary
  | .error err => ([], .error err)
  | .ok task =>
    if task.status.state = .failed then
      ([.event (summarizerEvent context .failed)], .error "Summarizer task failed")
    else
      match extractSummary rt task with
      | .error err => ([], .error err)
      | .ok summary =>
        ([.event (summarizerEvent context .completed)],
          .ok { summary with
            taskId := context.summary.taskId
            artifactsTouched := context.summary.artifactsTouched
            testsRun := context.summary.testsRun
            worktree := context.summary.worktree })

/-- `run_verifier_agent` from the agent's result on. -/
def verifierResult (rt : Runtime) (context : VerificationContext) :
    Except String Task → List Entry × Except String VerificationToolPayload
  | .error err => ([], .error err)
  | .ok task =>
    if task.status.state = .failed then
      ([.event (verifierEvent context .failed)], .error "Verifier task failed")
    else
      match extractVerificationPayload rt task with
      | .error err => ([], .error err)
      | .ok payload =>
        if payload.endConvo then ([.event (verifierEvent context .completed)], .ok payload)
        else ([], .error "submit_verification must set end_convo=true")

/-- The outcome and the feedback that a verifier's payload or error stands for. -/
def verdict : Except String VerificationToolPayload → VerificationOutcome × Option String
  | .ok payload => (mapVerificationOutcome payload.status, payload.feedback)
  | .error err => (.failed, some err)

/-- The reports of a summary that passed. -/
def passReports (summary : TaskSummary) : List Report :=
  [.updateTaskSummary summary, .summaryUpdated summary, .closeTaskChannel summary.taskId,
    .channelClosed summary.taskId, .notifyStepSuccess summary]

/-- The reports of a summary that was sent back or rejected. -/
def rejectReports (summary : TaskSummary) (message : String) : List Report :=
  [.updateTaskSummary summary, .summaryUpdated summary, .verifierFailed summary message,
    .sendTaskMessage summary.taskId message]

/-- The reports of a verifier that passes a summary once more. -/
def repassReports (summary : TaskSummary) : List Report :=
  [.updateTaskSummary summary, .summaryUpdated summary, .notifyStepSuccess summary]

/-- What a verdict leads to: the summary with it, the reports on it, the step's disposition. -/
structure Conclusion where
  summary : TaskSummary
  reports : List Report
  disposition : StepDisposition

def conclude (summary : TaskSummary) (outcome : VerificationOutcome) (feedback : Option String) :
    Conclusion :=
  match outcome with
  | .verified =>
    let summary := markSummary summary .passed
    ⟨summary, passReports summary, .success summary⟩
  | .needsRevision =>
    let message := feedback.getD "Verifier requested changes before completion"
    let summary := noteFeedback summary "verifier" message
    ⟨summary, rejectReports summary message, .retry⟩
  | .failed =>
    let message := feedback.getD "Verifier rejected the changes"
    let summary := noteFeedback summary "verifier" message
    ⟨summary, rejectReports summary message, .fail summary⟩

/-- The same for a verifier that is run again: the step is settled already. -/
def reconclude (summary : TaskSummary) (outcome : VerificationOutcome)
    (feedback : Option String) : TaskSummary × List Report :=
  match outcome with
  | .verified =>
    let summary := markSummary summary .passed
    (summary, repassReports summary)
  | .needsRevision | .failed =>
    let message := feedback.getD "Verifier rejected the changes"
    let summary := noteFeedback summary "verifier" message
    (summary, rejectReports summary message)

/-- Replace a field of an object or add it; the order of the fields carries no meaning. -/
def setField (key : String) (value : Value) : List (String × Value) → List (String × Value)
  | [] => [(key, value)]
  | (k, v) :: rest => if k = key then (k, value) :: rest else (k, v) :: setField key value rest

/-- `append_summary_to_history` on the metadata of a spec. -/
def appendHistory (metadata summary : Value) : Value :=
  let fields := match metadata with
    | .object fields => fields
    | _ => []
  match fields.lookup "history" with
  | none => .object (setField "history" (.array [summary]) fields)
  | some (.array items) => .object (setField "history" (.array (items ++ [summary])) fields)
  | some previous => .object (setField "history" (.array [previous, summary]) fields)

/-- A step with its status, its sub-spec and its spec's history as it is completed. -/
def completedStep (a : Active) (child : Option SpecSheet) (value : Value) : Active :=
  ((match child with
    | some sub => a.setSubSpec sub
    | none => a).setStatus .completed).setMetadata (appendHistory a.spec.metadata value)

def rejectedStep (a : Active) (value : Value) : Active :=
  (a.setStatus .failed).setMetadata (appendHistory a.spec.metadata value)

/-- The frames pushed after a completed step: the next step's, and its child's above it. -/
def acceptedFrames (a completed : Active) (child : Option SpecSheet) : List Frame :=
  (if a.stepIdx + 1 < a.spec.steps.length then [completed.next] else []) ++
    match child with
    | some sub => [⟨sub, 0, a.currentPrefix⟩]
    | none => []

namespace State

def goto (s : State) (pc : Pc) : State := { s with pc }

def output (s : State) (entries : List Entry) : State := { s with log := s.log ++ entries }

def done (s : State) (frame : Frame) : State := { s with settled := s.settled ++ [frame] }

/-- A run returns, with the frame that it popped and still holds. -/
def finish (s : State) (result : Except String Unit) (held : Option Frame) : State :=
  s.goto (.finished result held)

/-- From the check of the paused flag to the `InProgress` status of a step. -/
def startStep (s : State) (frame : Frame) : State :=
  if h : frame.stepIdx < frame.spec.steps.length then
    let a := Active.setStatus ⟨frame, h⟩ .inProgress
    s.goto (.perform (announce a) (.setPrefix a))
  else
    (s.done frame).goto .loopHead

/-- A cancelled step: its frame goes to `pending_resume`. -/
def storePending (s : State) (a : Active) : State :=
  { s with pendingResume := some (a.setStatus .pending) }

def failStep (s : State) (a : Active) : State :=
  let failed := a.setStatus .failed
  (s.done a.toFrame).goto (.perform (announce failed) (.push none [failed.next]))

/-- The context both agents of the verification are given. -/
def verificationContext (rt : Runtime) (a : Active) (task : Task) (summary : TaskSummary) :
    VerificationContext where
  specId := a.spec.id
  specTitle := a.spec.title
  step := a.step
  stepPrefix := a.currentPrefix
  summary := summary
  toolLog := formatToolLog task
  workspaceRoot := rt.workspaceRoot

/-- `verify_and_feedback` up to the verifier agent, which runs where verification is required. -/
def verify (s : State) (rt : Runtime) (a : Active) (task : Task) (summary : TaskSummary) :
    State :=
  if a.step.requiresVerification then
    let pending := markSummary summary .pending
    let context := verificationContext rt a task pending
    { s with
      lastVerification := some context
      pc := .perform [.call (.updateTaskSummary pending), .event (.summaryUpdated pending),
        .event (verifierEvent context .inProgress)] (.verifying a task context) }
  else
    let passed := markSummary summary .passed
    s.goto (.perform ((passReports passed).map Report.entry) (.settle a task (.success passed)))

/-- A finished task: its summary is extracted, and summarized again where verification is
required. -/
def finishTask (s : State) (rt : Runtime) (a : Active) (task : Task) : State :=
  match extractSummary rt task with
  | .error err => s.finish (.error err) (some a.toFrame)
  | .ok summary =>
    if a.step.requiresVerification then
      let context := verificationContext rt a task summary
      s.goto (.perform [.event (summarizerEvent context .inProgress)]
        (.summarizing a task context))
    else s.verify rt a task summary

/-- What becomes of a task once the commands received while it ran are handled. -/
def decideTask (s : State) (rt : Runtime) (a : Active) (task : Task) : State :=
  if s.cancelPrefix = some a.currentPrefix then
    { s.storePending a with cancelPrefix := none, pc := .park a }
  else
    match task.status.state with
    | .cancelled => (s.storePending a).goto (.park a)
    | .submitted =>
      match extractSubSpec rt task with
      | .error err => s.finish (.error err) (some a.toFrame)
      | .ok none => s.finishTask rt a task
      | .ok (some child) =>
        let split := (a.setStatus .pending).setSubSpec child
        s.goto (.perform [.event (.childSpecPushed a.step.index child.id child.steps.length)]
          (.push (some split.toFrame) [⟨child, 0, a.currentPrefix⟩]))
    | .failed => s.failStep a
    | _ => s.finishTask rt a task

/-- `process_commands` returned false. -/
def resumeSite (s : State) (rt : Runtime) : Site → State
  | .afterPop frame => s.goto (.pausedCheck frame)
  | .whilePaused frame => s.goto (.pausedCheck frame)
  | .afterExecute a task => s.decideTask rt a task

/-- The `ResumeStep` arm of `process_commands`. -/
def resumeStep (s : State) (stepPrefix message : String) : State :=
  match s.pendingResume with
  | none => { s.output [.event .resumed] with paused := false }
  | some a =>
    if a.framePrefix = stepPrefix then
      { s.output [.event .resumed] with
        pendingResume := none
        stack := (a.resumed message).toFrame :: s.stack
        paused := false }
    else s

/-- The prefix of an injected spec: composed from the frame on top of the stack. -/
def injectPrefix (stack : List Frame) (stepIndex : String) : String :=
  match stack with
  | top :: _ => composePrefix top.framePrefix stepIndex
  | [] => stepIndex

/-- The `InjectSplit` arm of `process_commands`. -/
def injectSplit (s : State) (stepIndex : String) (childSpec : SpecSheet) : State :=
  let childPrefix := injectPrefix s.stack stepIndex
  { s.output [.event (.childSpecPushed stepIndex childSpec.id childSpec.steps.length)] with
    stack := ⟨childSpec, 0, childPrefix⟩ :: s.stack
    born := s.born ++ [⟨childSpec, 0, childPrefix⟩] }

/-- The `CancelStep` arm of `process_commands`. -/
def cancelStep (s : State) (stepPrefix : String) : State :=
  let s := { s with cancelPrefix := some stepPrefix }
  match s.currentCancel with
  | some channel =>
    if s.currentPrefix = some stepPrefix then
      { s with currentCancel := none, sharedCancel := none, signals := s.signals ++ [channel] }
    else s
  | none => s

/-- One command of the loop of `process_commands`, with those after it. -/
def handleCommand (s : State) (site : Site) (rest : List OrchestratorCommand)
    (command : OrchestratorCommand) : State :=
  let s := (s.output [.handled command]).goto (.handle site rest)
  match command with
  | .pause => { s.output [.event .paused] with paused := true }
  | .resume => { s.output [.event .resumed] with paused := false }
  | .abort => { s.output [.event .aborted] with
      aborted := true, pc := .finished (.ok ()) (some site.held) }
  | .rerunVerifiers =>
    match s.lastVerification with
    | none => s
    | some context =>
      (s.output [.event (verifierEvent context .inProgress)]).goto (.rerunning site rest context)
  | .injectSplit stepIndex childSpec => s.injectSplit stepIndex childSpec
  | .cancelStep stepPrefix => s.cancelStep stepPrefix
  | .resumeStep stepPrefix message => s.resumeStep stepPrefix message

/-- The three arms of `run` on what the verification decided. -/
def settle (s : State) (rt : Runtime) (a : Active) (task : Task) : StepDisposition → State
  | .retry =>
    let pending := a.setStatus .pending
    s.goto (.perform (announce pending) (.push (some pending.toFrame) []))
  | .success summary =>
    match extractSubSpec rt task with
    | .error err => s.finish (.error err) (some a.toFrame)
    | .ok child =>
      match rt.valueOfSummary summary with
      | .error err => s.finish (.error err) (some a.toFrame)
      | .ok value =>
        let completed := completedStep a child value
        (s.done a.toFrame).goto (.perform (announce completed)
          (.push none (acceptedFrames a completed child)))
  | .fail summary =>
    match rt.valueOfSummary summary with
    | .error err => s.finish (.error err) (some a.toFrame)
    | .ok value =>
      (s.done a.toFrame).goto (.perform (announce (rejectedStep a value)) .loopHead)

/-- The moves of `run` that wait for nobody. -/
def tick (rt : Runtime) (s : State) : Option State :=
  match s.pc with
  | .loopHead =>
    match s.stack with
    | [] => some ((s.output [.event .completed]).finish (.ok ()) none)
    | frame :: rest => some { s with stack := rest, pc := .receive (.afterPop frame) [] }
  | .receive site received =>
    match s.commands with
    | [] => some (s.goto (.handle site received))
    | command :: rest =>
      some { s with commands := rest, pc := .receive site (received ++ [command]) }
  | .handle site [] => some (s.resumeSite rt site)
  | .handle site (command :: rest) => some (s.handleCommand site rest command)
  | .pausedCheck frame =>
    if s.paused then some (s.goto (.receive (.whilePaused frame) [])) else some (s.startStep frame)
  | .perform [] next => some (s.goto next.pc)
  | .perform (entry :: todo) next =>
    if entry.isCall then none else some ((s.output [entry]).goto (.perform todo next))
  | .setPrefix a =>
    some { s with
      nextChannel := s.nextChannel + 1
      currentPrefix := some a.currentPrefix
      sharedPrefix := some a.currentPrefix
      pc := .setCancel a s.nextChannel }
  | .setCancel a channel =>
    some { s with
      currentCancel := some channel
      sharedCancel := some channel
      pc := .cancelCheck a channel }
  | .cancelCheck a channel =>
    if s.cancelPrefix = some a.currentPrefix then
      some { s.storePending a with cancelPrefix := none, pc := .clearCancel a none }
    else
      some ((s.output [.execute a.step a.spec a.currentPrefix]).goto (.executing a channel))
  | .clearCancel a task =>
    some { s with currentCancel := none, sharedCancel := none, pc := .clearPrefix a task }
  | .clearPrefix a task =>
    some { s with
      currentPrefix := none
      sharedPrefix := none
      pc := match task with
        | some task => .receive (.afterExecute a task) []
        | none => .park a }
  | .park a =>
    some { s.output [.event (.stepCancelled a.currentPrefix)] with paused := true, pc := .loopHead }
  | .push back fresh =>
    some { s with
      stack := fresh.reverse ++ (back.toList ++ s.stack)
      born := s.born ++ fresh
      pc := .loopHead }
  | .settle a task disposition => some (s.settle rt a task disposition)
  | .reporting [] site rest summary =>
    some { s with
      lastVerification := s.lastVerification.map (·.withSummary summary)
      pc := .handle site rest }
  | .reporting (report :: todo) site rest summary =>
    if report.entry.isCall then none
    else some ((s.output [report.entry]).goto (.reporting todo site rest summary))
  | .executing .. | .summarizing .. | .verifying .. | .rerunning .. | .finished .. => none

/-- The main agent answers the call that a run waits for. -/
def ack (s : State) (result : Except String Unit) : Option State :=
  match s.pc with
  | .perform (.call c :: todo) next =>
    let called := s.output [.call c]
    match result with
    | .ok () => some (called.goto (.perform todo next))
    | .error err => some (called.finish (.error err) s.pc.inHand)
  | .reporting (report :: todo) site rest summary =>
    if report.entry.isCall then
      let called := s.output [report.entry]
      match result with
      | .ok () => some (called.goto (.reporting todo site rest summary))
      | .error err =>
        some ((called.output [.event (.error s!"Failed to rerun verifier: {err}")]).goto
          (.handle site rest))
    else none
  | _ => none

/-- The summarizer agent returned. -/
def summarized (s : State) (rt : Runtime) (a : Active) (task : Task)
    (context : VerificationContext) (result : Except String Task) : State :=
  let s := s.output [.ran .summarizer (context.stepPrefix ++ ".summary") result]
  match summarizerResult rt context result with
  | (entries, .error message) =>
    let summary := noteFeedback context.summary "summarizer" message
    (s.output entries).goto
      (.perform ((rejectReports summary message).map Report.entry) (.settle a task .retry))
  | (entries, .ok summary) =>
    (s.output entries).verify rt a task { summary with stepIndex := a.step.index }

/-- The verifier agent returned: `verify_and_feedback` from there on. -/
def verified (s : State) (rt : Runtime) (a : Active) (task : Task)
    (context : VerificationContext) (result : Except String Task) : State :=
  let s := s.output [.ran .verifier (context.stepPrefix ++ ".verify") result]
  let (entries, payload) := verifierResult rt context result
  let (outcome, feedback) := verdict payload
  let conclusion := conclude context.summary outcome feedback
  { s.output entries with
    lastVerification := s.lastVerification.map (·.withSummary conclusion.summary)
    pc := .perform (conclusion.reports.map Report.entry)
      (.settle a task conclusion.disposition) }

/-- The verifier agent returned to `rerun_last_verifier`. -/
def reverified (s : State) (rt : Runtime) (site : Site) (rest : List OrchestratorCommand)
    (context : VerificationContext) (result : Except String Task) : State :=
  let s := s.output [.ran .verifier (context.stepPrefix ++ ".verify") result]
  let (entries, payload) := verifierResult rt context result
  let (outcome, feedback) := verdict payload
  let (summary, reports) := reconclude context.summary outcome feedback
  (s.output entries).goto (.reporting reports site rest summary)

/-- A sub-agent returns the result that a run waits for. -/
def subAgentDone (rt : Runtime) (s : State) (result : Except String Task) : Option State :=
  match s.pc with
  | .executing a _ =>
    let s := s.output [.ran .implementor a.currentPrefix result]
    match result with
    | .error err => some (s.finish (.error err) (some a.toFrame))
    | .ok task => some (s.goto (.clearCancel a (some task)))
  | .summarizing a task context => some (s.summarized rt a task context result)
  | .verifying a task context => some (s.verified rt a task context result)
  | .rerunning site rest context => some (s.reverified rt site rest context result)
  | _ => none

/-- One access of a control call to shared state, and what the call has still to do. -/
def controlOp (s : State) (rest : List ControlOp) : ControlOp → State × List ControlOp
  | .storePaused b => ({ s with paused := b }, rest)
  | .storeAborted => ({ s with aborted := true }, rest)
  | .matchPrefix p => (s, if s.sharedPrefix = some p then .readCancel :: rest else rest)
  | .readCancel =>
    match s.sharedCancel with
    | some channel => (s, .signal channel :: rest)
    | none => (s, rest)
  | .signal channel => ({ s with signals := s.signals ++ [channel] }, rest)
  | .send command => ({ s with commands := s.commands ++ [command] }, rest)

/-- The `i`-th call in progress takes its next step, or returns when it has none left. -/
def control (s : State) (i : Nat) : Option State :=
  match s.calls[i]? with
  | none => none
  | some ⟨_, []⟩ => some { s with calls := s.calls.eraseIdx i }
  | some ⟨method, op :: rest⟩ =>
    let (s, ops) := s.controlOp rest op
    some { s with calls := s.calls.set i ⟨method, ops⟩ }

end State

inductive Action where
  | tick
  | ack (result : Except String Unit)
  | subAgentDone (result : Except String Task)
  | call (method : ControlMethod)
  | control (i : Nat)

def step (rt : Runtime) (s : State) : Action → Option State
  | .tick => s.tick rt
  | .ack result => s.ack result
  | .subAgentDone result => s.subAgentDone rt result
  | .call method => some { s with calls := s.calls ++ [⟨method, method.ops⟩] }
  | .control i => s.control i

/-- Execute a list of actions from a state of the orchestrator. -/
abbrev run (rt : Runtime) : State → List Action → Option State := Transition.run (step rt)

/-- States that some run from `spec` reaches. -/
def Reachable (rt : Runtime) (spec : SpecSheet) (s : State) : Prop :=
  ∃ actions, run rt (.init spec) actions = some s

def sampleStep (index : String) : SpecStep where
  index := index
  title := "Step " ++ index
  instructions := "Do the thing"
  acceptanceCriteria := []
  requiredTools := []
  constraints := []
  dependencies := []
  isParallel := false
  requiresVerification := false
  maxParallelism := none
  status := .pending
  subSpec := none

def sampleSheet (id : String) (steps : List SpecStep) : SpecSheet :=
  ⟨id, "Spec", "desc", steps, "agent-1", .object []⟩

/-- The JSON of a sample sheet whose steps leave out what serde defaults. -/
def sampleSheetValue (id : String) (indices : List String) : Value :=
  .object [("id", .string id), ("title", .string "Spec"), ("description", .string "desc"),
    ("steps", .array (indices.map fun index => .object [("index", .string index),
      ("title", .string ("Step " ++ index)), ("instructions", .string "Do the thing")])),
    ("createdBy", .string "agent-1"), ("createdAt", .string "2025-01-01T00:00:00Z"),
    ("metadata", .object [])]

def sampleStepOfValue (value : Value) : Option SpecStep := do
  let index ← (value.get "index").bind Value.asStr
  let title ← (value.get "title").bind Value.asStr
  let instructions ← (value.get "instructions").bind Value.asStr
  some { sampleStep index with title, instructions }

def sampleSheetOfValue (value : Value) : Option SpecSheet := do
  let id ← (value.get "id").bind Value.asStr
  let title ← (value.get "title").bind Value.asStr
  let description ← (value.get "description").bind Value.asStr
  let steps ← (value.get "steps").bind Value.asArray
  let steps ← steps.mapM sampleStepOfValue
  let createdBy ← (value.get "createdBy").bind Value.asStr
  let metadata ← value.get "metadata"
  some ⟨id, title, description, steps, createdBy, metadata⟩

def sampleSummaryValue (index : String) : Value :=
  .object [("taskId", .string "task-1"), ("stepIndex", .string index),
    ("summaryText", .string "done"), ("verification", .object [("status", .string "pending")])]

def sampleSummaryOfValue (value : Value) : Option TaskSummary := do
  let taskId ← (value.get "taskId").bind Value.asStr
  let stepIndex ← (value.get "stepIndex").bind Value.asStr
  let summaryText ← (value.get "summaryText").bind Value.asStr
  some ⟨taskId, stepIndex, summaryText, [], [], ⟨.pending, []⟩, none⟩

def sampleStatusValue : VerificationStatus → Value
  | .pending => .string "pending"
  | .passed => .string "passed"
  | .failed => .string "failed"

def sampleFeedbackValue (entry : FeedbackEntry) : Value :=
  .object [("author", .string entry.author), ("message", .string entry.message),
    ("timestamp", .string "2025-01-01T00:00:00Z")]

/-- The JSON of a summary without tests and worktree. -/
def sampleValueOfSummary (summary : TaskSummary) : Value :=
  .object [("taskId", .string summary.taskId), ("stepIndex", .string summary.stepIndex),
    ("summaryText", .string summary.summaryText),
    ("artifactsTouched", .array (summary.artifactsTouched.map .string)), ("testsRun", .array []),
    ("verification", .object [("status", sampleStatusValue summary.verification.status),
      ("feedback", .array (summary.verification.feedback.map sampleFeedbackValue))])]

/-- The arguments of a `submit_verification` call. -/
def sampleVerdict (status : String) : String :=
  "\x7b\"status\":\"" ++ status ++ "\",\"end_convo\":true\x7d"

def sampleRuntime : Runtime where
  workspaceRoot := "/workspace"
  specSheetOfValue := sampleSheetOfValue
  summaryOfValue := sampleSummaryOfValue
  valueOfSummary summary := .ok (sampleValueOfSummary summary)
  payloadOfJson text :=
    ["verified", "needs_revision", "failed"].findSome? fun status =>
      if text = sampleVerdict status then some ⟨status, none, true⟩ else none
  payloadOfYaml _ := none

/-- A task without a summary, as an implementor hands it back that did not finish. -/
def sampleTask (state : TaskState) : Task := ⟨"task-1", none, ⟨state, none⟩, none⟩

def sampleSplit (id : String) (indices : List String) : Task :=
  ⟨"task-1", none, ⟨.submitted, none⟩, some ⟨some (sampleSheetValue id indices), none, []⟩⟩

def sampleDone (index : String) : Task :=
  ⟨"task-1", none, ⟨.completed, none⟩, some ⟨none, some (sampleSummaryValue index), []⟩⟩

/-- A verifier's task, with the verdict it submits. -/
def sampleVerified (status : String) : Task :=
  ⟨"task-1", none, ⟨.completed, none⟩, some ⟨none, none, [("toolLog", .array [.object
    [("name", .string "submit_verification"), ("arguments", .string (sampleVerdict status))]])]⟩⟩

def ticks (n : Nat) : List Action := List.replicate n .tick

/-- From the head of the loop to the execution of the next step, when no command is queued. -/
def toExecution : List Action := ticks 5 ++ [.ack (.ok ())] ++ ticks 4

/-- An executed step goes through its summarizer to its verifier, which submits `status`. -/
def toVerdict (index status : String) : List Action :=
  [.subAgentDone (.ok (sampleDone index))] ++ ticks 6 ++
    [.subAgentDone (.ok (sampleDone index)), .ack (.ok ())] ++ ticks 3 ++
    [.subAgentDone (.ok (sampleVerified status))]

/-- The main agent takes the reports on a rejected step, and the run is back at its loop. -/
def toRejection : List Action :=
  [.ack (.ok ())] ++ ticks 2 ++ [.ack (.ok ())] ++ ticks 3 ++ [.ack (.ok ())] ++ ticks 1

/-- A failed task is reported, and the run is back at its loop. -/
def toFailure : List Action :=
  [.subAgentDone (.ok (sampleTask .failed))] ++ ticks 5 ++ [.ack (.ok ())] ++ ticks 2

/-- A task whose step needs no verification is accepted, and the run is back at its loop. -/
def toAcceptance : List Action :=
  ticks 4 ++ [.ack (.ok ()), .tick, .ack (.ok ()), .tick, .ack (.ok ())] ++ ticks 3 ++
    [.ack (.ok ())] ++ ticks 2

end ColossalCode.Orchestrator
