import ColossalCode.Protocol.Spec

/-! The verifier chain of the orchestrator: verdicts, their extraction from a verifier's task,
and the one-step sheets handed to the summarizer and the verifier. -/
namespace ColossalCode.Orchestrator

open Protocol

inductive VerificationOutcome where
  | verified
  | needsRevision
  | failed
  deriving DecidableEq, Repr

/-- Both contexts of the source, for the verifier and for the summarizer, have these fields. -/
structure VerificationContext where
  specId : String
  specTitle : String
  step : SpecStep
  stepPrefix : String
  summary : TaskSummary
  toolLog : String
  workspaceRoot : String

def VerificationContext.withSummary (context : VerificationContext) (summary : TaskSummary) :
    VerificationContext :=
  { context with summary }

inductive StepDisposition where
  | retry
  | success (summary : TaskSummary)
  | fail (summary : TaskSummary)

/-- `VerifierChain::map_verification_outcome`. -/
def mapVerificationOutcome (status : String) : VerificationOutcome :=
  let verdict := Text.toAsciiLowercase (Text.trim status)
  if verdict = "verified" then .verified
  else if verdict = "needs_revision" ∨ verdict = "needs-revision" ∨ verdict = "revision" ∨
      verdict = "retry" then .needsRevision
  else .failed

/-- The last `submit_verification` call of a tool log. -/
def lastSubmission (log : List Value) : Option Value :=
  log.reverse.find? fun entry => (entry.get "name").bind Value.asStr == some "submit_verification"

/-- `VerifierChain::extract_verification_payload`. -/
def extractVerificationPayload (rt : Runtime) (task : Task) :
    Except String VerificationToolPayload :=
  match toolLog task with
  | none => .error "Verifier did not record tool calls"
  | some log =>
    match lastSubmission log with
    | none => .error "Verifier must call submit_verification"
    | some entry =>
      let arguments := entryArguments entry
      match (rt.payloadOfJson arguments).or (rt.payloadOfYaml arguments) with
      | none => .error "Failed to parse submit_verification payload"
      | some payload => .ok payload

def bulletList (empty : String) : List String → String
  | [] => empty
  | items => Text.join "\n" (items.map fun item => "- " ++ item)

/-- The sections that the summarizer's and the verifier's instructions share. -/
def contextSections (context : VerificationContext) : String :=
  "### Workspace Root\n" ++ context.workspaceRoot ++
  "\n\n### Step Instructions\n" ++ context.step.instructions ++
  "\n\n### Acceptance Criteria\n" ++
    bulletList "(no acceptance criteria provided)" context.step.acceptanceCriteria ++
  "\n\n### Constraints\n" ++
    bulletList "(no additional constraints)" context.step.constraints ++
  "\n\n### Implementor Summary\n" ++ context.summary.summaryText ++
  "\n\n### Tool Calls Used\n" ++ context.toolLog ++ "\n\n"

def buildSummarizerInstructions (context : VerificationContext) : String :=
  "## Role\nYou are summarizing spec \"" ++ context.specTitle ++ "\" step " ++
    context.step.index ++ " – " ++ context.step.title ++ " for verification.\n\n" ++
  contextSections context ++
  "Produce a concise summary that a verifier can use to validate the changes. Focus on the key " ++
  "modifications, commands run, and artifacts touched."

def buildVerifierInstructions (context : VerificationContext) : String :=
  "## Role\nYou are verifying spec \"" ++ context.specTitle ++ "\" step " ++
    context.step.index ++ " – " ++ context.step.title ++ ".\n\n" ++
  contextSections context ++
  "Use tools to inspect the codebase, run any relevant checks (tests, builds, linters), and " ++
  "confirm the implementation matches the instructions. Do not modify files.\n\n" ++
  "When verification is complete, call submit_verification with status verified, " ++
  "needs_revision, or failed, include feedback, and set end_convo to true."

def buildSummarizerStep (context : VerificationContext) : SpecStep where
  index := "summary"
  title := "Summarize – " ++ context.step.title
  instructions := buildSummarizerInstructions context
  acceptanceCriteria := ["Provide a concise, verifier-ready summary",
    "Mention any tests run and files touched if known"]
  requiredTools := []
  constraints := ["Do not modify files during summarization",
    "Use tools only for inspection if needed"]
  dependencies := []
  isParallel := false
  requiresVerification := false
  maxParallelism := none
  status := .pending
  subSpec := none

def buildVerifierStep (context : VerificationContext) : SpecStep where
  index := "1"
  title := "Verify – " ++ context.step.title
  instructions := buildVerifierInstructions context
  acceptanceCriteria := ["Inspect the implementation using tools and run relevant checks",
    "Call submit_verification with the final outcome"]
  requiredTools := ["submit_verification"]
  constraints := ["Do not modify files during verification",
    "Use tools to read files and run commands as needed"]
  dependencies := []
  isParallel := false
  requiresVerification := false
  maxParallelism := none
  status := .pending
  subSpec := none

def buildSummarizerSpec (context : VerificationContext) : SpecSheet where
  id := context.specId ++ "::summary"
  title := "Summary for " ++ context.specTitle
  description := "Summarize implementation for verification"
  steps := [buildSummarizerStep context]
  createdBy := "summarizer"
  metadata := .null

def buildVerifierSpec (context : VerificationContext) : SpecSheet where
  id := context.specId ++ "::verifier"
  title := "Verification for " ++ context.specTitle
  description := "Verification step"
  steps := [buildVerifierStep context]
  createdBy := "verifier"
  metadata := .null

end ColossalCode.Orchestrator

/-! The orchestrator's frames, commands, events and control points, and the state it shares
with its control handles. -/
namespace ColossalCode.Orchestrator

open Protocol

inductive StepRole where
  | implementor
  | summarizer
  | verifier
  | merge
  deriving DecidableEq, Repr

/-- Messages a sub-agent sends while it runs; durations and token rates are left out. -/
inductive SubAgentMessage where
  | userPrompt (content : String)
  | text (content : String)
  | thinking (content : String)
  | toolCall (toolName arguments : String) (result : Option String) (isError : Bool)
  | generationStats (inputTokens outputTokens : Nat)
  | done
  | error (message : String)
  deriving DecidableEq, Repr

inductive OrchestratorEvent where
  | stepStatusChanged (specId specTitle stepIndex stepTitle stepPrefix : String)
      (role : StepRole) (status : StepStatus)
  | summaryUpdated (summary : TaskSummary)
  | verifierFailed (summary : TaskSummary) (feedback : String)
  | childSpecPushed (parentStepIndex childSpecId : String) (childStepCount : Nat)
  | channelClosed (taskId : String)
  | paused
  | resumed
  | aborted
  | stepCancelled (stepPrefix : String)
  | completed
  | error (message : String)
  | toolCallStarted (stepPrefix toolName arguments : String)
  | toolCallCompleted (stepPrefix toolName result : String) (isError : Bool)
  | agentMessage (stepPrefix : String) (message : SubAgentMessage)
  deriving DecidableEq, Repr

inductive OrchestratorCommand where
  | pause
  | resume
  | abort
  | rerunVerifiers
  | injectSplit (stepIndex : String) (childSpec : SpecSheet)
  | cancelStep (stepPrefix : String)
  | resumeStep (stepPrefix message : String)

def composePrefix (framePrefix index : String) : String :=
  if framePrefix.isEmpty then index else framePrefix ++ "." ++ index

@[simp] theorem composePrefix_empty (index : String) : composePrefix "" index = index := rfl

theorem composePrefix_of_ne {p : String} (hp : p ≠ "") (index : String) :
    composePrefix p index = p ++ "." ++ index := by
  simp [composePrefix, hp]

theorem composePrefix_length {p : String} (hp : p ≠ "") (index : String) :
    (composePrefix p index).length = p.length + 1 + index.length := by
  rw [composePrefix_of_ne hp, String.length_append, String.length_append]
  rfl

theorem composePrefix_eq_self_iff {p index : String} :
    composePrefix p index = p ↔ p = "" ∧ index = "" := by
  by_cases hp : p = ""
  · simp [hp]
  · simp only [hp, false_and, iff_false]
    intro h
    have hlength := congrArg String.length h
    rw [composePrefix_length hp] at hlength
    omega

theorem composePrefix_injective {p q index : String}
    (h : composePrefix p index = composePrefix q index) : p = q := by
  have hlength := congrArg String.length h
  by_cases hp : p = "" <;> by_cases hq : q = ""
  · rw [hp, hq]
  · rw [hp, composePrefix_empty, composePrefix_length hq] at hlength
    omega
  · rw [hq, composePrefix_empty, composePrefix_length hp] at hlength
    omega
  · simpa [composePrefix_of_ne hp, composePrefix_of_ne hq] using h

/-- An entry `(spec, step_idx, prefix)` of the orchestrator's stack. -/
structure Frame where
  spec : SpecSheet
  stepIdx : Nat
  framePrefix : String

/-- A frame whose step index lies in its spec, as the run loop checks before it starts a step. -/
structure Active extends Frame where
  inRange : stepIdx < spec.steps.length

namespace Active

def step (a : Active) : SpecStep := a.spec.steps.get ⟨a.stepIdx, a.inRange⟩

def currentPrefix (a : Active) : String := composePrefix a.framePrefix a.step.index

def setStep (a : Active) (step : SpecStep) : Active where
  spec := { a.spec with steps := a.spec.steps.set a.stepIdx step }
  stepIdx := a.stepIdx
  framePrefix := a.framePrefix
  inRange := by simpa using a.inRange

def setStatus (a : Active) (status : StepStatus) : Active :=
  a.setStep { a.step with status }

def setSubSpec (a : Active) (child : SpecSheet) : Active :=
  a.setStep { a.step with subSpec := some child }

def setMetadata (a : Active) (metadata : Value) : Active :=
  { a with spec := { a.spec with metadata }, inRange := a.inRange }

/-- A cancelled step that is resumed: pending again, with the user's note if there is one. -/
def resumed (a : Active) (message : String) : Active :=
  let pending := a.setStatus .pending
  if (Text.trim message).isEmpty then pending
  else pending.setStep { pending.step with
    instructions := Text.trimEnd pending.step.instructions ++ "\n\nUser note: " ++ message }

/-- The frame of the step after this one. -/
def next (a : Active) : Frame := { a.toFrame with stepIdx := a.stepIdx + 1 }

variable (a : Active)

@[simp] theorem setStep_step (step : SpecStep) : (a.setStep step).step = step := by
  simp [Active.step, setStep]

@[simp] theorem setStep_setStep (first second : SpecStep) :
    (a.setStep first).setStep second = a.setStep second := by
  simp [setStep]

@[simp] theorem setStep_framePrefix (step : SpecStep) :
    (a.setStep step).framePrefix = a.framePrefix := rfl

@[simp] theorem setStep_stepIdx (step : SpecStep) :
    (a.setStep step).stepIdx = a.stepIdx := rfl

@[simp] theorem setStatus_step (status : StepStatus) :
    (a.setStatus status).step = { a.step with status } := a.setStep_step _

@[simp] theorem setStatus_currentPrefix (status : StepStatus) :
    (a.setStatus status).currentPrefix = a.currentPrefix := by
  simp [currentPrefix, setStatus]

/-- A step that is replaced is followed by the same steps. -/
theorem setStep_drop (step : SpecStep) :
    (a.setStep step).spec.steps.drop a.stepIdx = step :: a.spec.steps.drop (a.stepIdx + 1) := by
  have hlt : a.stepIdx < (a.spec.steps.set a.stepIdx step).length := by simpa using a.inRange
  simp [setStep, List.drop_eq_getElem_cons hlt, List.drop_set_of_lt]

theorem drop_eq :
    a.spec.steps.drop a.stepIdx = a.step :: a.spec.steps.drop (a.stepIdx + 1) :=
  List.drop_eq_getElem_cons a.inRange

end Active

/-- Calls the orchestrator makes on its main agent. -/
inductive AgentCall where
  | updateSpecStatus (spec : SpecSheet) (step : SpecStep) (stepPrefix : String)
  | updateTaskSummary (summary : TaskSummary)
  | sendTaskMessage (taskId message : String)
  | notifyStepSuccess (summary : TaskSummary)
  | closeTaskChannel (taskId : String)

/-- What a run does in order: events it emits, calls on the main agent, implementor steps it
starts, results it gets from sub-agents, commands it takes up. -/
inductive Entry where
  | event (e : OrchestratorEvent)
  | call (c : AgentCall)
  | execute (step : SpecStep) (spec : SpecSheet) (stepPrefix : String)
  | ran (role : StepRole) (stepPrefix : String) (result : Except String Task)
  | handled (command : OrchestratorCommand)

/-- Whether a run waits for the main agent at this entry. -/
def Entry.isCall : Entry → Bool
  | .call _ => true
  | _ => false

/-- The three places `process_commands` is called from, with what `run` holds there. -/
inductive Site where
  | afterPop (frame : Frame)
  | whilePaused (frame : Frame)
  | afterExecute (a : Active) (task : Task)

/-- The reports on a summary, to the main agent and to the event channel. -/
inductive Report where
  | updateTaskSummary (summary : TaskSummary)
  | summaryUpdated (summary : TaskSummary)
  | verifierFailed (summary : TaskSummary) (feedback : String)
  | sendTaskMessage (taskId message : String)
  | closeTaskChannel (taskId : String)
  | channelClosed (taskId : String)
  | notifyStepSuccess (summary : TaskSummary)

def Report.entry : Report → Entry
  | .updateTaskSummary summary => .call (.updateTaskSummary summary)
  | .summaryUpdated summary => .event (.summaryUpdated summary)
  | .verifierFailed summary feedback => .event (.verifierFailed summary feedback)
  | .sendTaskMessage taskId message => .call (.sendTaskMessage taskId message)
  | .closeTaskChannel taskId => .call (.closeTaskChannel taskId)
  | .channelClosed taskId => .event (.channelClosed taskId)
  | .notifyStepSuccess summary => .call (.notifyStepSuccess summary)

/-- Control points that a run reaches with its reports made. -/
inductive Next where
  | loopHead
  | setPrefix (a : Active)
  | push (back : Option Frame) (fresh : List Frame)
  | summarizing (a : Active) (task : Task) (context : VerificationContext)
  | verifying (a : Active) (task : Task) (context : VerificationContext)
  | settle (a : Active) (task : Task) (disposition : StepDisposition)

/-- Control points of `run`: one for each access to state shared with the control handles and
for each wait on an agent. An agent that fails ends the run at `perform`, where `run` uses `?`,
and ends the rerun of a verifier at `reporting`. -/
inductive Pc where
  | loopHead
  | receive (site : Site) (received : List OrchestratorCommand)
  | handle (site : Site) (remaining : List OrchestratorCommand)
  | pausedCheck (frame : Frame)
  | perform (todo : List Entry) (next : Next)
  | setPrefix (a : Active)
  | setCancel (a : Active) (channel : Nat)
  | cancelCheck (a : Active) (channel : Nat)
  | executing (a : Active) (channel : Nat)
  | clearCancel (a : Active) (task : Option Task)
  | clearPrefix (a : Active) (task : Option Task)
  | park (a : Active)
  | push (back : Option Frame) (fresh : List Frame)
  | summarizing (a : Active) (task : Task) (context : VerificationContext)
  | verifying (a : Active) (task : Task) (context : VerificationContext)
  | settle (a : Active) (task : Task) (disposition : StepDisposition)
  | rerunning (site : Site) (rest : List OrchestratorCommand) (context : VerificationContext)
  | reporting (todo : List Report) (site : Site) (rest : List OrchestratorCommand)
      (summary : TaskSummary)
  | finished (result : Except String Unit) (held : Option Frame)

def Site.held : Site → Frame
  | .afterPop frame => frame
  | .whilePaused frame => frame
  | .afterExecute a _ => a.toFrame

def Next.pc : Next → Pc
  | .loopHead => .loopHead
  | .setPrefix a => .setPrefix a
  | .push back fresh => .push back fresh
  | .summarizing a task context => .summarizing a task context
  | .verifying a task context => .verifying a task context
  | .settle a task disposition => .settle a task disposition

def Next.inHand : Next → Option Frame
  | .loopHead => none
  | .setPrefix a => some a.toFrame
  | .push back _ => back
  | .summarizing a _ _ | .verifying a _ _ | .settle a _ _ => some a.toFrame

/-- The frame a run has popped and neither pushed back nor parked nor settled. -/
def Pc.inHand : Pc → Option Frame
  | .loopHead | .park _ => none
  | .receive site _ | .handle site _ | .rerunning site _ _ | .reporting _ site _ _ => some site.held
  | .pausedCheck frame => some frame
  | .perform _ next => next.inHand
  | .setPrefix a | .setCancel a _ | .cancelCheck a _ | .executing a _ => some a.toFrame
  | .clearCancel a task | .clearPrefix a task => task.map fun _ => a.toFrame
  | .push back _ => back
  | .summarizing a _ _ | .verifying a _ _ | .settle a _ _ => some a.toFrame
  | .finished _ held => held

/-- The methods of `OrchestratorControl` that change something. -/
inductive ControlMethod where
  | pause
  | resume
  | abort
  | rerunVerifiers
  | cancelStep (stepPrefix : String)
  | resumeStep (stepPrefix message : String)
  | injectSplit (stepIndex : String) (childSpec : SpecSheet)

/-- The accesses to shared state that a control method is made of. -/
inductive ControlOp where
  | storePaused (b : Bool)
  | storeAborted
  | matchPrefix (stepPrefix : String)
  | readCancel
  | signal (channel : Nat)
  | send (command : OrchestratorCommand)

def ControlMethod.ops : ControlMethod → List ControlOp
  | .pause => [.storePaused true, .send .pause]
  | .resume => [.storePaused false, .send .resume]
  | .abort => [.storeAborted, .readCancel, .send .abort]
  | .rerunVerifiers => [.send .rerunVerifiers]
  | .cancelStep p => [.matchPrefix p, .send (.cancelStep p)]
  | .resumeStep p message => [.send (.resumeStep p message)]
  | .injectSplit k child => [.send (.injectSplit k child)]

/-- A call of a control method in progress, with what it has still to do. -/
structure Call where
  method : ControlMethod
  ops : List ControlOp

structure State where
  /-- The stack, its top first. -/
  stack : List Frame
  lastVerification : Option VerificationContext
  currentPrefix : Option String
  currentCancel : Option Nat
  pendingResume : Option Active
  cancelPrefix : Option String
  /-- The command channel, oldest command first. -/
  commands : List OrchestratorCommand
  paused : Bool
  aborted : Bool
  sharedPrefix : Option String
  sharedCancel : Option Nat
  /-- Cancel channels that a signal was sent on; channels are numbered as they are made. -/
  signals : List Nat
  nextChannel : Nat
  pc : Pc
  calls : List Call
  log : List Entry
  /-- Bookkeeping that no code reads: the frames pushed for the first time, and those whose step
  was completed or failed, or that had no step left. -/
  born : List Frame
  settled : List Frame

/-- The frame `new_with_control` starts with. -/
def rootFrame (spec : SpecSheet) : Frame := ⟨spec, 0, ""⟩

/-- `Orchestrator::new_with_control`. -/
def State.init (spec : SpecSheet) : State where
  stack := [rootFrame spec]
  lastVerification := none
  currentPrefix := none
  currentCancel := none
  pendingResume := none
  cancelPrefix := none
  commands := []
  paused := false
  aborted := false
  sharedPrefix := none
  sharedCancel := none
  signals := []
  nextChannel := 0
  pc := .loopHead
  calls := []
  log := []
  born := [rootFrame spec]
  settled := []

end ColossalCode.Orchestrator
