import ColossalCode.Orchestrator.State
import ColossalCode.PlanView.SessionTree

/-! What the screen keeps of an orchestrator's run, and how it handles the run's events. Labels,
texts, roles of tool calls, selections and the contents of sub-agents' contexts are left out. -/
namespace ColossalCode.PlanView

open Orchestrator (OrchestratorEvent StepRole composePrefix)
open Protocol (SpecSheet SpecStep StepStatus TaskSummary)

inductive ToolCallStatus where
  | started
  | completed
  | error
  deriving DecidableEq, Repr

structure StepToolCallEntry where
  stepPrefix : String
  id : Nat
  status : ToolCallStatus
  deriving DecidableEq, Repr

/-- `sessions` is the map of entries by prefix, `sessionTree` the session list built from it. Of the
task, the control and the receiver it matters whether there is one; of a sub-agent's context, its
prefix. -/
structure View where
  currentSpec : Option SpecSheet
  sessions : List OrchestratorEntry
  sessionTree : List Session
  activeStepPrefix : Option String
  orchestratorTask : Bool
  orchestratorControl : Bool
  orchestratorEventRx : Bool
  orchestratorPaused : Bool
  orchestrationInProgress : Bool
  stepToolCalls : List StepToolCallEntry
  activeToolCall : Option (String × Nat)
  nextToolCallId : Nat
  subAgentContexts : List String
  latestSummaries : List (String × TaskSummary)
  orchestratorHistory : List TaskSummary

def sessionRole : StepRole → SessionRole
  | .implementor => .implementor
  | .summarizer => .summarizer
  | .verifier => .verifier
  | .merge => .merge

def sessionStatus : StepStatus → SessionStatus
  | .pending => .pending
  | .inProgress => .inProgress
  | .completed => .completed
  | .failed => .failed

/-- `entry(prefix).or_insert_with(..)`, and then the role and the status. -/
def upsertEntry (specId stepPrefix : String) (role : SessionRole) (status : SessionStatus) :
    List OrchestratorEntry → List OrchestratorEntry
  | [] => [{ specId := specId, stepPrefix := stepPrefix, role := role, status := status }]
  | entry :: rest =>
    if entry.stepPrefix = stepPrefix then { entry with role := role, status := status } :: rest
    else entry :: upsertEntry specId stepPrefix role status rest

/-- `steps.iter_mut().find(..)` with the new status. -/
def setStepStatus (stepIndex : String) (status : StepStatus) : List SpecStep → List SpecStep
  | [] => []
  | step :: rest =>
    if step.index = stepIndex then { step with status := status } :: rest
    else step :: setStepStatus stepIndex status rest

def setSpecStatus (specId stepIndex : String) (status : StepStatus) (spec : SpecSheet) :
    SpecSheet :=
  if spec.id = specId then { spec with steps := setStepStatus stepIndex status spec.steps }
  else spec

namespace View

variable (v : View)

/-- `update_session_for_step`. -/
def syncSession (specId stepPrefix : String) (role : StepRole) (status : StepStatus) : View :=
  let sessions :=
    upsertEntry specId stepPrefix (sessionRole role) (sessionStatus status) v.sessions
  { v with sessions := sessions, sessionTree := sessionsOf sessions }

/-- `update_active_step_prefix_for_status`. -/
def updateActive (stepPrefix : String) (status : StepStatus) : View :=
  match status with
  | .inProgress => { v with activeStepPrefix := some stepPrefix }
  | _ =>
    if v.activeStepPrefix = some stepPrefix then { v with activeStepPrefix := none } else v

/-- `handle_step_status_changed`. -/
def stepStatusChanged (specId stepIndex stepPrefix : String) (role : StepRole)
    (status : StepStatus) : View :=
  (({ v with currentSpec := v.currentSpec.map (setSpecStatus specId stepIndex status) }).syncSession
    specId stepPrefix role status).updateActive stepPrefix status

/-- `upsert_summary_history`; the history in the specification's metadata is left out. -/
def upsertSummaryHistory (summary : TaskSummary) : View :=
  let history :=
    match v.orchestratorHistory.findIdx? (·.taskId = summary.taskId) with
    | some i => v.orchestratorHistory.set i summary
    | none => v.orchestratorHistory ++ [summary]
  { v with
    latestSummaries := v.latestSummaries.filter (·.1 ≠ summary.stepIndex) ++
      [(summary.stepIndex, summary)]
    orchestratorHistory := history }

/-- `teardown_orchestrator_handles`. -/
def teardown : View :=
  { v with
    orchestratorTask := false, orchestratorControl := false, orchestratorEventRx := false
    orchestratorPaused := false }

/-- `reset_orchestrator_views`. -/
def reset : View :=
  { v with
    orchestratorHistory := [], latestSummaries := [], sessions := [], sessionTree := []
    stepToolCalls := [], subAgentContexts := [], activeStepPrefix := none, activeToolCall := none
    nextToolCallId := 0 }

/-- `handle_orchestrator_stopped`. -/
def stopped : View := { v.teardown.reset with orchestrationInProgress := false }

/-- `handle_tool_call_started`. -/
def toolCallStarted (stepPrefix : String) : View :=
  { v with
    stepToolCalls := v.stepToolCalls ++
      [{ stepPrefix := stepPrefix, id := v.nextToolCallId, status := .started }]
    activeToolCall := some (stepPrefix, v.nextToolCallId)
    nextToolCallId := v.nextToolCallId + 1 }

/-- `handle_tool_call_completed`. -/
def toolCallCompleted (stepPrefix : String) (isError : Bool) : View :=
  let status : ToolCallStatus := if isError then .error else .completed
  match v.activeToolCall with
  | some (activePrefix, id) =>
    { v with
      activeToolCall := none
      stepToolCalls :=
        if activePrefix = stepPrefix then
          v.stepToolCalls.map fun entry =>
            if entry.stepPrefix = stepPrefix ∧ entry.id = id then { entry with status := status }
            else entry
        else v.stepToolCalls }
  | none => v

/-- `handle_orchestrator_event_impl`. -/
def handleOrchestratorEvent : OrchestratorEvent → View
  | .stepStatusChanged specId _ stepIndex _ stepPrefix role status =>
    v.stepStatusChanged specId stepIndex stepPrefix role status
  | .summaryUpdated summary => v.upsertSummaryHistory summary
  | .verifierFailed summary _ => v.upsertSummaryHistory summary
  | .childSpecPushed _ _ _ => v
  | .channelClosed _ => v
  | .paused => { v with orchestratorPaused := true }
  | .resumed => { v with orchestratorPaused := false }
  | .aborted => v.stopped
  | .completed => v.stopped
  | .error _ => { v with orchestrationInProgress := false }
  | .toolCallStarted stepPrefix _ _ => v.toolCallStarted stepPrefix
  | .toolCallCompleted stepPrefix _ _ isError => v.toolCallCompleted stepPrefix isError
  | .agentMessage stepPrefix _ =>
    { v with
      subAgentContexts :=
        if stepPrefix ∈ v.subAgentContexts then v.subAgentContexts
        else v.subAgentContexts ++ [stepPrefix] }
  | .stepCancelled _ => v

/-- `load_spec` and `start_orchestrator_run`, with an agent that makes the specification. -/
def startRun (spec : SpecSheet) : View :=
  { ({ v with currentSpec := some spec }).teardown.reset with
    orchestratorControl := true, orchestratorEventRx := true, orchestratorTask := true }

end View

/-- The line of the plan at a place: the prefix and the status of the step there. -/
def rowAt : String → List SpecStep → List Nat → Option (String × StepStatus)
  | _, _, [] => none
  | parent, steps, [i] => steps[i]?.map fun step => (composePrefix parent step.index, step.status)
  | parent, steps, i :: j :: rest =>
    steps[i]?.bind fun step => step.subSpec.bind fun spec =>
      rowAt (composePrefix parent step.index) spec.steps (j :: rest)

theorem getElem?_setStepStatus (stepIndex : String) (status : StepStatus) (steps : List SpecStep)
    (i : Nat) : (setStepStatus stepIndex status steps)[i]? =
      if steps.findIdx? (·.index = stepIndex) = some i then
        steps[i]?.map fun step => { step with status := status }
      else steps[i]? := by
  induction steps generalizing i with
  | nil => simp [setStepStatus]
  | cons step rest ih =>
    rw [setStepStatus]
    by_cases hstep : step.index = stepIndex
    · have hfirst : (step :: rest).findIdx? (·.index = stepIndex) = some 0 := by
        simp [List.findIdx?_cons, hstep]
      rw [if_pos hstep, hfirst]
      cases i with
      | zero => simp
      | succ i => simp
    · have hlater : (step :: rest).findIdx? (·.index = stepIndex) =
          (rest.findIdx? (·.index = stepIndex)).map (· + 1) := by
        simp [List.findIdx?_cons, hstep]
      rw [if_neg hstep, hlater]
      cases i with
      | zero => simp
      | succ i =>
        rw [List.getElem?_cons_succ, ih, List.getElem?_cons_succ]
        simp

/-- A new status shows in the line of the first step with the index, and in no other. -/
theorem rowAt_setStepStatus (stepIndex : String) (status : StepStatus) (steps : List SpecStep)
    (parent : String) (place : List Nat) :
    rowAt parent (setStepStatus stepIndex status steps) place =
      if (steps.findIdx? (·.index = stepIndex)).map ([·]) = some place then
        (rowAt parent steps place).map fun row => (row.1, status)
      else rowAt parent steps place := by
  cases place with
  | nil => simp [rowAt]
  | cons i place =>
    cases place with
    | nil =>
      rw [rowAt, getElem?_setStepStatus]
      by_cases hfirst : steps.findIdx? (·.index = stepIndex) = some i
      · simp [hfirst, rowAt, Option.map_map, Function.comp_def]
      · have hplace : (steps.findIdx? (·.index = stepIndex)).map ([·]) ≠ some [i] := by
          simpa [Option.map_eq_some_iff] using hfirst
        rw [if_neg hfirst, if_neg hplace, rowAt]
    | cons j rest =>
      have hplace : (steps.findIdx? (·.index = stepIndex)).map ([·]) ≠ some (i :: j :: rest) := by
        simp [Option.map_eq_some_iff]
      rw [if_neg hplace, rowAt, rowAt, getElem?_setStepStatus]
      by_cases hfirst : steps.findIdx? (·.index = stepIndex) = some i
      · rw [if_pos hfirst]
        cases steps[i]? <;> rfl
      · rw [if_neg hfirst]

end ColossalCode.PlanView
