import ColossalCode.Orchestrator.Step

/-! What a step leaves alone: the record of a run only grows, and a control call changes nothing
but flags, signals, the command queue and the calls in progress. -/
namespace ColossalCode.Orchestrator
open List Option State

open Protocol

variable {rt : Runtime} {s t : State} {action : Action} {actions : List Action}

theorem summarizerResult_entries (rt : Runtime) (context : VerificationContext)
    (result : Except String Task) : (summarizerResult rt context result).1 = [] ∨
      ∃ status, status ≠ .inProgress ∧
        (summarizerResult rt context result).1 = [.event (summarizerEvent context status)] := by
  unfold summarizerResult
  split
  · simp
  · split
    · exact .inr ⟨_, by simp, rfl⟩
    · split
      · simp
      · exact .inr ⟨_, by simp, rfl⟩

theorem verifierResult_entries (rt : Runtime) (context : VerificationContext)
    (result : Except String Task) : (verifierResult rt context result).1 = [] ∨
      ∃ status, status ≠ .inProgress ∧
        (verifierResult rt context result).1 = [.event (verifierEvent context status)] := by
  unfold verifierResult
  split
  · simp
  · split
    · exact .inr ⟨_, by simp, rfl⟩
    · split
      · simp
      · split
        · exact .inr ⟨_, by simp, rfl⟩
        · simp

/-- What is told of an agent of a verification that returns: nothing, or how it has ended. -/
inductive AgentReport : List Entry → Prop
  | nothing : AgentReport []
  | ended (context : VerificationContext) (step : SpecStep) (suffix : String) {role : StepRole}
      (h : role ≠ .implementor) (status : StepStatus) :
      AgentReport [.event (agentEvent context step suffix role status)]

theorem summarizer_report {context : VerificationContext} {result : Except String Task}
    {entries : List Entry} {summary : Except String TaskSummary}
    (h : summarizerResult rt context result = (entries, summary)) : AgentReport entries := by
  have he := summarizerResult_entries rt context result
  rw [h] at he
  obtain rfl | ⟨status, -, rfl⟩ := he
  · exact .nothing
  · exact .ended _ _ _ (by simp) status

theorem verifier_report {context : VerificationContext} {result : Except String Task}
    {entries : List Entry} {payload : Except String VerificationToolPayload}
    (h : verifierResult rt context result = (entries, payload)) : AgentReport entries := by
  have he := verifierResult_entries rt context result
  rw [h] at he
  obtain rfl | ⟨status, -, rfl⟩ := he
  · exact .nothing
  · exact .ended _ _ _ (by simp) status

variable (a : Active) (site : Site)

theorem decideTask_log (task : Task) : (s.decideTask rt a task).log = s.log := by
  have hfinish : (s.finishTask rt a task).log = s.log := by
    unfold finishTask verify
    split
    · rfl
    · split <;> rfl
  unfold decideTask
  split
  · rfl
  · split
    · rfl
    · split
      · rfl
      · exact hfinish
      · rfl
    · rfl
    · exact hfinish

theorem settle_log (task : Task) (disposition : StepDisposition) :
    (s.settle rt a task disposition).log = s.log := by
  unfold settle
  split
  · rfl
  · split
    · rfl
    · split <;> rfl
  · split <;> rfl

@[simp] theorem cancelStep_log (p : String) : (s.cancelStep p).log = s.log := by
  unfold cancelStep
  simp only
  split
  · split <;> rfl
  · rfl

@[simp] theorem cancelStep_pc (p : String) : (s.cancelStep p).pc = s.pc := by
  unfold cancelStep
  simp only
  split
  · split <;> rfl
  · rfl

@[simp] theorem cancelStep_commands (p : String) : (s.cancelStep p).commands = s.commands := by
  unfold cancelStep
  simp only
  split
  · split <;> rfl
  · rfl

@[simp] theorem resumeStep_commands (p message : String) :
    (s.resumeStep p message).commands = s.commands := by
  unfold resumeStep
  split
  · rfl
  · split <;> rfl

@[simp] theorem resumeStep_pc (p message : String) : (s.resumeStep p message).pc = s.pc := by
  unfold resumeStep
  split
  · rfl
  · split <;> rfl

theorem resumeStep_log (p message : String) : s.log <+: (s.resumeStep p message).log := by
  unfold resumeStep
  split
  · exact prefix_append _ _
  · split
    · exact prefix_append _ _
    · exact prefix_refl _

theorem handleCommand_log (rest : List OrchestratorCommand)
    (command : OrchestratorCommand) : s.log <+: (s.handleCommand site rest command).log := by
  have houtput : s.log <+: (s.output [.handled command]).log := prefix_append _ _
  unfold handleCommand
  refine houtput.trans ?_
  cases command with
  | cancelStep p => simp [goto]
  | resumeStep p message =>
    exact resumeStep_log
      (s := (s.output [.handled (.resumeStep p message)]).goto (.handle site rest)) ..
  | rerunVerifiers =>
    cases hv : s.lastVerification <;> simp [output, goto, hv]
  | _ => exact prefix_append _ _

theorem tick_log (h : s.tick rt = some t) : s.log <+: t.log := by
  unfold tick at h
  split at h
  case h_3 site hpc =>
    obtain rfl := some.inj h
    cases site with
    | afterExecute a task => simp [resumeSite, decideTask_log]
    | _ => exact prefix_refl _
  case h_4 =>
    obtain rfl := some.inj h
    exact handleCommand_log ..
  case h_5 =>
    split at h
    · obtain rfl := some.inj h
      exact prefix_refl _
    · obtain rfl := some.inj h
      unfold startStep
      split <;> exact prefix_refl _
  case h_15 =>
    obtain rfl := some.inj h
    simp [settle_log]
  all_goals
    (try split at h) <;> simp at h <;> subst h <;>
      simp [output, goto, State.finish, storePending]

theorem ack_log {result : Except String Unit} (h : s.ack result = some t) : s.log <+: t.log := by
  unfold State.ack at h
  split at h
  · cases result <;> obtain rfl := some.inj h <;> exact prefix_append _ _
  · rename_i report todo site rest summary hpc
    cases hcall : report.entry.isCall with
    | false => simp [hcall] at h
    | true =>
      cases result with
      | ok =>
        obtain rfl : _ = t := by simpa [hcall] using h
        exact prefix_append _ _
      | error err =>
        obtain rfl : _ = t := by simpa [hcall] using h
        exact (prefix_append _ _).trans (prefix_append _ _)
  · simp at h

theorem verify_log (task : Task) (summary : TaskSummary) :
    (s.verify rt a task summary).log = s.log := by
  unfold verify
  split <;> rfl

theorem subAgentDone_log {result : Except String Task} (h : s.subAgentDone rt result = some t) :
    s.log <+: t.log := by
  unfold subAgentDone at h
  split at h
  · cases result <;> obtain rfl := some.inj h <;> exact prefix_append _ _
  · rename_i a task context _
    obtain rfl := some.inj h
    unfold summarized
    refine (prefix_append s.log
      [.ran .summarizer (context.stepPrefix ++ ".summary") result]).trans ?_
    split
    · exact prefix_append _ _
    · rw [verify_log]
      exact prefix_append _ _
  · obtain rfl := some.inj h
    exact (prefix_append _ _).trans (prefix_append _ _)
  · obtain rfl := some.inj h
    exact (prefix_append _ _).trans (prefix_append _ _)
  · simp at h

theorem control_eq {i : Nat} (h : s.control i = some t) :
    ∃ paused aborted signals commands calls,
      t = { s with paused, aborted, signals, commands, calls } := by
  unfold State.control at h
  split at h
  · simp at h
  · obtain rfl := some.inj h
    exact ⟨_, _, _, _, _, rfl⟩
  · rename_i method op rest _
    obtain rfl := some.inj h
    cases op with
    | readCancel =>
      simp only
      split <;> exact ⟨_, _, _, _, _, rfl⟩
    | _ => exact ⟨_, _, _, _, _, rfl⟩

/-- A step only adds to the record of a run. -/
theorem step_log (h : step rt s action = some t) : s.log <+: t.log := by
  cases action with
  | tick => exact tick_log h
  | ack result => exact ack_log h
  | subAgentDone result => exact subAgentDone_log h
  | call method =>
    obtain rfl := some.inj h
    exact prefix_refl _
  | control i =>
    obtain ⟨_, _, _, _, _, rfl⟩ := control_eq h
    exact prefix_refl _

theorem run_log (h : run rt s actions = some t) : s.log <+: t.log :=
  (Transition.steps_of_run h).relation (R := fun s t => s.log <+: t.log)
    (fun _ => prefix_refl _) (fun _ _ _ => List.IsPrefix.trans) fun _ _ _ _ => step_log

/-- The actions of the run itself and of the agents it waits for. -/
def Action.isOwn : Action → Bool
  | .tick | .ack _ | .subAgentDone _ => true
  | .call _ | .control _ => false

@[simp] theorem goto_calls (pc : Pc) : (s.goto pc).calls = s.calls := rfl

@[simp] theorem output_calls (entries : List Entry) : (s.output entries).calls = s.calls := rfl

@[simp] theorem finish_calls (result : Except String Unit) (held : Option Frame) :
    (s.finish result held).calls = s.calls := rfl

@[simp] theorem startStep_calls (frame : Frame) : (s.startStep frame).calls = s.calls := by
  unfold startStep
  split <;> rfl

@[simp] theorem verify_calls (task : Task) (summary : TaskSummary) :
    (s.verify rt a task summary).calls = s.calls := by
  unfold verify
  split <;> rfl

@[simp] theorem finishTask_calls (task : Task) :
    (s.finishTask rt a task).calls = s.calls := by
  unfold finishTask
  split
  · rfl
  · split
    · rfl
    · exact verify_calls ..

@[simp] theorem resumeSite_calls : (s.resumeSite rt site).calls = s.calls := by
  cases site with
  | afterExecute a task =>
    simp only [resumeSite, decideTask]
    split
    · rfl
    · split
      · rfl
      · split
        · rfl
        · exact finishTask_calls ..
        · rfl
      · rfl
      · exact finishTask_calls ..
  | _ => rfl

@[simp] theorem settle_calls (task : Task) (disposition : StepDisposition) :
    (s.settle rt a task disposition).calls = s.calls := by
  unfold settle
  split
  · rfl
  · split
    · rfl
    · split <;> rfl
  · split <;> rfl

@[simp] theorem handleCommand_calls (rest : List OrchestratorCommand)
    (command : OrchestratorCommand) : (s.handleCommand site rest command).calls = s.calls := by
  unfold handleCommand
  cases command with
  | rerunVerifiers => cases hv : s.lastVerification <;> simp [output, goto, hv]
  | cancelStep p =>
    simp only [cancelStep]
    split
    · split <;> rfl
    · rfl
  | resumeStep p message =>
    simp only [resumeStep]
    split
    · rfl
    · split <;> rfl
  | _ => rfl

theorem tick_calls (h : s.tick rt = some t) : t.calls = s.calls := by
  unfold tick at h
  split at h
  all_goals
    (try split at h) <;> simp at h <;> subst h <;> simp [storePending]

/-- A step of the run itself leaves the control calls where they are. -/
theorem own_calls (h : step rt s action = some t) (hown : action.isOwn = true) :
    t.calls = s.calls := by
  cases action with
  | tick => exact tick_calls h
  | ack result =>
    simp only [step, State.ack] at h
    split at h
    · cases result <;> obtain rfl := some.inj h <;> rfl
    · split at h
      · cases result <;> obtain rfl := some.inj h <;> rfl
      · simp at h
    · simp at h
  | subAgentDone result =>
    simp only [step, subAgentDone] at h
    split at h
    · cases result <;> obtain rfl := some.inj h <;> rfl
    · obtain rfl := some.inj h
      unfold summarized
      simp only
      split <;> simp
    · obtain rfl := some.inj h
      rfl
    · obtain rfl := some.inj h
      rfl
    · simp at h
  | call method => simp [Action.isOwn] at hown
  | control i => simp [Action.isOwn] at hown

end ColossalCode.Orchestrator
