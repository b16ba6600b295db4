import ColossalCode.Orchestrator.Record
import ColossalCode.Plan.Walk

/-! Runs that nobody controls: what the agents answer decides them. -/
namespace ColossalCode.Orchestrator
open State

open Protocol Transition

/-- What the agents answer for one execution of a step. -/
structure Reply where
  task : Task
  summarizer : Except String Task
  verifier : Except String Task

def Entry.execution : Entry → Option (String × SpecStep)
  | .execute step _ stepPrefix => some (stepPrefix, step)
  | _ => none

@[simp] theorem Entry.execution_event (e : OrchestratorEvent) : (event e).execution = none := rfl

@[simp] theorem Entry.execution_call (c : AgentCall) : (call c).execution = none := rfl

@[simp] theorem Entry.execution_ran (role : StepRole) (p : String) (result : Except String Task) :
    (ran role p result).execution = none := rfl

@[simp] theorem Entry.execution_execute (step : SpecStep) (spec : SpecSheet) (p : String) :
    (execute step spec p).execution = some (p, step) := rfl

@[simp] theorem Entry.execution_handled (command : OrchestratorCommand) :
    (handled command).execution = none := rfl

@[simp] theorem Report.entry_execution (report : Report) : report.entry.execution = none := by
  cases report <;> rfl

/-- The implementor steps that were started, with the prefix each was started under. -/
def State.executed (s : State) : List (String × SpecStep) := s.log.filterMap Entry.execution

/-- The only action of an uncontrolled run whose `n`-th execution is answered by `replies n`. -/
def respond (replies : ℕ → Reply) (s : State) : Action :=
  match s.pc with
  | .perform (.call _ :: _) _ => .ack (.ok ())
  | .executing .. => .subAgentDone (.ok (replies (s.executed.length - 1)).task)
  | .summarizing .. => .subAgentDone (replies (s.executed.length - 1)).summarizer
  | .verifying .. => .subAgentDone (replies (s.executed.length - 1)).verifier
  | _ => .tick

def Answers (replies : ℕ → Reply) (s : State) (action : Action) : Prop :=
  action = respond replies s

/-- Whether a summarizer's result is a summary. -/
def summarizes (rt : Runtime) : Except String Task → Bool
  | .error _ => false
  | .ok task => task.status.state ≠ .failed && (extractSummary rt task).isOk

/-- The payload that a verifier's result submits. -/
def submitted (rt : Runtime) : Except String Task → Except String VerificationToolPayload
  | .error err => .error err
  | .ok task =>
    if task.status.state = .failed then .error "Verifier task failed"
    else do
      let payload ← extractVerificationPayload rt task
      if payload.endConvo then .ok payload
      else .error "submit_verification must set end_convo=true"

/-- What the verification of a finished step leads to. -/
def Reply.verification (rt : Runtime) (reply : Reply) (step : SpecStep)
    (child : Option SpecSheet) : Plan.Outcome SpecStep :=
  if step.requiresVerification then
    if summarizes rt reply.summarizer then
      match (verdict (submitted rt reply.verifier)).1 with
      | .verified => .advance (child.map (·.steps))
      | .needsRevision => .again { step with status := .pending }
      | .failed => .leave
    else .again { step with status := .pending }
  else .advance (child.map (·.steps))

/-- What an execution of `step` with these answers leads to. -/
def Reply.outcome (rt : Runtime) (reply : Reply) (step : SpecStep) : Plan.Outcome SpecStep :=
  let child := (extractSubSpec rt reply.task).toOption.join
  match reply.task.status.state, child with
  | .failed, _ => .advance none
  | .submitted, some sub => .split sub.steps { step with status := .pending, subSpec := some sub }
  | _, _ => reply.verification rt step child

/-- The walk that an uncontrolled run makes of a plan. -/
def planRules (rt : Runtime) (replies : ℕ → Reply) : Plan.Rules String SpecStep where
  enter p step := composePrefix p step.index
  start step := { step with status := .inProgress }
  outcome n step := (replies n).outcome rt step

/-- An answer that neither cancels the step nor makes the run return an error: unless the task
failed, its child decodes, and so does its summary where the step is not split. -/
structure Reply.Proper (rt : Runtime) (reply : Reply) : Prop where
  not_cancelled : reply.task.status.state ≠ .cancelled
  decodes : reply.task.status.state ≠ .failed →
    ∃ child, extractSubSpec rt reply.task = .ok child ∧
      (reply.task.status.state = .submitted ∧ child.isSome ∨
        ∃ summary, extractSummary rt reply.task = .ok summary)

variable {rt : Runtime} {replies : ℕ → Reply} {s t : State}

theorem verifierResult_snd (rt : Runtime) (context : VerificationContext)
    (result : Except String Task) :
    (verifierResult rt context result).2 = submitted rt result := by
  cases result with
  | error err => rfl
  | ok task =>
    by_cases hfailed : task.status.state = .failed
    · simp [verifierResult, submitted, hfailed]
    · cases hp : extractVerificationPayload rt task with
      | error err => simp [verifierResult, submitted, hfailed, hp, bind, Except.bind]
      | ok payload =>
        cases he : payload.endConvo <;>
          simp [verifierResult, submitted, hfailed, hp, he, bind, Except.bind]

theorem summarizerResult_snd (context : VerificationContext) (result : Except String Task) :
    (summarizerResult rt context result).2.isOk = summarizes rt result := by
  cases result with
  | error err => rfl
  | ok task =>
    by_cases hfailed : task.status.state = .failed
    · simp [summarizerResult, summarizes, hfailed, Except.isOk, Except.toBool]
    · cases hs : extractSummary rt task <;>
        simp [summarizerResult, summarizes, hfailed, hs, Except.isOk, Except.toBool]

/-- No command is queued, the run is not paused, and no cancellation is kept for later. -/
structure State.Quiet (s : State) : Prop where
  commands : s.commands = []
  paused : s.paused = false
  cancelPrefix : s.cancelPrefix = none

/-- What an uncontrolled run depends on. -/
structure View where
  pc : Pc
  stack : List Frame
  executed : List (String × SpecStep)

def State.view (s : State) : View := ⟨s.pc, s.stack, s.executed⟩

/-- The uncontrolled run leads from any quiet state that `v` views to one that `w` views. -/
def Goes (rt : Runtime) (replies : ℕ → Reply) (v w : View) : Prop :=
  ∀ s : State, s.Quiet → s.view = v →
    ∃ t : State, Leads (step rt) (Answers replies) s t ∧ t.Quiet ∧ t.view = w

variable {v w x : View} {stack rest : List Frame} {executed : List (String × SpecStep)}

theorem Goes.refl (v : View) : Goes rt replies v v := fun s hq hv => ⟨s, .refl s, hq, hv⟩

theorem Goes.trans (h : Goes rt replies v w) (h' : Goes rt replies w x) : Goes rt replies v x := by
  intro s hq hv
  obtain ⟨t, ht, hq, hw⟩ := h s hq hv
  obtain ⟨u, hu, hq, hx⟩ := h' t hq hw
  exact ⟨u, ht.trans hu, hq, hx⟩

theorem goes_of_step {pc : Pc} (h : ∀ s : State, s.Quiet → s.pc = pc → s.stack = stack →
      s.executed = executed →
      ∃ t, step rt s (respond replies s) = some t ∧ t.Quiet ∧ t.view = w) :
    Goes rt replies ⟨pc, stack, executed⟩ w := by
  intro s hq hv
  simp only [view, View.mk.injEq] at hv
  obtain ⟨t, hs, ht, hw⟩ := h s hq hv.1 hv.2.1 hv.2.2
  exact ⟨t, leads_of_step rfl hs, ht, hw⟩

@[simp] theorem goto_executed (pc : Pc) : (s.goto pc).executed = s.executed := rfl

@[simp] theorem output_executed (entries : List Entry) :
    (s.output entries).executed = s.executed ++ entries.filterMap Entry.execution := by
  simp [executed, output]

attribute [local simp] respond step tick view

/-- A step that goes on elsewhere; it may be done with a frame. -/
theorem goes_goto {pc pc' : Pc} (h : ∀ s : State, s.Quiet → s.pc = pc → ∃ t,
      (t = s ∨ ∃ frame, t = s.done frame) ∧ step rt s (respond replies s) = some (t.goto pc')) :
    Goes rt replies ⟨pc, stack, executed⟩ ⟨pc', stack, executed⟩ := by
  refine goes_of_step fun s hq hpc hstack hex => ?_
  obtain ⟨t, rfl | ⟨frame, rfl⟩, hs⟩ := h s hq hpc
  all_goals
    refine ⟨_, hs, ⟨hq.commands, hq.paused, hq.cancelPrefix⟩, ?_⟩
    simp [State.goto, State.done, State.executed, hstack, ← hex]

theorem goes_pop (frame : Frame) : Goes rt replies ⟨.loopHead, frame :: rest, executed⟩
    ⟨.receive (.afterPop frame) [], rest, executed⟩ := by
  refine goes_of_step fun s hq hpc hstack hex => ?_
  refine ⟨{ s with stack := rest, pc := .receive (.afterPop frame) [] }, ?_, ?_, ?_⟩
  · simp [hpc, hstack]
  · exact ⟨hq.commands, hq.paused, hq.cancelPrefix⟩
  · simp [← hex, State.executed]

theorem goes_received (site : Site) :
    Goes rt replies ⟨.receive site [], stack, executed⟩ ⟨.handle site [], stack, executed⟩ := by
  refine goes_goto fun s hq hpc => ⟨s, .inl rfl, ?_⟩
  simp [hpc, hq.commands]

theorem goes_held (site : Site) (h : ∀ a task, site ≠ .afterExecute a task) :
    Goes rt replies ⟨.handle site [], stack, executed⟩
      ⟨.pausedCheck site.held, stack, executed⟩ := by
  refine goes_goto fun s hq hpc => ⟨s, .inl rfl, ?_⟩
  cases site with
  | afterExecute a task => exact absurd rfl (h a task)
  | _ => simp [hpc, resumeSite, Site.held]

theorem goes_exhausted {frame : Frame} (h : ¬ frame.stepIdx < frame.spec.steps.length) :
    Goes rt replies ⟨.pausedCheck frame, stack, executed⟩ ⟨.loopHead, stack, executed⟩ := by
  refine goes_goto fun s hq hpc => ⟨s.done frame, .inr ⟨frame, rfl⟩, ?_⟩
  simp [hpc, hq.paused, startStep, h]

theorem goes_start (a : Active) : Goes rt replies ⟨.pausedCheck a.toFrame, stack, executed⟩
    ⟨.perform (announce (a.setStatus .inProgress)) (.setPrefix (a.setStatus .inProgress)), stack,
      executed⟩ := by
  refine goes_goto fun s hq hpc => ⟨s, .inl rfl, ?_⟩
  simp [hpc, hq.paused, startStep, a.inRange]

theorem goes_perform (todo : List Entry) (next : Next) (h : ∀ e ∈ todo, e.execution = none) :
    Goes rt replies ⟨.perform todo next, stack, executed⟩ ⟨next.pc, stack, executed⟩ := by
  induction todo with
  | nil =>
    refine goes_goto fun s hq hpc => ⟨s, .inl rfl, ?_⟩
    simp [hpc]
  | cons entry todo ih =>
    refine Goes.trans ?_ (ih fun e he => h e (List.mem_cons_of_mem _ he))
    refine goes_of_step fun s hq hpc hstack hex => ?_
    refine ⟨(s.output [entry]).goto (.perform todo next), ?_,
      ⟨hq.commands, hq.paused, hq.cancelPrefix⟩, ?_⟩
    · cases entry <;> simp [hpc, State.ack, Entry.isCall]
    · have hentry := h entry List.mem_cons_self
      simp [State.goto, State.output, State.executed, hstack, ← hex, hentry]

/-- From the publication of the prefix to the implementor's answer. -/
theorem goes_execute (a : Active) : Goes rt replies ⟨.setPrefix a, stack, executed⟩
    ⟨.clearCancel a (some (replies executed.length).task), stack,
      executed ++ [(a.currentPrefix, a.step)]⟩ := by
  intro s hq hv
  obtain ⟨hpc, hstack, hex⟩ : s.pc = .setPrefix a ∧ s.stack = stack ∧ s.executed = executed := by
    simpa only [State.view, View.mk.injEq] using hv
  -- the channel is numbered by the state, which is why the steps are taken in one
  let s₁ : State := { s with
    nextChannel := s.nextChannel + 1
    currentPrefix := some a.currentPrefix
    sharedPrefix := some a.currentPrefix
    pc := .setCancel a s.nextChannel }
  let s₂ : State := { s₁ with
    currentCancel := some s.nextChannel
    sharedCancel := some s.nextChannel
    pc := .cancelCheck a s.nextChannel }
  let s₃ := (s₂.output [.execute a.step a.spec a.currentPrefix]).goto (.executing a s.nextChannel)
  have hex₃ : s₃.executed = executed ++ [(a.currentPrefix, a.step)] := by
    simp [s₃, s₂, s₁, ← hex, State.executed, State.goto, State.output]
  let task := (replies executed.length).task
  let s₄ := (s₃.output [.ran .implementor a.currentPrefix (.ok task)]).goto
    (.clearCancel a (some task))
  have h₁ : Leads (step rt) (Answers replies) s s₁ := leads_of_step rfl (by simp [hpc, s₁])
  have h₂ : Leads (step rt) (Answers replies) s₁ s₂ := leads_of_step rfl (by simp [s₁, s₂])
  have h₃ : Leads (step rt) (Answers replies) s₂ s₃ :=
    leads_of_step rfl (by simp [s₁, s₂, s₃, hq.cancelPrefix])
  have h₄ : Leads (step rt) (Answers replies) s₃ s₄ := by
    have hpc₃ : s₃.pc = .executing a s.nextChannel := rfl
    refine leads_of_step rfl ?_
    simp only [respond, hpc₃, hex₃, step, State.subAgentDone]
    simp [s₄, task]
  refine ⟨s₄, h₁.trans (h₂.trans (h₃.trans h₄)), ⟨hq.commands, hq.paused, hq.cancelPrefix⟩, ?_⟩
  have hex₄ : s₄.executed = s₃.executed := by simp [s₄]
  simp only [State.view, hex₄, hex₃]
  simp [s₄, s₃, s₂, s₁, State.goto, State.output, hstack, task]

theorem goes_cleared (a : Active) (task : Task) :
    Goes rt replies ⟨.clearCancel a (some task), stack, executed⟩
      ⟨.receive (.afterExecute a task) [], stack, executed⟩ := by
  have hfirst : Goes rt replies ⟨.clearCancel a (some task), stack, executed⟩
      ⟨.clearPrefix a (some task), stack, executed⟩ := by
    refine goes_of_step fun s hq hpc hstack hex => ?_
    refine ⟨{ s with
      currentCancel := none
      sharedCancel := none
      pc := .clearPrefix a (some task) }, ?_, ⟨hq.commands, hq.paused, hq.cancelPrefix⟩, ?_⟩
    · simp [hpc]
    · simp [State.executed, hstack, ← hex]
  refine hfirst.trans (goes_of_step fun s hq hpc hstack hex => ?_)
  refine ⟨{ s with
      currentPrefix := none
      sharedPrefix := none
      pc := .receive (.afterExecute a task) [] }, ?_, ⟨hq.commands, hq.paused, hq.cancelPrefix⟩, ?_⟩
  · simp [hpc]
  · simp [State.executed, hstack, ← hex]

theorem announce_execution (a : Active) : ∀ e ∈ announce a, e.execution = none := by
  simp [announce]

theorem report_execution (reports : List Report) :
    ∀ e ∈ reports.map Report.entry, e.execution = none := by
  simp

/-- The step of the frame in hand is executed, and its task looked at. -/
theorem goes_run (a : Active) : Goes rt replies ⟨.pausedCheck a.toFrame, rest, executed⟩
    ⟨.handle (.afterExecute (a.setStatus .inProgress) (replies executed.length).task) [], rest,
      executed ++ [(a.currentPrefix, { a.step with status := .inProgress })]⟩ := by
  let started := a.setStatus .inProgress
  have hexecute : Goes rt replies ⟨.setPrefix started, rest, executed⟩
      ⟨.handle (.afterExecute started (replies executed.length).task) [], rest,
        executed ++ [(started.currentPrefix, started.step)]⟩ :=
    (goes_execute started).trans ((goes_cleared _ _).trans (goes_received _))
  rw [Active.setStatus_currentPrefix, Active.setStatus_step] at hexecute
  exact (goes_start a).trans
    ((goes_perform _ (.setPrefix started) (announce_execution started)).trans hexecute)

/-- The frame on top of the stack is taken in hand. -/
theorem goes_taken (frame : Frame) : Goes rt replies ⟨.loopHead, frame :: rest, executed⟩
    ⟨.pausedCheck frame, rest, executed⟩ :=
  (goes_pop frame).trans <| (goes_received _).trans (goes_held _ (by simp))

theorem goes_push (back : Option Frame) (fresh : List Frame) :
    Goes rt replies ⟨.push back fresh, stack, executed⟩
      ⟨.loopHead, fresh.reverse ++ (back.toList ++ stack), executed⟩ := by
  refine goes_of_step fun s hq hpc hstack hex => ?_
  refine ⟨{ s with
      stack := fresh.reverse ++ (back.toList ++ s.stack)
      born := s.born ++ fresh
      pc := .loopHead }, ?_, ⟨hq.commands, hq.paused, hq.cancelPrefix⟩, ?_⟩
  · simp [hpc]
  · simp [State.executed, hstack, ← hex]

variable {a : Active} {task : Task} {context : VerificationContext} {entries : List Entry}
  {result : Except String Task} {summary : TaskSummary}

theorem goes_failed (h : task.status.state = .failed) :
    Goes rt replies ⟨.handle (.afterExecute a task) [], stack, executed⟩
      ⟨.loopHead, (a.setStatus .failed).next :: stack, executed⟩ := by
  let failed := (a.setStatus .failed).next
  refine Goes.trans ?_ ((goes_perform _ (.push none [failed])
    (announce_execution (a.setStatus .failed))).trans (goes_push none [failed]))
  refine goes_goto fun s hq hpc => ⟨s.done a.toFrame, .inr ⟨_, rfl⟩, ?_⟩
  simp [hpc, resumeSite, decideTask, hq.cancelPrefix, h, failStep, failed]

theorem goes_split {child : SpecSheet}
    (h : task.status.state = .submitted) (hchild : extractSubSpec rt task = .ok (some child)) :
    Goes rt replies ⟨.handle (.afterExecute a task) [], stack, executed⟩
      ⟨.loopHead, ⟨child, 0, a.currentPrefix⟩ ::
        ((a.setStatus .pending).setSubSpec child).toFrame :: stack, executed⟩ := by
  let split := ((a.setStatus .pending).setSubSpec child).toFrame
  let pushed : List Entry :=
    [.event (.childSpecPushed a.step.index child.id child.steps.length)]
  have hpushed : ∀ e ∈ pushed, e.execution = none := by simp [pushed]
  refine Goes.trans ?_ ((goes_perform pushed (.push (some split) [⟨child, 0, a.currentPrefix⟩])
    hpushed).trans (goes_push (some split) [⟨child, 0, a.currentPrefix⟩]))
  refine goes_goto fun s hq hpc => ⟨s, .inl rfl, ?_⟩
  simp [hpc, resumeSite, decideTask, hq.cancelPrefix, h, hchild, pushed, split]

theorem AgentReport.execution (h : AgentReport entries) : ∀ e ∈ entries, e.execution = none := by
  cases h <;> simp [agentEvent]

theorem summarizerResult_of_summarizes
    (context : VerificationContext) (h : summarizes rt result = true) :
    ∃ entries summary, summarizerResult rt context result = (entries, .ok summary) := by
  rw [← summarizerResult_snd context] at h
  rcases hresult : summarizerResult rt context result with ⟨entries, message | summary⟩
  · simp [hresult, Except.isOk, Except.toBool] at h
  · exact ⟨entries, summary, rfl⟩

theorem summarizerResult_of_not_summarizes
    (context : VerificationContext) (h : ¬ summarizes rt result = true) :
    ∃ entries message, summarizerResult rt context result = (entries, .error message) := by
  rw [← summarizerResult_snd context] at h
  rcases hresult : summarizerResult rt context result with ⟨entries, message | summary⟩
  · exact ⟨entries, message, rfl⟩
  · simp [hresult, Except.isOk, Except.toBool] at h

theorem goes_sent_back
    {message : String} (hresult : summarizerResult rt context
      (replies (executed.length - 1)).summarizer = (entries, .error message)) :
    Goes rt replies ⟨.summarizing a task context, stack, executed⟩
      ⟨.settle a task .retry, stack, executed⟩ := by
  let reports := rejectReports (noteFeedback context.summary "summarizer" message) message
  refine Goes.trans ?_ (goes_perform (reports.map Report.entry) (.settle a task .retry)
    (report_execution reports))
  refine goes_of_step fun s hq hpc hstack hex => ?_
  refine ⟨((s.output [.ran .summarizer (context.stepPrefix ++ ".summary")
    (replies (executed.length - 1)).summarizer]).output entries).goto
      (.perform (reports.map Report.entry) (.settle a task .retry)), ?_,
    ⟨hq.commands, hq.paused, hq.cancelPrefix⟩, ?_⟩
  · simp [hpc, hex, State.subAgentDone, State.summarized, hresult, reports]
  · have hexecution := (summarizer_report hresult).execution
    have hlog : s.log.filterMap Entry.execution = executed := hex
    simpa [State.executed, State.output, State.goto, hlog, hstack] using hexecution

theorem goes_summarized (hrequires : a.step.requiresVerification = true)
    (hresult : summarizerResult rt context (replies (executed.length - 1)).summarizer =
      (entries, .ok summary)) :
    Goes rt replies ⟨.summarizing a task context, stack, executed⟩
      ⟨.verifying a task (State.verificationContext rt a task
        (markSummary { summary with stepIndex := a.step.index } .pending)), stack, executed⟩ := by
  let pending := markSummary { summary with stepIndex := a.step.index } .pending
  let context' := State.verificationContext rt a task pending
  let todo : List Entry := [.call (.updateTaskSummary pending), .event (.summaryUpdated pending),
    .event (verifierEvent context' .inProgress)]
  refine Goes.trans ?_ (goes_perform todo (.verifying a task context') (by simp [todo]))
  refine goes_of_step fun s hq hpc hstack hex => ?_
  refine ⟨{ (s.output [.ran .summarizer (context.stepPrefix ++ ".summary")
      (replies (executed.length - 1)).summarizer]).output entries with
    lastVerification := some context'
    pc := .perform todo (.verifying a task context') }, ?_,
    ⟨hq.commands, hq.paused, hq.cancelPrefix⟩, ?_⟩
  · simp [hpc, hex, State.subAgentDone, State.summarized, State.verify, hresult, hrequires,
      context', pending, todo]
  · have hexecution := (summarizer_report hresult).execution
    have hlog : s.log.filterMap Entry.execution = executed := hex
    simpa [State.executed, State.output, hlog, hstack] using hexecution

theorem goes_verified (a : Active) (task : Task) (context : VerificationContext) :
    Goes rt replies ⟨.verifying a task context, stack, executed⟩ ⟨.settle a task
      (conclude context.summary (verdict (submitted rt (replies (executed.length - 1)).verifier)).1
        (verdict (submitted rt (replies (executed.length - 1)).verifier)).2).disposition,
      stack, executed⟩ := by
  rcases hresult : verifierResult rt context (replies (executed.length - 1)).verifier with
    ⟨entries, payload⟩
  obtain rfl : payload = submitted rt (replies (executed.length - 1)).verifier := by
    rw [← verifierResult_snd rt context, hresult]
  let payload := submitted rt (replies (executed.length - 1)).verifier
  let conclusion := conclude context.summary (verdict payload).1 (verdict payload).2
  refine Goes.trans ?_ (goes_perform (conclusion.reports.map Report.entry)
    (.settle a task conclusion.disposition) (report_execution conclusion.reports))
  refine goes_of_step fun s hq hpc hstack hex => ?_
  refine ⟨{ (s.output [.ran .verifier (context.stepPrefix ++ ".verify")
      (replies (executed.length - 1)).verifier]).output entries with
    lastVerification := s.lastVerification.map (·.withSummary conclusion.summary)
    pc := .perform (conclusion.reports.map Report.entry)
      (.settle a task conclusion.disposition) }, ?_, ⟨hq.commands, hq.paused, hq.cancelPrefix⟩, ?_⟩
  · simp [hpc, hex, State.subAgentDone, State.verified, hresult, conclusion, payload]
    rfl
  · have hexecution := (verifier_report hresult).execution
    have hlog : s.log.filterMap Entry.execution = executed := hex
    simpa [State.executed, State.output, hlog, hstack] using hexecution

theorem goes_again (a : Active) (task : Task) :
    Goes rt replies ⟨.settle a task .retry, stack, executed⟩
      ⟨.loopHead, (a.setStatus .pending).toFrame :: stack, executed⟩ := by
  let pending := a.setStatus .pending
  refine Goes.trans ?_ ((goes_perform (announce pending) (.push (some pending.toFrame) [])
    (announce_execution pending)).trans (goes_push (some pending.toFrame) []))
  refine goes_goto fun s hq hpc => ⟨s, .inl rfl, ?_⟩
  simp [hpc, settle, pending]

theorem goes_rejected {value : Value} (hvalue : rt.valueOfSummary summary = .ok value) :
    Goes rt replies ⟨.settle a task (.fail summary), stack, executed⟩
      ⟨.loopHead, stack, executed⟩ := by
  refine Goes.trans ?_ (goes_perform (announce (rejectedStep a value)) .loopHead
    (announce_execution _))
  refine goes_goto fun s hq hpc => ⟨s.done a.toFrame, .inr ⟨_, rfl⟩, ?_⟩
  simp [hpc, settle, hvalue]

theorem goes_accepted {child : Option SpecSheet}
    {value : Value} (hvalue : rt.valueOfSummary summary = .ok value)
    (hchild : extractSubSpec rt task = .ok child) :
    Goes rt replies ⟨.settle a task (.success summary), stack, executed⟩
      ⟨.loopHead, (acceptedFrames a (completedStep a child value) child).reverse ++ stack,
        executed⟩ := by
  let completed := completedStep a child value
  let fresh := acceptedFrames a completed child
  refine Goes.trans ?_ ((goes_perform (announce completed) (.push none fresh)
    (announce_execution completed)).trans (goes_push none fresh))
  refine goes_goto fun s hq hpc => ⟨s.done a.toFrame, .inr ⟨_, rfl⟩, ?_⟩
  simp [hpc, settle, hvalue, hchild, completed, fresh]

/-- A finished task goes to the settling of its step, through the verification it requires. -/
theorem decideTask_eq_finishTask (hq : s.Quiet)
    (hcancelled : task.status.state ≠ .cancelled) (hfailed : task.status.state ≠ .failed)
    (hsplit : task.status.state = .submitted → extractSubSpec rt task = .ok none) :
    s.decideTask rt a task = s.finishTask rt a task := by
  unfold decideTask
  simp only [hq.cancelPrefix, reduceCtorEq, if_false]
  cases hstate : task.status.state <;> simp_all

theorem goes_passed
    (hcancelled : task.status.state ≠ .cancelled) (hfailed : task.status.state ≠ .failed)
    (hsplit : task.status.state = .submitted → extractSubSpec rt task = .ok none)
    (hsummary : extractSummary rt task = .ok summary)
    (hrequires : a.step.requiresVerification = false) :
    Goes rt replies ⟨.handle (.afterExecute a task) [], stack, executed⟩
      ⟨.settle a task (.success (markSummary summary .passed)), stack, executed⟩ := by
  let passed := markSummary summary .passed
  refine Goes.trans ?_ (goes_perform ((passReports passed).map Report.entry)
    (.settle a task (.success passed)) (report_execution _))
  refine goes_goto fun s hq hpc => ⟨s, .inl rfl, ?_⟩
  simp [hpc, resumeSite, decideTask_eq_finishTask hq hcancelled hfailed hsplit,
    finishTask, hsummary, hrequires, verify, passed]

theorem goes_summarizing
    (hcancelled : task.status.state ≠ .cancelled) (hfailed : task.status.state ≠ .failed)
    (hsplit : task.status.state = .submitted → extractSubSpec rt task = .ok none)
    (hsummary : extractSummary rt task = .ok summary)
    (hrequires : a.step.requiresVerification = true) :
    Goes rt replies ⟨.handle (.afterExecute a task) [], stack, executed⟩
      ⟨.summarizing a task (verificationContext rt a task summary), stack, executed⟩ := by
  let context := verificationContext rt a task summary
  refine Goes.trans ?_ (goes_perform [.event (summarizerEvent context .inProgress)]
    (.summarizing a task context) (by simp))
  refine goes_goto fun s hq hpc => ⟨s, .inl rfl, ?_⟩
  simp [hpc, resumeSite, decideTask_eq_finishTask hq hcancelled hfailed hsplit,
    finishTask, hsummary, hrequires, context]

end ColossalCode.Orchestrator
