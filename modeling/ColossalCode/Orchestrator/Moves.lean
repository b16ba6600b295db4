import ColossalCode.Orchestrator.Record

/-! The run loop without its plumbing: what one step can do to the frames, to the record of a run
and to what it shares with its control calls, once reports that are under way count as made. -/
namespace ColossalCode.Orchestrator
open List Option State

open Protocol

/-- The control point a run has once the reports under way are made. -/
def Pc.after : Pc → Pc
  | .perform _ next => next.pc
  | pc => pc

/-- The reports under way. -/
def Pc.todo : Pc → List Entry
  | .perform todo _ => todo
  | _ => []

/-- The commands that a run has taken from the channel and has still to handle. -/
def Pc.commands : Pc → List OrchestratorCommand
  | .receive _ received => received
  | .handle _ remaining => remaining
  | .rerunning _ rest _ | .reporting _ _ rest _ => rest
  | _ => []

variable (next : Next)

@[simp] theorem Next.pc_after : next.pc.after = next.pc := by cases next <;> rfl

@[simp] theorem Next.pc_commands : next.pc.commands = [] := by cases next <;> rfl

@[simp] theorem Next.pc_inHand : next.pc.inHand = next.inHand := by cases next <;> rfl

theorem Next.pc_ne_finished (result : Except String Unit) (held : Option Frame) :
    next.pc ≠ .finished result held := by cases next <;> simp [Next.pc]

/-- The run has not returned. -/
def State.Running (s : State) : Prop := ∀ result held, s.pc ≠ .finished result held

theorem finished_of_not_running {s : State} (hs : ¬ s.Running) :
    ∃ result held, s.pc = .finished result held := by
  simpa [State.Running] using hs

/-- What a run and its control calls read and write. -/
structure Shared where
  currentPrefix : Option String
  currentCancel : Option Nat
  cancelPrefix : Option String
  commands : List OrchestratorCommand
  paused : Bool
  aborted : Bool
  sharedPrefix : Option String
  sharedCancel : Option Nat
  signals : List Nat
  nextChannel : Nat
  calls : List Call

def State.shared (s : State) : Shared where
  currentPrefix := s.currentPrefix
  currentCancel := s.currentCancel
  cancelPrefix := s.cancelPrefix
  commands := s.commands
  paused := s.paused
  aborted := s.aborted
  sharedPrefix := s.sharedPrefix
  sharedCancel := s.sharedCancel
  signals := s.signals
  nextChannel := s.nextChannel
  calls := s.calls

/-- The `CancelStep` arm of `process_commands`, on what it shares. -/
def Shared.cancel (sh : Shared) (stepPrefix : String) : Shared :=
  let sh := { sh with cancelPrefix := some stepPrefix }
  match sh.currentCancel with
  | some channel =>
    if sh.currentPrefix = some stepPrefix then
      { sh with currentCancel := none, sharedCancel := none, signals := sh.signals ++ [channel] }
    else sh
  | none => sh

/-- A request changes its slot, and the cancel channel at most. -/
theorem Shared.cancel_eq (sh : Shared) (p : String) : ∃ currentCancel sharedCancel signals,
    sh.cancel p = { sh with
      cancelPrefix := some p
      currentCancel
      sharedCancel
      signals := sh.signals ++ signals } := by
  unfold Shared.cancel
  simp only
  split
  · rename_i channel _
    split
    · exact ⟨none, none, [channel], rfl⟩
    · exact ⟨sh.currentCancel, sh.sharedCancel, [], by simp⟩
  · exact ⟨sh.currentCancel, sh.sharedCancel, [], by simp⟩

/-- The commands that change flags at most, with the events they are answered by. -/
inductive Shared.Takes (sh : Shared) : OrchestratorCommand → List Entry → Shared → Prop
  | pause : sh.Takes .pause [.event .paused] { sh with paused := true }
  | resume : sh.Takes .resume [.event .resumed] { sh with paused := false }
  | rerunNone : sh.Takes .rerunVerifiers [] sh
  | cancelStep (p : String) : sh.Takes (.cancelStep p) [] (sh.cancel p)
  | resumeNone (p message : String) :
      sh.Takes (.resumeStep p message) [.event .resumed] { sh with paused := false }
  | resumeOther (p message : String) : sh.Takes (.resumeStep p message) [] sh

/-- The steps of the control calls in progress. -/
inductive Shared.Controls (sh : Shared) : Shared → Prop
  | call (method : ControlMethod) :
      sh.Controls { sh with calls := sh.calls ++ [⟨method, method.ops⟩] }
  | returned {i method} (hcall : sh.calls[i]? = some ⟨method, []⟩) :
      sh.Controls { sh with calls := sh.calls.eraseIdx i }
  | storePaused {i method rest b} (hcall : sh.calls[i]? = some ⟨method, .storePaused b :: rest⟩) :
      sh.Controls { sh with paused := b, calls := sh.calls.set i ⟨method, rest⟩ }
  | storeAborted {i method rest} (hcall : sh.calls[i]? = some ⟨method, .storeAborted :: rest⟩) :
      sh.Controls { sh with aborted := true, calls := sh.calls.set i ⟨method, rest⟩ }
  | matchPrefix {i method rest p} (hcall : sh.calls[i]? = some ⟨method, .matchPrefix p :: rest⟩) :
      sh.Controls { sh with
        calls := sh.calls.set i
          ⟨method, if sh.sharedPrefix = some p then .readCancel :: rest else rest⟩ }
  | readCancel {i method rest} (hcall : sh.calls[i]? = some ⟨method, .readCancel :: rest⟩) :
      sh.Controls { sh with
        calls := sh.calls.set i ⟨method, (sh.sharedCancel.map .signal).toList ++ rest⟩ }
  | signal {i method rest channel}
      (hcall : sh.calls[i]? = some ⟨method, .signal channel :: rest⟩) :
      sh.Controls { sh with
        signals := sh.signals ++ [channel], calls := sh.calls.set i ⟨method, rest⟩ }
  | send {i method rest command} (hcall : sh.calls[i]? = some ⟨method, .send command :: rest⟩) :
      sh.Controls { sh with
        commands := sh.commands ++ [command], calls := sh.calls.set i ⟨method, rest⟩ }

/-- A task that is neither parked nor failed nor split. -/
structure Finishes (rt : Runtime) (task : Task) : Prop where
  not_cancelled : task.status.state ≠ .cancelled
  not_failed : task.status.state ≠ .failed
  not_split : task.status.state = .submitted → extractSubSpec rt task = .ok none

structure Core where
  stack : List Frame
  pending : Option Active
  verification : Option VerificationContext
  pc : Pc
  trace : List Entry
  born : List Frame
  settled : List Frame
  shared : Shared

def State.core (s : State) : Core where
  stack := s.stack
  pending := s.pendingResume
  verification := s.lastVerification
  pc := s.pc.after
  trace := s.log ++ s.pc.todo
  born := s.born
  settled := s.settled
  shared := s.shared

def Core.goto (c : Core) (pc : Pc) (entries : List Entry) : Core :=
  { c with pc, trace := c.trace ++ entries }

/-- The reports that start a verifier, after those in `entries`. -/
def verifierStart (context : VerificationContext) : List Entry :=
  [.call (.updateTaskSummary context.summary), .event (.summaryUpdated context.summary),
    .event (verifierEvent context .inProgress)]

/-- One move of the run loop. -/
inductive Move (rt : Runtime) (c : Core) : Core → Prop
  | stutter : Move rt c c
  | control {shared} (hcontrols : c.shared.Controls shared) : Move rt c { c with shared }
  /- the loop and the commands -/
  | complete (hpc : c.pc = .loopHead) (hstack : c.stack = []) :
      Move rt c (c.goto (.finished (.ok ()) none) [.event .completed])
  | pop {frame rest} (hpc : c.pc = .loopHead) (hstack : c.stack = frame :: rest) :
      Move rt c { c with stack := rest, pc := .receive (.afterPop frame) [] }
  | receive {site received command rest} (hpc : c.pc = .receive site received)
      (hcommands : c.shared.commands = command :: rest) :
      Move rt c { c.goto (.receive site (received ++ [command])) [] with
        shared := { c.shared with commands := rest } }
  | received {site received} (hpc : c.pc = .receive site received)
      (hcommands : c.shared.commands = []) :
      Move rt c (c.goto (.handle site received) [])
  | ignore {site command rest reply shared} (hpc : c.pc = .handle site (command :: rest))
      (htakes : c.shared.Takes command reply shared)
      (hresume : ∀ p message, command = .resumeStep p message →
        ∀ a, c.pending = some a → a.framePrefix ≠ p) :
      Move rt c { c.goto (.handle site rest) (.handled command :: reply) with shared }
  | abort {site rest} (hpc : c.pc = .handle site (.abort :: rest)) :
      Move rt c { c.goto (.finished (.ok ()) (some site.held))
          [.handled .abort, .event .aborted] with
        shared := { c.shared with aborted := true } }
  | rerun {site rest context} (hpc : c.pc = .handle site (.rerunVerifiers :: rest))
      (hcontext : c.verification = some context) :
      Move rt c (c.goto (.rerunning site rest context)
        [.handled .rerunVerifiers, .event (verifierEvent context .inProgress)])
  | inject {site rest k child frame} (hpc : c.pc = .handle site (.injectSplit k child :: rest))
      (hframe : frame = ⟨child, 0, injectPrefix c.stack k⟩) :
      Move rt c { c.goto (.handle site rest) [.handled (.injectSplit k child),
          .event (.childSpecPushed k child.id child.steps.length)] with
        stack := frame :: c.stack
        born := c.born ++ [frame] }
  | resume {site rest p message a} (hpc : c.pc = .handle site (.resumeStep p message :: rest))
      (hpending : c.pending = some a) (hp : a.framePrefix = p) :
      Move rt c { c.goto (.handle site rest)
          [.handled (.resumeStep p message), .event .resumed] with
        stack := (a.resumed message).toFrame :: c.stack
        pending := none
        shared := { c.shared with paused := false } }
  | commandsDone {site} (hpc : c.pc = .handle site [])
      (hsite : ∀ a task, site ≠ .afterExecute a task) :
      Move rt c (c.goto (.pausedCheck site.held) [])
  /- starting a step -/
  | wait {frame} (hpc : c.pc = .pausedCheck frame) (hpaused : c.shared.paused = true) :
      Move rt c (c.goto (.receive (.whilePaused frame) []) [])
  | exhausted {frame} (hpc : c.pc = .pausedCheck frame) (hpaused : c.shared.paused = false)
      (hlast : ¬ frame.stepIdx < frame.spec.steps.length) :
      Move rt c { c.goto .loopHead [] with settled := c.settled ++ [frame] }
  | start {a : Active} (hpc : c.pc = .pausedCheck a.toFrame) (hpaused : c.shared.paused = false) :
      Move rt c (c.goto (.setPrefix (a.setStatus .inProgress)) (announce (a.setStatus .inProgress)))
  | setPrefix {a} (hpc : c.pc = .setPrefix a) :
      Move rt c { c.goto (.setCancel a c.shared.nextChannel) [] with
        shared := { c.shared with
          nextChannel := c.shared.nextChannel + 1
          currentPrefix := some a.currentPrefix
          sharedPrefix := some a.currentPrefix } }
  | setCancel {a channel} (hpc : c.pc = .setCancel a channel) :
      Move rt c { c.goto (.cancelCheck a channel) [] with
        shared := { c.shared with currentCancel := some channel, sharedCancel := some channel } }
  | cancelBefore {a channel} (hpc : c.pc = .cancelCheck a channel)
      (hcancel : c.shared.cancelPrefix = some a.currentPrefix) :
      Move rt c { c.goto (.clearCancel a none) [] with
        pending := some (a.setStatus .pending)
        shared := { c.shared with cancelPrefix := none } }
  | execute {a channel} (hpc : c.pc = .cancelCheck a channel)
      (hcancel : c.shared.cancelPrefix ≠ some a.currentPrefix) :
      Move rt c (c.goto (.executing a channel) [.execute a.step a.spec a.currentPrefix])
  | executed {a channel} (task) (hpc : c.pc = .executing a channel) :
      Move rt c (c.goto (.clearCancel a (some task))
        [.ran .implementor a.currentPrefix (.ok task)])
  | clearCancel {a task} (hpc : c.pc = .clearCancel a task) :
      Move rt c { c.goto (.clearPrefix a task) [] with
        shared := { c.shared with currentCancel := none, sharedCancel := none } }
  | cleared {a task} (hpc : c.pc = .clearPrefix a (some task)) :
      Move rt c { c.goto (.receive (.afterExecute a task) []) [] with
        shared := { c.shared with currentPrefix := none, sharedPrefix := none } }
  | clearedParked {a} (hpc : c.pc = .clearPrefix a none) :
      Move rt c { c.goto (.park a) [] with
        shared := { c.shared with currentPrefix := none, sharedPrefix := none } }
  | parked {a} (hpc : c.pc = .park a) :
      Move rt c { c.goto .loopHead [.event (.stepCancelled a.currentPrefix)] with
        shared := { c.shared with paused := true } }
  /- what becomes of an executed step -/
  | cancelAfter {a task} (hpc : c.pc = .handle (.afterExecute a task) [])
      (hcancel : c.shared.cancelPrefix = some a.currentPrefix) :
      Move rt c { c.goto (.park a) [] with
        pending := some (a.setStatus .pending)
        shared := { c.shared with cancelPrefix := none } }
  | taskCancelled {a task} (hpc : c.pc = .handle (.afterExecute a task) [])
      (hcancel : c.shared.cancelPrefix ≠ some a.currentPrefix)
      (hstate : task.status.state = .cancelled) :
      Move rt c { c.goto (.park a) [] with pending := some (a.setStatus .pending) }
  | split {a task child} (hpc : c.pc = .handle (.afterExecute a task) [])
      (hcancel : c.shared.cancelPrefix ≠ some a.currentPrefix)
      (hstate : task.status.state = .submitted)
      (hchild : extractSubSpec rt task = .ok (some child)) :
      Move rt c (c.goto (.push (some ((a.setStatus .pending).setSubSpec child).toFrame)
          [⟨child, 0, a.currentPrefix⟩])
        [.event (.childSpecPushed a.step.index child.id child.steps.length)])
  | taskFailed {a task} (hpc : c.pc = .handle (.afterExecute a task) [])
      (hcancel : c.shared.cancelPrefix ≠ some a.currentPrefix)
      (hstate : task.status.state = .failed) :
      Move rt c { c.goto (.push none [(a.setStatus .failed).next]) (announce (a.setStatus .failed))
        with settled := c.settled ++ [a.toFrame] }
  | summarize {a task summary} (hpc : c.pc = .handle (.afterExecute a task) [])
      (hcancel : c.shared.cancelPrefix ≠ some a.currentPrefix) (hfinishes : Finishes rt task)
      (hrequires : a.step.requiresVerification = true)
      (hsummary : extractSummary rt task = .ok summary) :
      Move rt c (c.goto (.summarizing a task (verificationContext rt a task summary))
        [.event (summarizerEvent (verificationContext rt a task summary) .inProgress)])
  | pass {a task summary} (hpc : c.pc = .handle (.afterExecute a task) [])
      (hcancel : c.shared.cancelPrefix ≠ some a.currentPrefix) (hfinishes : Finishes rt task)
      (hrequires : a.step.requiresVerification = false)
      (hsummary : extractSummary rt task = .ok summary) :
      Move rt c (c.goto (.settle a task (.success (markSummary summary .passed)))
        ((passReports (markSummary summary .passed)).map Report.entry))
  /- verification -/
  | summarizerFailed {a task context result entries message}
      (hpc : c.pc = .summarizing a task context)
      (hresult : summarizerResult rt context result = (entries, .error message)) :
      Move rt c (c.goto (.settle a task .retry)
        (.ran .summarizer (context.stepPrefix ++ ".summary") result :: (entries ++
          (rejectReports (noteFeedback context.summary "summarizer" message) message).map
            Report.entry)))
  | summarized {a task context result entries summary next}
      (hpc : c.pc = .summarizing a task context)
      (hrequires : a.step.requiresVerification = true)
      (hresult : summarizerResult rt context result = (entries, .ok summary))
      (hnext : next = verificationContext rt a task
        (markSummary { summary with stepIndex := a.step.index } .pending)) :
      Move rt c { c.goto (.verifying a task next)
          (.ran .summarizer (context.stepPrefix ++ ".summary") result ::
            (entries ++ verifierStart next)) with
        verification := some next }
  | summarizedPass {a task context result entries summary passed}
      (hpc : c.pc = .summarizing a task context)
      (hrequires : a.step.requiresVerification = false)
      (hresult : summarizerResult rt context result = (entries, .ok summary))
      (hpassed : passed = markSummary { summary with stepIndex := a.step.index } .passed) :
      Move rt c (c.goto (.settle a task (.success passed))
        (.ran .summarizer (context.stepPrefix ++ ".summary") result ::
          (entries ++ (passReports passed).map Report.entry)))
  | verified {a task context result entries payload conclusion}
      (hpc : c.pc = .verifying a task context)
      (hresult : verifierResult rt context result = (entries, payload))
      (hconclusion : conclusion =
        conclude context.summary (verdict payload).1 (verdict payload).2) :
      Move rt c { c.goto (.settle a task conclusion.disposition)
          (.ran .verifier (context.stepPrefix ++ ".verify") result ::
            (entries ++ conclusion.reports.map Report.entry)) with
        verification := c.verification.map (·.withSummary conclusion.summary) }
  | reverified {site rest context result entries payload reports summary}
      (hpc : c.pc = .rerunning site rest context)
      (hresult : verifierResult rt context result = (entries, payload))
      (hreports : reconclude context.summary (verdict payload).1 (verdict payload).2 =
        (summary, reports)) :
      Move rt c (c.goto (.reporting reports site rest summary)
        (.ran .verifier (context.stepPrefix ++ ".verify") result :: entries))
  | report {report todo site rest summary}
      (hpc : c.pc = .reporting (report :: todo) site rest summary) :
      Move rt c (c.goto (.reporting todo site rest summary) [report.entry])
  | reportFailed {report todo site rest summary} (message : String)
      (hpc : c.pc = .reporting (report :: todo) site rest summary) :
      Move rt c (c.goto (.handle site rest) [report.entry, .event (.error message)])
  | reported {site rest summary} (hpc : c.pc = .reporting [] site rest summary) :
      Move rt c { c.goto (.handle site rest) [] with
        verification := c.verification.map (·.withSummary summary) }
  /- settling a step -/
  | retry {a task} (hpc : c.pc = .settle a task .retry) :
      Move rt c (c.goto (.push (some (a.setStatus .pending).toFrame) [])
        (announce (a.setStatus .pending)))
  | accept {a task summary child value} (hpc : c.pc = .settle a task (.success summary))
      (hchild : extractSubSpec rt task = .ok child)
      (hvalue : rt.valueOfSummary summary = .ok value) :
      Move rt c { c.goto (.push none (acceptedFrames a (completedStep a child value) child))
          (announce (completedStep a child value)) with
        settled := c.settled ++ [a.toFrame] }
  | reject {a task summary value} (hpc : c.pc = .settle a task (.fail summary))
      (hvalue : rt.valueOfSummary summary = .ok value) :
      Move rt c { c.goto .loopHead (announce (rejectedStep a value)) with
        settled := c.settled ++ [a.toFrame] }
  | push {back fresh} (hpc : c.pc = .push back fresh) :
      Move rt c { c.goto .loopHead [] with
        stack := fresh.reverse ++ (back.toList ++ c.stack)
        born := c.born ++ fresh }
  /- an agent or a decoder fails: the run returns an error, what was under way is cut short -/
  | fail (err : String) (ran trace) (hran : ∀ e ∈ ran, ∃ p result, e = .ran .implementor p result)
      (htrace : trace <+: c.trace ++ ran) (hpc : ∀ result held, c.pc ≠ .finished result held) :
      Move rt c { c with pc := .finished (.error err) c.pc.inHand, trace }

variable {rt : Runtime} {s t : State} {c d e : Core}

theorem Move.of_eq (h : Move rt c d) (he : d = e) : Move rt c e := he ▸ h

theorem core_pc_of_eq {pc : Pc} (hpc : s.pc = pc) : s.core.pc = pc.after := by
  simp [core, hpc]

theorem finish_move {pc : Pc} {err : String} {held : Option Frame} (hpc : s.pc = pc)
    (hafter : pc.after = pc) (htodo : pc.todo = []) (hheld : pc.inHand = held)
    (hrun : ∀ result held, pc ≠ .finished result held) :
    Move rt s.core (s.finish (.error err) held).core := by
  have hc : s.core.pc = pc := (core_pc_of_eq hpc).trans hafter
  refine (Move.fail err [] s.log (by simp) ?_ (by simpa only [hc] using hrun)).of_eq ?_
  · simp [core, hpc, htodo]
  · rw [hc, hheld]
    simp [core, shared, State.finish, goto, Pc.after, Pc.todo]

attribute [local simp] core shared Core.goto goto output
    Pc.after Pc.todo Next.pc

theorem startStep_move {frame : Frame} (hpc : s.pc = .pausedCheck frame)
    (hpaused : s.paused = false) :
    Move rt s.core (s.startStep frame).core := by
  by_cases hlt : frame.stepIdx < frame.spec.steps.length
  · have hc : s.core.pc = .pausedCheck (Active.mk frame hlt).toFrame := core_pc_of_eq hpc
    refine (Move.start hc hpaused).of_eq ?_
    simp [startStep, hlt, hpc]
  · refine (Move.exhausted (core_pc_of_eq hpc) hpaused hlt).of_eq ?_
    simp [startStep, State.done, hlt, hpc]

variable {a : Active} {task : Task} {site : Site} {command : OrchestratorCommand}
  {rest : List OrchestratorCommand} {context : VerificationContext} {result : Except String Task}

theorem finishTask_move (hpc : s.pc = .handle (.afterExecute a task) [])
    (hcancel : s.cancelPrefix ≠ some a.currentPrefix) (hfinishes : Finishes rt task) :
    Move rt s.core (s.finishTask rt a task).core := by
  have hc : s.core.pc = .handle (.afterExecute a task) [] := core_pc_of_eq hpc
  unfold finishTask
  cases hs : extractSummary rt task with
  | error err => exact finish_move hpc rfl rfl rfl (by simp)
  | ok summary =>
    cases hr : a.step.requiresVerification with
    | true =>
      refine (Move.summarize hc hcancel hfinishes hr hs).of_eq ?_
      simp [hpc]
    | false =>
      refine (Move.pass hc hcancel hfinishes hr hs).of_eq ?_
      simp [verify, hr, hpc]

theorem decideTask_move (hpc : s.pc = .handle (.afterExecute a task) []) :
    Move rt s.core (s.decideTask rt a task).core := by
  have hc : s.core.pc = .handle (.afterExecute a task) [] := core_pc_of_eq hpc
  unfold decideTask
  by_cases hcancel : s.cancelPrefix = some a.currentPrefix
  · refine (Move.cancelAfter hc hcancel).of_eq ?_
    simp [storePending, hcancel, hpc]
  · simp only [hcancel, if_false]
    cases hstate : task.status.state with
    | cancelled =>
      refine (Move.taskCancelled hc hcancel hstate).of_eq ?_
      simp [storePending, hpc]
    | failed =>
      refine (Move.taskFailed hc hcancel hstate).of_eq ?_
      simp [failStep, State.done, hpc]
    | submitted =>
      cases hchild : extractSubSpec rt task with
      | error err => exact finish_move hpc rfl rfl rfl (by simp)
      | ok child =>
        cases child with
        | none =>
          exact finishTask_move hpc hcancel ⟨by simp [hstate], by simp [hstate], fun _ => hchild⟩
        | some child =>
          refine (Move.split hc hcancel hstate hchild).of_eq ?_
          simp [hpc]
    | working | inputRequired | completed | rejected | authRequired =>
      exact finishTask_move hpc hcancel ⟨by simp [hstate], by simp [hstate], by simp [hstate]⟩

theorem resumeSite_move (hpc : s.pc = .handle site []) :
    Move rt s.core (s.resumeSite rt site).core := by
  cases site with
  | afterPop frame =>
    refine (Move.commandsDone (core_pc_of_eq hpc) (by simp)).of_eq ?_
    simp [resumeSite, hpc, Site.held]
  | whilePaused frame =>
    refine (Move.commandsDone (core_pc_of_eq hpc) (by simp)).of_eq ?_
    simp [resumeSite, hpc, Site.held]
  | afterExecute a task => exact decideTask_move hpc

theorem ignore_move {reply : List Entry} {shared : Shared}
    (hpc : s.pc = .handle site (command :: rest)) (htakes : s.shared.Takes command reply shared)
    (hresume : ∀ p message, command = .resumeStep p message →
      ∀ a, s.pendingResume = some a → a.framePrefix ≠ p)
    (ht : t.core = { s.core with
      pc := .handle site rest, trace := s.log ++ .handled command :: reply, shared }) :
    Move rt s.core t.core := by
  refine (Move.ignore (core_pc_of_eq hpc) htakes hresume).of_eq ?_
  rw [ht]
  simp [hpc]

theorem cancelStep_core (p : String) :
    (s.cancelStep p).core = { s.core with shared := s.shared.cancel p } := by
  unfold cancelStep Shared.cancel
  cases hchannel : s.currentCancel with
  | none => simp [hchannel]
  | some channel => by_cases hp : s.currentPrefix = some p <;> simp [hchannel, hp]

theorem handleCommand_move (hpc : s.pc = .handle site (command :: rest)) :
    Move rt s.core (s.handleCommand site rest command).core := by
  have hc : s.core.pc = .handle site (command :: rest) := core_pc_of_eq hpc
  cases command with
  | pause =>
    refine ignore_move hpc .pause (by simp) ?_
    simp [handleCommand]
  | resume =>
    refine ignore_move hpc .resume (by simp) ?_
    simp [handleCommand]
  | abort =>
    refine (Move.abort hc).of_eq ?_
    simp [handleCommand, hpc]
  | rerunVerifiers =>
    cases hv : s.lastVerification with
    | none =>
      refine ignore_move hpc .rerunNone (by simp) ?_
      simp [handleCommand, hv]
    | some context =>
      refine (Move.rerun hc hv).of_eq ?_
      simp [handleCommand, hv, hpc]
  | injectSplit k child =>
    refine (Move.inject hc rfl).of_eq ?_
    simp [handleCommand, injectSplit, hpc]
  | cancelStep p =>
    refine ignore_move hpc (.cancelStep p) (by simp) ?_
    simp only [handleCommand]
    rw [cancelStep_core]
    simp
  | resumeStep p message =>
    cases hpending : s.pendingResume with
    | none =>
      refine ignore_move hpc (.resumeNone p message) (by simp [hpending]) ?_
      simp [handleCommand, resumeStep, hpending]
    | some a =>
      by_cases hp : a.framePrefix = p
      · refine (Move.resume hc hpending hp).of_eq ?_
        simp [handleCommand, resumeStep, hpending, hp, hpc]
      · refine ignore_move hpc (.resumeOther p message) ?_ ?_
        · rintro p' message' ⟨rfl, rfl⟩ a' ha'
          obtain rfl : a = a' := by simpa [hpending] using ha'
          exact hp
        · simp [handleCommand, resumeStep, hpending, hp]

theorem settle_move {disposition : StepDisposition} (hpc : s.pc = .settle a task disposition) :
    Move rt s.core (s.settle rt a task disposition).core := by
  cases disposition with
  | retry =>
    refine (Move.retry (core_pc_of_eq hpc)).of_eq ?_
    simp [settle, hpc]
  | success summary =>
    unfold settle
    cases hchild : extractSubSpec rt task with
    | error err => exact finish_move hpc rfl rfl rfl (by simp)
    | ok child =>
      simp only
      cases hvalue : rt.valueOfSummary summary with
      | error err => exact finish_move hpc rfl rfl rfl (by simp)
      | ok value =>
        refine (Move.accept (core_pc_of_eq hpc) hchild hvalue).of_eq ?_
        simp [State.done, hpc]
  | fail summary =>
    unfold settle
    simp only
    cases hvalue : rt.valueOfSummary summary with
    | error err => exact finish_move hpc rfl rfl rfl (by simp)
    | ok value =>
      refine (Move.reject (core_pc_of_eq hpc) hvalue).of_eq ?_
      simp [State.done, hpc]

theorem tick_move (h : s.tick rt = some t) : Move rt s.core t.core := by
  unfold tick at h
  split at h
  case h_1 hpc =>
    cases hstack : s.stack with
    | nil =>
      obtain rfl : _ = t := by simpa [hstack] using h
      refine (Move.complete (core_pc_of_eq hpc) hstack).of_eq ?_
      simp [State.finish, hpc, hstack]
    | cons frame rest =>
      obtain rfl : _ = t := by simpa [hstack] using h
      refine (Move.pop (core_pc_of_eq hpc) hstack).of_eq ?_
      simp [hpc]
  case h_2 site received hpc =>
    cases hcommands : s.commands with
    | nil =>
      obtain rfl : _ = t := by simpa [hcommands] using h
      refine (Move.received (core_pc_of_eq hpc) hcommands).of_eq ?_
      simp [hpc, hcommands]
    | cons command rest =>
      obtain rfl : _ = t := by simpa [hcommands] using h
      refine (Move.receive (core_pc_of_eq hpc) hcommands).of_eq ?_
      simp [hpc]
  case h_3 site hpc =>
    obtain rfl := some.inj h
    exact resumeSite_move hpc
  case h_4 site command rest hpc =>
    obtain rfl := some.inj h
    exact handleCommand_move hpc
  case h_5 frame hpc =>
    by_cases hpaused : s.paused = true
    · obtain rfl : _ = t := by simpa [hpaused] using h
      refine (Move.wait (core_pc_of_eq hpc) hpaused).of_eq ?_
      simp [hpc, hpaused]
    · obtain rfl : _ = t := by simpa [hpaused] using h
      exact startStep_move hpc (Bool.eq_false_iff.mpr hpaused)
  case h_6 next hpc =>
    obtain rfl := some.inj h
    refine Move.stutter.of_eq ?_
    cases next <;> simp [hpc]
  case h_7 entry todo next hpc =>
    by_cases hcall : entry.isCall = true
    · simp [hcall] at h
    · obtain rfl : _ = t := by simpa [hcall] using h
      refine Move.stutter.of_eq ?_
      simp [hpc]
  case h_8 a hpc =>
    obtain rfl := some.inj h
    refine (Move.setPrefix (core_pc_of_eq hpc)).of_eq ?_
    simp [hpc]
  case h_9 a channel hpc =>
    obtain rfl := some.inj h
    refine (Move.setCancel (core_pc_of_eq hpc)).of_eq ?_
    simp [hpc]
  case h_10 a channel hpc =>
    by_cases hcancel : s.cancelPrefix = some a.currentPrefix
    · obtain rfl : _ = t := by simpa [hcancel] using h
      refine (Move.cancelBefore (core_pc_of_eq hpc) hcancel).of_eq ?_
      simp [storePending, hpc]
    · obtain rfl : _ = t := by simpa [hcancel] using h
      refine (Move.execute (core_pc_of_eq hpc) hcancel).of_eq ?_
      simp [hpc]
  case h_11 a task hpc =>
    obtain rfl := some.inj h
    refine (Move.clearCancel (core_pc_of_eq hpc)).of_eq ?_
    simp [hpc]
  case h_12 a task hpc =>
    obtain rfl := some.inj h
    cases task with
    | none =>
      refine (Move.clearedParked (core_pc_of_eq hpc)).of_eq ?_
      simp [hpc]
    | some task =>
      refine (Move.cleared (core_pc_of_eq hpc)).of_eq ?_
      simp [hpc]
  case h_13 a hpc =>
    obtain rfl := some.inj h
    refine (Move.parked (core_pc_of_eq hpc)).of_eq ?_
    simp [hpc]
  case h_14 back fresh hpc =>
    obtain rfl := some.inj h
    refine (Move.push (core_pc_of_eq hpc)).of_eq ?_
    simp [hpc]
  case h_15 a task disposition hpc =>
    obtain rfl := some.inj h
    exact settle_move hpc
  case h_16 site rest summary hpc =>
    obtain rfl := some.inj h
    refine (Move.reported (core_pc_of_eq hpc)).of_eq ?_
    simp [hpc]
  case h_17 report todo site rest summary hpc =>
    by_cases hcall : report.entry.isCall = true
    · simp [hcall] at h
    · obtain rfl : _ = t := by simpa [hcall] using h
      refine (Move.report (core_pc_of_eq hpc)).of_eq ?_
      simp [hpc]
  all_goals simp at h

theorem ack_move {result : Except String Unit} (h : s.ack result = some t) :
    Move rt s.core t.core := by
  unfold State.ack at h
  split at h
  case h_1 call todo next hpc =>
    cases result with
    | ok =>
      obtain rfl := some.inj h
      refine Move.stutter.of_eq ?_
      simp [hpc]
    | error err =>
      obtain rfl := some.inj h
      refine (Move.fail err [] (s.log ++ [.call call]) (by simp) ?_ ?_).of_eq ?_
      · simp [hpc]
      · rw [core_pc_of_eq hpc]
        exact next.pc_ne_finished
      · cases next <;> simp [State.finish, hpc, Pc.inHand, Next.inHand]
  case h_2 report todo site rest summary hpc =>
    by_cases hcall : report.entry.isCall = true
    · cases result with
      | ok =>
        obtain rfl : _ = t := by simpa [hcall] using h
        refine (Move.report (core_pc_of_eq hpc)).of_eq ?_
        simp [hpc]
      | error err =>
        obtain rfl : _ = t := by simpa [hcall] using h
        refine (Move.reportFailed s!"Failed to rerun verifier: {err}" (core_pc_of_eq hpc)).of_eq ?_
        simp [hpc]
    · simp [hcall] at h
  case h_3 => simp at h

theorem verify_core (summary : TaskSummary) (hpc : s.pc = .summarizing a task context) :
    (s.verify rt a task summary).core =
      if a.step.requiresVerification then
        let context := verificationContext rt a task (markSummary summary .pending)
        { s.core.goto (.verifying a task context) (verifierStart context) with
          verification := some context }
      else s.core.goto (.settle a task (.success (markSummary summary .passed)))
        ((passReports (markSummary summary .passed)).map Report.entry) := by
  cases hr : a.step.requiresVerification <;>
    simp [verify, verifierStart, hr, hpc, verificationContext]

theorem summarized_move (hpc : s.pc = .summarizing a task context) :
    Move rt s.core (s.summarized rt a task context result).core := by
  have hc : s.core.pc = .summarizing a task context := core_pc_of_eq hpc
  unfold summarized
  rcases hresult : summarizerResult rt context result with ⟨entries, message | summary⟩
  · refine (Move.summarizerFailed hc hresult).of_eq ?_
    simp [hpc]
  · simp only
    rw [verify_core _ (by simpa using hpc)]
    cases hr : a.step.requiresVerification with
    | true =>
      refine (Move.summarized hc hr hresult rfl).of_eq ?_
      simp [hpc]
    | false =>
      refine (Move.summarizedPass hc hr hresult rfl).of_eq ?_
      simp [hpc]

theorem subAgentDone_move (h : s.subAgentDone rt result = some t) :
    Move rt s.core t.core := by
  unfold subAgentDone at h
  split at h
  case h_1 a channel hpc =>
    cases result with
    | error err =>
      obtain rfl := some.inj h
      refine (Move.fail err [.ran .implementor a.currentPrefix (.error err)] _ (by simp)
        (prefix_refl _) ?_).of_eq ?_
      · rw [core_pc_of_eq hpc]
        simp
      · simp [State.finish, hpc, Pc.inHand]
    | ok task =>
      obtain rfl := some.inj h
      refine (Move.executed task (core_pc_of_eq hpc)).of_eq ?_
      simp [hpc]
  case h_2 a task context hpc =>
    obtain rfl := some.inj h
    exact summarized_move hpc
  case h_3 a task context hpc =>
    obtain rfl := some.inj h
    rcases hresult : verifierResult rt context result with ⟨entries, payload⟩
    refine (Move.verified (core_pc_of_eq hpc) hresult rfl).of_eq ?_
    simp [verified, hresult, hpc]
  case h_4 site rest context hpc =>
    obtain rfl := some.inj h
    rcases hresult : verifierResult rt context result with ⟨entries, payload⟩
    rcases hreports : reconclude context.summary (verdict payload).1 (verdict payload).2 with
      ⟨summary, reports⟩
    refine (Move.reverified (core_pc_of_eq hpc) hresult hreports).of_eq ?_
    simp [reverified, hresult, hreports, hpc]
  case h_5 => simp at h

theorem control_move {i : ℕ} (h : s.control i = some t) : Move rt s.core t.core := by
  unfold State.control at h
  split at h
  case h_1 => simp at h
  case h_2 method hcall =>
    obtain rfl := some.inj h
    exact Move.control (.returned hcall)
  case h_3 method op rest hcall =>
    obtain rfl := some.inj h
    cases op with
    | storePaused b => exact Move.control (.storePaused hcall)
    | storeAborted => exact Move.control (.storeAborted hcall)
    | matchPrefix p => exact Move.control (.matchPrefix hcall)
    | readCancel =>
      refine (Move.control (.readCancel hcall)).of_eq ?_
      cases hcancel : s.sharedCancel <;> simp [hcancel]
    | signal channel => exact Move.control (.signal hcall)
    | send command => exact Move.control (.send hcall)

/-- Every step of a run is a move of the run loop, or of a control call. -/
theorem step_move {action : Action} (h : step rt s action = some t) : Move rt s.core t.core := by
  cases action with
  | tick => exact tick_move h
  | ack result => exact ack_move h
  | subAgentDone result => exact subAgentDone_move h
  | call method =>
    obtain rfl := some.inj h
    exact Move.control (.call method)
  | control i => exact control_move h

end ColossalCode.Orchestrator
