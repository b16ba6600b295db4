import ColossalCode.Orchestrator.Calls
import ColossalCode.Orchestrator.Drive
import ColossalCode.Orchestrator.Rank

/-! Aborting and pausing a run. What a control call has stored, read or sent when it returns decides
what the run can still do; an abort also bounds how long it goes on. -/
namespace ColossalCode.Orchestrator
open List Option State

open Protocol Transition

def Action.resumes : Action → Bool
  | .call method => method.resumes
  | _ => false

/-- An agent or a decoder fails, which ends the run. -/
def State.Fails (rt : Runtime) (s : State) : Action → Prop
  | .subAgentDone (.error _) => ∃ a channel, s.pc = .executing a channel
  | .ack (.error _) => ∃ todo next, s.pc = .perform todo next
  | .tick =>
    match s.pc with
    | .handle (.afterExecute a task) [] => s.cancelPrefix ≠ some a.currentPrefix ∧
        ((task.status.state = .submitted ∧ ∃ err, extractSubSpec rt task = .error err) ∨
          (Finishes rt task ∧ ∃ err, extractSummary rt task = .error err))
    | .settle _ task (.success summary) =>
      (∃ err, extractSubSpec rt task = .error err) ∨ ∃ err, rt.valueOfSummary summary = .error err
    | .settle _ _ (.fail summary) => ∃ err, rt.valueOfSummary summary = .error err
    | _ => False
  | _ => False

/-- An execution starts, or the loop is left, while no `Abort` or `Pause` waits in the queue, and
an execution starts before any call of `abort` has missed its cancel channel. No agent fails while
an `Abort` is on its way, and calls that resume a run do not overlap with calls of `pause`. -/
structure Heeded (rt : Runtime) (s : State) (action : Action) : Prop where
  start : action = .tick → ∀ a channel, s.pc = .cancelCheck a channel →
    s.cancelPrefix ≠ some a.currentPrefix →
      .abort ∉ s.commands ∧ .pause ∉ s.commands ∧
        ∀ call ∈ s.calls, call.method = .abort →
          .readCancel ∈ call.ops ∨ .signal channel ∈ call.ops ∨ channel ∈ s.signals
  leave : action = .tick → s.Leaves → .abort ∉ s.commands
  no_failure : .abort ∈ s.pc.commands ++ s.commands → ¬ s.Fails rt action
  no_overlap : ∀ call ∈ s.calls, call.method = .pause →
    ∀ other ∈ s.calls, other.method.resumes = false

/-- What follows once `abort` has returned in the state `u`: no step starts, the one in flight has
its signal, and the run ends with `Aborted` and without `Completed`, after a bounded number of
steps of its own, none of which it has to wait for a call to take. -/
structure Stopped (rt : Runtime) (u : State) (actions : List Action) (t : State) : Prop where
  no_start : t.executed = u.executed
  signalled : ∀ a channel, u.pc = .executing a channel → channel ∈ u.signals
  not_completed : .event .completed ∉ t.log
  aborted : ¬ t.Running → .event .aborted ∈ t.log
  bounded : actions.countP (·.isOwn) ≤ u.rank + 9 * actions.countP (!·.isOwn)
  enabled : t.Running → ∃ action v, action.isOwn = true ∧ step rt t action = some v

variable {rt : Runtime} {spec : SpecSheet} {s t u : State} {c d : Core}
  {action : Action} {method : ControlMethod} {command : OrchestratorCommand}

section Moves

attribute [local simp] Core.goto

/-- The implementor steps that were started, with those that reports under way would start. -/
def Core.executions (c : Core) : List (String × SpecStep) := c.trace.filterMap Entry.execution

theorem executions_append {entries : List Entry} (ht : d.trace = c.trace ++ entries)
    (h : ∀ e ∈ entries, e.execution = none) : d.executions <+: c.executions := by
  rw [Core.executions, ht, filterMap_append, filterMap_eq_nil_iff.mpr h, append_nil]
  exact prefix_refl _

theorem executions_move (hm : Move rt c d) :
    d.executions <+: c.executions ∨ ∃ a channel, c.pc = .cancelCheck a channel ∧
      d.pc = .executing a channel ∧ c.shared.cancelPrefix ≠ some a.currentPrefix := by
  cases hm with
  | execute hpc hcancel => exact .inr ⟨_, _, hpc, rfl, hcancel⟩
  | fail err ran trace hran htrace =>
    refine .inl ((htrace.filterMap Entry.execution).trans ?_)
    have hnone : ∀ e ∈ ran, e.execution = none := by
      intro e he
      obtain ⟨p, result, rfl⟩ := hran e he
      rfl
    simp [Core.executions, filterMap_append, filterMap_eq_nil_iff.mpr hnone]
  | stutter | control | pop => exact .inl (prefix_refl _)
  | ignore hpc htakes => cases htakes <;> exact .inl (executions_append rfl (by simp))
  | summarizerFailed hpc hresult | summarized hpc _ hresult | summarizedPass hpc _ hresult =>
    have hentries := (summarizer_report hresult).execution
    refine .inl (executions_append rfl ?_)
    simpa [verifierStart, or_imp, forall_and] using hentries
  | verified hpc hresult | reverified hpc hresult =>
    have hentries := (verifier_report hresult).execution
    refine .inl (executions_append rfl ?_)
    simpa [or_imp, forall_and] using hentries
  | _ => exact .inl (executions_append rfl (by simp [announce]))

end Moves

theorem check_step {a : Active} {channel : ℕ} (h : step rt s action = some t)
    (hs : s.core.pc = .cancelCheck a channel) (ht : t.core.pc = .executing a channel) :
    action = .tick ∧ s.pc = .cancelCheck a channel := by
  have hpc : s.pc = .cancelCheck a channel :=
    pc_of_core_pc hs fun next => by cases next <;> simp [Next.pc]
  refine ⟨step_eq_tick h ?_ fun he => ?_, hpc⟩
  · simp only [tick, hpc]
    split <;> simp
  · simp [core, he, hpc, Pc.after] at ht

/-- Reports under way start no execution, and only the last check before an execution does. -/
theorem executed_step (h : step rt s action = some t) (hs : s.core.executions = s.executed) :
    t.core.executions = t.executed ∧ (t.executed = s.executed ∨
      action = .tick ∧ ∃ a channel, s.pc = .cancelCheck a channel ∧
        s.cancelPrefix ≠ some a.currentPrefix) := by
  have hlog : s.executed <+: t.executed := (step_log h).filterMap _
  have htrace : t.executed <+: t.core.executions := (prefix_append t.log _).filterMap _
  rcases executions_move (step_move h) with hle | ⟨a, channel, hpc, hd, hcancel⟩
  · rw [hs] at hle
    have hsame : t.core.executions.length ≤ t.executed.length := hle.length_le.trans hlog.length_le
    have hback : t.executed.length ≤ s.executed.length := htrace.length_le.trans hle.length_le
    exact ⟨(htrace.eq_of_length_le hsame).symm, .inl (hlog.eq_of_length_le hback).symm⟩
  · obtain ⟨htick, hpc⟩ := check_step h hpc hd
    have htodo : t.pc.todo = [] := by
      have htpc : t.pc = .executing a channel :=
        pc_of_core_pc hd fun next => by cases next <;> simp [Next.pc]
      simp [htpc, Pc.todo]
    refine ⟨?_, .inr ⟨htick, a, channel, hpc, hcancel⟩⟩
    simp [Core.executions, executed, core, htodo]

section Errors

variable {err : String} {held : Option Frame} {a : Active} {task : Task}

attribute [local simp] goto State.finish output State.done storePending Next.pc

theorem finishTask_error (h : (s.finishTask rt a task).pc = .finished (.error err) held) :
    ∃ err, extractSummary rt task = .error err := by
  unfold finishTask at h
  split at h
  · exact ⟨_, by assumption⟩
  · unfold verify at h
    split at h
    · simp at h
    · simp at h

theorem decideTask_error (hpc : s.pc = .handle (.afterExecute a task) [])
    (h : (s.decideTask rt a task).pc = .finished (.error err) held) : s.Fails rt .tick := by
  simp only [State.Fails, hpc]
  unfold decideTask at h
  split at h
  · simp at h
  · rename_i hcancel
    refine ⟨hcancel, ?_⟩
    split at h
    · simp at h
    · rename_i hstate
      split at h
      · exact .inl ⟨hstate, _, by assumption⟩
      · rename_i hchild
        exact .inr ⟨⟨by simp [hstate], by simp [hstate], fun _ => hchild⟩, finishTask_error h⟩
      · simp at h
    · simp [failStep] at h
    · rename_i hcancelled hsubmitted hfailed
      exact .inr ⟨⟨hcancelled, hfailed, fun hstate => absurd hstate hsubmitted⟩,
        finishTask_error h⟩

theorem settle_error {disposition : StepDisposition} (hpc : s.pc = .settle a task disposition)
    (h : (s.settle rt a task disposition).pc = .finished (.error err) held) :
    s.Fails rt .tick := by
  unfold settle at h
  split at h
  · simp at h
  · simp only [State.Fails, hpc]
    split at h
    · exact .inl ⟨_, by assumption⟩
    · split at h
      · exact .inr ⟨_, by assumption⟩
      · simp at h
  · simp only [State.Fails, hpc]
    split at h
    · exact ⟨_, by assumption⟩
    · simp at h

theorem handleCommand_no_error (site : Site) (rest : List OrchestratorCommand)
    (command : OrchestratorCommand) :
    (s.handleCommand site rest command).pc ≠ .finished (.error err) held := by
  unfold handleCommand
  cases command with
  | rerunVerifiers => cases hv : s.lastVerification <;> simp [hv]
  | _ => simp [injectSplit]

/-- A run ends in an error only where an agent or a decoder fails. -/
theorem fails_of_error (h : step rt s action = some t) (hs : s.Running)
    (ht : t.pc = .finished (.error err) held) : s.Fails rt action := by
  cases action with
  | tick =>
    simp only [step, tick] at h
    split at h
    case h_3 site hpc =>
      obtain rfl := some.inj h
      cases site with
      | afterExecute a task => exact decideTask_error hpc ht
      | _ => simp [resumeSite] at ht
    case h_4 =>
      obtain rfl := some.inj h
      exact absurd ht (handleCommand_no_error _ _ _)
    case h_5 =>
      split at h
      · obtain rfl := some.inj h
        simp at ht
      · obtain rfl := some.inj h
        unfold startStep at ht
        split at ht <;> simp at ht
    case h_6 todo next hpc =>
      obtain rfl := some.inj h
      exact absurd ht (next.pc_ne_finished _ _)
    case h_15 hpc =>
      obtain rfl := some.inj h
      exact settle_error hpc ht
    all_goals
      (try split at h) <;> simp at h <;> subst h <;> simp at ht
  | ack result =>
    simp only [step, State.ack] at h
    split at h
    · rename_i hpc
      cases result with
      | error err => exact ⟨_, _, hpc⟩
      | ok =>
        obtain rfl := some.inj h
        simp at ht
    · split at h
      · cases result <;> obtain rfl := some.inj h <;> simp at ht
      · simp at h
    · simp at h
  | subAgentDone result =>
    simp only [step, subAgentDone] at h
    split at h
    · rename_i a channel hpc
      cases result with
      | error err => exact ⟨a, channel, hpc⟩
      | ok task =>
        obtain rfl := some.inj h
        simp at ht
    · obtain rfl := some.inj h
      unfold summarized at ht
      simp only at ht
      split at ht
      · simp at ht
      · unfold verify at ht
        split at ht <;> simp at ht
    · obtain rfl := some.inj h
      simp [verified] at ht
    · obtain rfl := some.inj h
      simp [reverified] at ht
    · simp at h
  | call method =>
    obtain rfl := some.inj h
    exact absurd ht (hs _ _)
  | control i =>
    obtain ⟨_, _, _, _, _, rfl⟩ := control_eq h
    exact absurd ht (hs _ _)

end Errors

/-- An `Abort` is on its way, or the run has returned after taking it. -/
def Core.Stopping (c : Core) : Prop :=
  (.abort ∈ c.queue ∧ ¬ c.Finished) ∨
    ∃ held, c.pc = .finished (.ok ()) (some held) ∧ .event .aborted ∈ c.trace

theorem stopping_move (hm : Move rt c d) (hleave : Core.Leaving c d → .abort ∉ c.shared.commands)
    (hfail : .abort ∈ c.queue → ∀ err held, d.pc = .finished (.error err) held → c.Finished)
    (hc : c.Stopping) : d.Stopping := by
  rcases hc with ⟨hqueue, hrun⟩ | ⟨held, hpc, hlog⟩
  · by_cases hd : d.Finished
    · obtain ⟨result, held, hd⟩ := hd
      cases hm with
      | stutter | control => exact absurd ⟨result, held, hd⟩ hrun
      | complete hpc hstack =>
        have hcommands := hleave ⟨hpc, hstack, rfl⟩
        exact absurd (by simpa [Core.queue, hpc, Pc.commands] using hqueue) hcommands
      | abort hpc => exact .inr ⟨_, rfl, by simp [Core.goto]⟩
      | fail => exact absurd (hfail hqueue _ _ rfl) hrun
      | _ => simp [Core.goto] at hd
    · rcases queue_move hm hqueue with hqueue | hfinished
      · exact .inl ⟨hqueue, hd⟩
      · exact absurd hfinished hd
  · obtain ⟨shared, rfl⟩ := hm.of_finished hpc
    exact .inr ⟨held, hpc, hlog⟩

theorem core_queue : s.core.queue = s.pc.commands ++ s.commands := by
  cases hpc : s.pc with
  | perform todo next =>
    have hnext := next.pc_commands
    simp [Core.queue, core, shared, hpc, Pc.after, hnext]
    rfl
  | _ => simp [Core.queue, core, shared, hpc, Pc.after, Pc.commands]

theorem heard_step (h : step rt s action = some t) (hok : Heeded rt s action)
    (hs : s.core.Heard) : t.core.Heard := by
  refine heard_move (step_move h) (fun a channel hpc hd => ?_) hok.no_overlap hs
  obtain ⟨htick, hpc'⟩ := check_step h hpc hd
  rcases executing_move (step_move h) hd with hexecuting | ⟨-, hcancel⟩
  · simp [hpc] at hexecuting
  · exact (hok.start htick a channel hpc' hcancel).2.2

theorem stopping_step (h : step rt s action = some t) (hok : Heeded rt s action)
    (hs : s.core.Stopping) : t.core.Stopping := by
  refine stopping_move (step_move h) (fun hl => ?_) (fun hqueue err held hd => ?_) hs
  · obtain ⟨htick, hleaves⟩ := leaving_step h hl
    exact hok.leave htick hleaves
  · by_contra hrun
    have hs : s.Running := fun result held hpc => hrun ⟨result, held, core_pc_of_eq hpc⟩
    have hpc := pc_of_core_pc hd fun next => next.pc_ne_finished _ _
    rw [core_queue] at hqueue
    exact hok.no_failure hqueue (fails_of_error h hs hpc)

/-- With an `Abort` on its way no step starts. -/
theorem stopping_executed (h : step rt s action = some t) (hok : Heeded rt s action)
    (hs : s.core.Stopping) (he : s.core.executions = s.executed) : t.executed = s.executed := by
  rcases (executed_step h he).2 with hsame | ⟨htick, a, channel, hpc, hcancel⟩
  · exact hsame
  · have hnone := (hok.start htick a channel hpc hcancel).1
    rcases hs with ⟨hqueue, -⟩ | ⟨held, hfinished, -⟩
    · rw [core_queue] at hqueue
      exact absurd (by simpa [hpc, Pc.commands] using hqueue) hnone
    · simp [core_pc_of_eq hpc, Pc.after] at hfinished

theorem running_of_stopping (hs : s.core.Stopping) (hrun : s.Running) :
    .abort ∈ s.pc.commands ++ s.commands := by
  rcases hs with ⟨hqueue, -⟩ | ⟨held, hfinished, -⟩
  · rwa [core_queue] at hqueue
  · exact absurd (pc_of_core_pc hfinished fun next => next.pc_ne_finished _ _) (hrun _ _)

variable {actions : List Action}

theorem no_own_steps (hs : ¬ s.Running)
    (h : Steps (step rt) (Heeded rt) s actions t) : actions.countP (·.isOwn) = 0 := by
  induction h with
  | refl => rfl
  | head hok hstep hsteps ih =>
    have hown := no_own_step hs hstep
    have hrest := ih fun hrun => hs (running_of_step hstep hrun)
    simp [hown, hrest]

theorem stopping_bounded (h : Steps (step rt) (Heeded rt) s actions t) (hs : s.core.Stopping) :
    actions.countP (·.isOwn) ≤ s.rank + 9 * actions.countP (!·.isOwn) := by
  induction h with
  | refl => simp
  | @head s u t action actions hok hstep hsteps ih =>
    have hu := ih (stopping_step hstep hok hs)
    cases hown : action.isOwn with
    | false =>
      have hrank := other_rank hstep hown
      simp only [countP_cons, hown]
      simp
      omega
    | true =>
      have hrun : s.Running := by
        by_contra hrun
        simp [no_own_step hrun hstep] at hown
      have habort := running_of_stopping hs hrun
      simp only [countP_cons, hown]
      by_cases hrun' : u.Running
      · have hrank := own_rank hstep hown habort hrun'
        simp
        omega
      · have hrest := no_own_steps hrun' hsteps
        have hpos := rank_pos s
        simp [hrest]
        omega

/-- What holds in every state of a run whose steps meet the condition. -/
structure State.Attentive (s : State) : Prop where
  heard : s.core.Heard
  left : s.core.Left fun _ => True
  executed : s.core.executions = s.executed

theorem attentive_step (h : step rt s action = some t) (hok : Heeded rt s action)
    (hs : s.Attentive) : t.Attentive where
  heard := heard_step h hok hs.heard
  left := left_move (step_move h) (fun _ => trivial) hs.left
  executed := (executed_step h hs.executed).1

theorem attentive_init : (init spec).Attentive where
  heard := by
    constructor <;> simp [core, shared, init, Shared.Formed, Shared.Sends,
      Core.Published, Pc.after]
  left := left_init _
  executed := rfl

theorem not_completed_of_stopping (hs : s.core.Stopping) (hleft : s.core.Left fun _ => True) :
    .event .completed ∉ s.log := by
  intro hlog
  obtain ⟨hpc, -, -⟩ := hleft (mem_append_left _ hlog)
  rcases hs with ⟨-, hrun⟩ | ⟨held, hfinished, -⟩
  · exact hrun ⟨_, _, hpc⟩
  · simp [hpc] at hfinished

theorem aborted_of_stopping (hs : s.core.Stopping) (hrun : ¬ s.Running) :
    .event .aborted ∈ s.log := by
  obtain ⟨result, held, hpc⟩ := finished_of_not_running hrun
  rcases hs with ⟨-, hrun⟩ | ⟨held, -, hlog⟩
  · exact absurd ⟨result, held, core_pc_of_eq hpc⟩ hrun
  · simpa [core, hpc, Pc.todo] using hlog

theorem returned_eq {i : ℕ} (hcall : s.calls[i]? = some ⟨method, []⟩)
    (hu : step rt s (.control i) = some u) : { s with calls := s.calls.eraseIdx i } = u := by
  simpa [step, State.control, hcall] using hu

/-- `abort` returns: an `Abort` is on its way, and the step in flight has its signal. -/
theorem stopping_of_returned {i : ℕ} (hs : s.core.Heard) (hrun : s.Running)
    (hcall : s.calls[i]? = some ⟨.abort, []⟩) (hu : step rt s (.control i) = some u) :
    u.core.Stopping ∧ ∀ a channel, u.pc = .executing a channel → channel ∈ u.signals := by
  have hmem := mem_of_getElem? hcall
  obtain rfl := returned_eq hcall hu
  have hunfinished : ¬ s.core.Finished := by
    rintro ⟨result, held, hpc⟩
    exact hrun result held (pc_of_core_pc hpc fun next => next.pc_ne_finished _ _)
  constructor
  · rcases hs.sent _ hmem rfl with hsend | hqueue | hfinished
    · simp at hsend
    · exact .inl ⟨hqueue, hunfinished⟩
    · exact absurd hfinished hunfinished
  · intro a channel hpc
    rcases hs.signalled _ hmem rfl a channel (core_pc_of_eq hpc) with hread | hsignal | hsent
    · simp at hread
    · simp at hsignal
    · exact hsent

theorem pausing_of_returned {i : ℕ} (hs : s.core.Heard) (hrun : s.Running)
    (hcall : s.calls[i]? = some ⟨.pause, []⟩) (hu : step rt s (.control i) = some u) :
    u.core.Pausing := by
  have hmem := mem_of_getElem? hcall
  obtain rfl := returned_eq hcall hu
  rcases hs.paused _ hmem rfl with hsend | hpausing | ⟨result, held, hpc⟩
  · simp at hsend
  · exact ⟨hpausing.heeded, hpausing.starting⟩
  · exact absurd (pc_of_core_pc hpc fun next => next.pc_ne_finished _ _) (hrun _ _)

theorem controlOp_calls (rest : List ControlOp) (op : ControlOp) :
    (s.controlOp rest op).1.calls = s.calls := by
  cases op with
  | readCancel => cases hcancel : s.sharedCancel <;> simp [controlOp, hcancel]
  | _ => rfl

/-- A call that resumes the run is in progress only if it was made. -/
theorem resumes_step (h : step rt s action = some t) (haction : action.resumes = false)
    (hs : ∀ call ∈ s.calls, call.method.resumes = false) :
    ∀ call ∈ t.calls, call.method.resumes = false := by
  cases action with
  | call method =>
    obtain rfl := some.inj h
    intro call hcall
    rcases mem_append.mp hcall with hcall | hcall
    · exact hs call hcall
    · obtain rfl := mem_singleton.mp hcall
      exact haction
  | control i =>
    simp only [step, State.control] at h
    split at h
    · simp at h
    · obtain rfl := some.inj h
      exact fun call hcall => hs call (mem_of_mem_eraseIdx hcall)
    · rename_i method op rest hi
      obtain rfl := some.inj h
      intro call hcall
      simp only [controlOp_calls] at hcall
      rcases mem_or_eq_of_mem_set hcall with hcall | rfl
      · exact hs call hcall
      · exact hs ⟨method, op :: rest⟩ (mem_of_getElem? hi)
  | tick | ack | subAgentDone =>
    rw [own_calls h rfl]
    exact hs

theorem stopped_of_stopping (hu : u.Attentive) (hstopping : u.core.Stopping)
    (hsignalled : ∀ a channel, u.pc = .executing a channel → channel ∈ u.signals)
    (hsteps : Steps (step rt) (Heeded rt) u actions t) : Stopped rt u actions t := by
  obtain ⟨ht, hstopping', hexecuted⟩ :
      t.Attentive ∧ t.core.Stopping ∧ t.executed = u.executed := by
    refine hsteps.invariant (P := fun v => v.Attentive ∧ v.core.Stopping ∧ v.executed = u.executed)
      ?_ ⟨hu, hstopping, rfl⟩
    rintro v action w hok hstep ⟨hv, hstopping, hexecuted⟩
    refine ⟨attentive_step hstep hok hv, stopping_step hstep hok hstopping, ?_⟩
    rw [stopping_executed hstep hok hstopping hv.executed, hexecuted]
  exact {
    no_start := hexecuted
    signalled := hsignalled
    not_completed := not_completed_of_stopping hstopping' ht.left
    aborted := aborted_of_stopping hstopping'
    bounded := stopping_bounded hsteps hstopping
    enabled := own_enabled }

/-- While a run stays paused no step starts. -/
theorem pausing_step (h : step rt s action = some t) (hok : Heeded rt s action) (hs : s.Attentive)
    (hcalls : ∀ call ∈ s.calls, call.method.resumes = false)
    (hpausing : s.core.Pausing ∨ s.core.Finished) :
    (t.core.Pausing ∨ t.core.Finished) ∧ t.executed = s.executed := by
  constructor
  · rcases hpausing with hpausing | ⟨result, held, hpc⟩
    · exact pausing_move (step_move h) hs.heard.formed hcalls hpausing
    · obtain ⟨shared, he⟩ := (step_move h).of_finished hpc
      rw [he]
      exact .inr ⟨result, held, hpc⟩
  · rcases (executed_step h hs.executed).2 with hsame | ⟨htick, a, channel, hpc, hcancel⟩
    · exact hsame
    · have hnone := (hok.start htick a channel hpc hcancel).2.1
      have hcheck : s.core.pc = .cancelCheck a channel := core_pc_of_eq hpc
      rcases hpausing with hpausing | ⟨result, held, hfinished⟩
      · exact absurd (hpausing.starting (by simp [hcheck, Pc.starting])) hnone
      · simp [hcheck] at hfinished

/-- When `abort` returns the run stops, and when `pause` returns no step starts until a call resumes
the run. -/
theorem abort_and_pause_heeded {before after : List Action} {i : ℕ}
    (hsteps : Steps (step rt) (Heeded rt) (.init spec) (before ++ .control i :: after) t)
    (hs : run rt (.init spec) before = some s) (hrun : s.Running)
    (hcall : s.calls[i]? = some ⟨method, []⟩) (hu : step rt s (.control i) = some u) :
    (method = .abort → Stopped rt u after t) ∧
      (method = .pause → (∀ action ∈ after, action.resumes = false) → t.executed = u.executed) := by
  obtain ⟨s', hbefore, hafter⟩ := hsteps.split
  obtain rfl : s' = s := some.inj (hbefore.run_eq.symm.trans hs)
  have hattentive := hbefore.invariant (P := State.Attentive)
    (fun _ _ _ hok hstep hv => attentive_step hstep hok hv) attentive_init
  cases hafter with
  | head hok hstep hpost =>
    obtain rfl := some.inj (hu.symm.trans hstep)
    have hu' := attentive_step hstep hok hattentive
    constructor
    · rintro rfl
      obtain ⟨hstopping, hsignalled⟩ := stopping_of_returned hattentive.heard hrun hcall hu
      exact stopped_of_stopping hu' hstopping hsignalled hpost
    · rintro rfl hresumes
      have hcalls := resumes_step hstep rfl (hok.no_overlap _ (mem_of_getElem? hcall) rfl)
      have hpausing := pausing_of_returned hattentive.heard hrun hcall hu
      refine ((hpost.and_mem hresumes).invariant (P := fun v => v.Attentive ∧
        (∀ call ∈ v.calls, call.method.resumes = false) ∧ (v.core.Pausing ∨ v.core.Finished) ∧
          v.executed = u.executed) ?_ ⟨hu', hcalls, .inl hpausing, rfl⟩).2.2.2
      rintro v action w ⟨hok, haction⟩ hstep ⟨hv, hcalls, hpausing, hexecuted⟩
      obtain ⟨hpausing', hsame⟩ := pausing_step hstep hok hv hcalls hpausing
      exact ⟨attentive_step hstep hok hv, resumes_step hstep haction hcalls, hpausing',
        hsame.trans hexecuted⟩

/-- A test for the condition: no `pause`, no failing agent, and nothing queued where it matters. -/
def heededTest (s : State) (action : Action) : Bool :=
  (match s.pc, action with
    | .cancelCheck .., _ => s.calls.isEmpty && s.commands.isEmpty
    | .loopHead, _ => s.commands.isEmpty
    | .handle (.afterExecute ..) [], _ | .settle .., _ => false
    | _, .subAgentDone (.error _) | _, .ack (.error _) => false
    | _, _ => true) &&
  s.calls.all fun call => match call.method with
    | .pause => false
    | _ => true

theorem heeded_of_test (h : heededTest s action = true) : Heeded rt s action := by
  simp only [heededTest, Bool.and_eq_true, List.all_eq_true] at h
  obtain ⟨hpc, hcalls⟩ := h
  constructor
  · intro htick a channel hcheck hcancel
    simp_all
  · intro htick hleaves
    obtain ⟨hhead, -⟩ := hleaves
    simp_all
  · intro habort hfails
    cases action with
    | tick =>
      simp only [State.Fails] at hfails
      split at hfails <;> simp_all
    | ack result | subAgentDone result =>
      cases result with
      | ok => exact hfails
      | error err =>
        obtain ⟨_, _, hfails⟩ := hfails
        simp [hfails] at hpc
    | call | control => exact hfails
  · intro call hcall hpause
    have hmethod := hcalls call hcall
    simp [hpause] at hmethod

/-- `abort()` while the only step runs, up to where it returns. -/
def abortOnlyStep : List Action :=
  toExecution ++ [.call .abort, .control 0, .control 0, .control 0, .control 0]

/-- The cancelled task is handed back, and the run takes the command. -/
def takeAbort : List Action := [.subAgentDone (.ok (sampleTask .cancelled))] ++ ticks 5

theorem abort_heeded_only_step : ∃ s u t,
    run sampleRuntime (.init (sampleSheet "root" [sampleStep "1"])) abortOnlyStep = some s ∧
    step sampleRuntime s (.control 0) = some u ∧ run sampleRuntime u takeAbort = some t ∧
    ¬ t.Running ∧ Stopped sampleRuntime u takeAbort t := by
  obtain ⟨s, u, t, hs, hcall, hpc, hu, ht, hfinished, hall⟩ : ∃ s u t,
      run sampleRuntime (.init (sampleSheet "root" [sampleStep "1"])) abortOnlyStep = some s ∧
      s.calls[0]? = some ⟨.abort, []⟩ ∧ (∃ a channel, s.pc = .executing a channel) ∧
      step sampleRuntime s (.control 0) = some u ∧ run sampleRuntime u takeAbort = some t ∧
      (∃ held, t.pc = .finished (.ok ()) held) ∧
      check (step sampleRuntime) heededTest (.init (sampleSheet "root" [sampleStep "1"]))
        (abortOnlyStep ++ .control 0 :: takeAbort) = some t :=
    ⟨_, _, _, rfl, rfl, ⟨_, _, rfl⟩, rfl, rfl, ⟨_, rfl⟩, rfl⟩
  obtain ⟨a, channel, hpc⟩ := hpc
  obtain ⟨held, hfinished⟩ := hfinished
  have hrun : s.Running := by simp [State.Running, hpc]
  have htest : ∀ s action, heededTest s action = true → Heeded sampleRuntime s action :=
    fun _ _ h => heeded_of_test h
  have hsteps := steps_of_check hall htest
  exact ⟨s, u, t, hs, hu, ht, fun h => h _ _ hfinished,
    (abort_and_pause_heeded hsteps hs hrun hcall hu).1 rfl⟩

/-- `abort()` while the only step is verified. -/
def abortDuringVerification : List Action :=
  toExecution ++ [.subAgentDone (.ok (sampleDone "1"))] ++ ticks 6 ++
    [.subAgentDone (.ok (sampleDone "1")), .ack (.ok ())] ++ ticks 3 ++
    [.call .abort, .control 0, .control 0, .control 0]

/-- The verifier accepts the step, and the run goes on. -/
def acceptVerified : List Action :=
  [.subAgentDone (.ok (sampleVerified "verified")), .ack (.ok ()), .tick, .ack (.ok ()), .tick,
    .ack (.ok ())] ++ ticks 3 ++ [.ack (.ok ())] ++ ticks 3

theorem abort_during_verification_completes : ∃ s u t,
    run sampleRuntime
      (.init (sampleSheet "root" [{ sampleStep "1" with requiresVerification := true }]))
      abortDuringVerification = some s ∧ s.Running ∧ s.calls[0]? = some ⟨.abort, []⟩ ∧
    step sampleRuntime s (.control 0) = some u ∧ run sampleRuntime u acceptVerified = some t ∧
    .event .completed ∈ t.log ∧ ¬ Stopped sampleRuntime u acceptVerified t := by
  obtain ⟨s, u, t, hs, hpc, hcall, hu, ht, hlast⟩ : ∃ s u t,
      run sampleRuntime
        (.init (sampleSheet "root" [{ sampleStep "1" with requiresVerification := true }]))
        abortDuringVerification = some s ∧ (∃ a task context, s.pc = .verifying a task context) ∧
      s.calls[0]? = some ⟨.abort, []⟩ ∧ step sampleRuntime s (.control 0) = some u ∧
      run sampleRuntime u acceptVerified = some t ∧ t.log.getLast? = some (.event .completed) :=
    ⟨_, _, _, rfl, ⟨_, _, _, rfl⟩, rfl, rfl, rfl, rfl⟩
  obtain ⟨a, task, context, hpc⟩ := hpc
  have hcompleted := mem_of_getLast? hlast
  exact ⟨s, u, t, hs, by simp [State.Running, hpc], hcall, hu, ht, hcompleted,
    fun hstopped => hstopped.not_completed hcompleted⟩

end ColossalCode.Orchestrator