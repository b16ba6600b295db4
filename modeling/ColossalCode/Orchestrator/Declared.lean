import ColossalCode.Orchestrator.StepExecution
import ColossalCode.Orchestrator.Truthful

/-! What a run that nobody controls, with `Agent` for its implementor, makes of the sub-specs that
a spec declares. -/
namespace ColossalCode.Orchestrator
open List Option State

open Protocol Transition

variable {rt : Runtime} {spec : SpecSheet} {s t : State} {c d : Core} {action : Action}
  {actions : List Action} {p q : String}

/-- A step of the sheet at some depth has the prefix `p`, the sheet's own prefix being `q`. -/
inductive Declares : SpecSheet → String → String → Prop
  | step {sheet q step} (hstep : step ∈ sheet.steps) :
      Declares sheet q (composePrefix q step.index)
  | sub {sheet q step child p} (hstep : step ∈ sheet.steps) (hchild : step.subSpec = some child)
      (hp : Declares child (composePrefix q step.index) p) : Declares sheet q p

/-- What `Agent` returns for the step in execution: a signal reaches it only if one was sent. -/
def AgentReturns (rt : Runtime) (s : State) (action : Action) : Prop :=
  ∀ a channel result, s.pc = .executing a channel → action = .subAgentDone result →
    ∃ (x : Execution) (events : List OrchestratorEvent),
      x.executeStep rt a.step a.spec a.currentPrefix true = some (events, result) ∧
        (.signal ∈ x.arrivals → channel ∈ s.signals)

/-- A step of a run that gets no command and has `Agent` for its implementor. -/
def AgentAlone (rt : Runtime) (s : State) (action : Action) : Prop :=
  (∀ method, action ≠ .call method) ∧ AgentReturns rt s action

/-- Every step of the sheet at every depth was executed under its prefix and reported
completed under it. -/
def ExecutesDeclared (spec : SpecSheet) (s : State) : Prop :=
  ∀ p, Declares spec "" p → .executed p ∈ marks s.log ∧ .completed p ∈ marks s.log

def Site.task : Site → Option Task
  | .afterExecute _ task => some task
  | .afterPop _ | .whilePaused _ => none

/-- The task that was handed back for the step under way. -/
def Pc.task : Pc → Option Task
  | .clearCancel _ task | .clearPrefix _ task => task
  | .receive site _ | .handle site _ | .rerunning site _ _ | .reporting _ site _ _ => site.task
  | .summarizing _ task _ | .verifying _ task _ | .settle _ task _ => some task
  | _ => none

/-- A frame of the spec that a run was given. -/
def Frame.IsRoot (spec : SpecSheet) (frame : Frame) : Prop :=
  frame.framePrefix = "" ∧ frame.spec.steps.map (·.index) = spec.steps.map (·.index)

/-- A run that no control call was made of. -/
structure Core.Uncommanded (c : Core) : Prop where
  calls : c.shared.calls = []
  commands : c.shared.commands = []
  signals : c.shared.signals = []
  cancelPrefix : c.shared.cancelPrefix = none
  remaining : c.pc.commands = []

/-- Nothing is parked, and the task in hand neither parks its step nor has a spec for it. -/
structure Core.Unparked (rt : Runtime) (c : Core) : Prop where
  pending : c.pending = none
  task : ∀ task, c.pc.task = some task →
    extractSubSpec rt task = .ok none ∧ task.status.state ≠ .cancelled
  cancelling : c.pc.cancelling = none
  cancelled : ∀ p, .cancelled p ∉ marks c.trace

/-- A run stays on the steps of the spec it was given. -/
structure Core.OnRoot (spec : SpecSheet) (c : Core) : Prop where
  stack : ∀ frame ∈ c.stack, frame.IsRoot spec
  live : ∀ frame ∈ c.pc.live, frame.IsRoot spec
  executed : ∀ p, .executed p ∈ marks c.trace → p ∈ spec.steps.map (·.index)

@[simp] theorem Active.setStep_isRoot (a : Active) {step : SpecStep}
    (h : step.index = a.step.index) :
    (a.setStep step).toFrame.IsRoot spec ↔ a.toFrame.IsRoot spec := by
  have hmap : (a.setStep step).spec.steps.map (·.index) = a.spec.steps.map (·.index) := by
    have hlt : a.stepIdx < (a.spec.steps.map (·.index)).length := by simpa using a.inRange
    have hindex : a.step.index = (a.spec.steps.map (·.index))[a.stepIdx] := by simp [Active.step]
    simp only [setStep, map_set]
    rw [h, hindex, set_getElem_self]
  simp only [Frame.IsRoot, hmap]
  rfl

@[simp] theorem Active.setStatus_isRoot (a : Active) (status : StepStatus) :
    (a.setStatus status).toFrame.IsRoot spec ↔ a.toFrame.IsRoot spec := a.setStep_isRoot rfl

@[simp] theorem Active.setStatus_next_isRoot (a : Active) (status : StepStatus) :
    (a.setStatus status).next.IsRoot spec ↔ a.toFrame.IsRoot spec := a.setStatus_isRoot status

@[simp] theorem completedStep_next_isRoot (a : Active) (value : Value) :
    (completedStep a none value).next.IsRoot spec ↔ a.toFrame.IsRoot spec :=
  a.setStatus_isRoot .completed

variable {a : Active} {channel : ℕ}

/-- The steps of the root spec run under their own indices. -/
theorem Frame.IsRoot.currentPrefix_mem (h : a.toFrame.IsRoot spec) :
    a.currentPrefix ∈ spec.steps.map (·.index) := by
  rw [Active.currentPrefix, h.1, composePrefix_empty, ← h.2]
  exact mem_map_of_mem (getElem_mem a.inRange)

theorem inHand_subset_live {pc : Pc} : pc.inHand.toList ⊆ pc.live := by
  cases pc with
  | push back fresh => exact subset_append_left _ _
  | _ => exact List.Subset.refl _

/-- A run that fails marks nothing. -/
theorem mem_marks_of_fail {ran trace : List Entry} {mark : Mark}
    (hran : ∀ e ∈ ran, ∃ p result, e = .ran .implementor p result)
    (htrace : trace <+: c.trace ++ ran) (h : mark ∈ marks trace) : mark ∈ marks c.trace := by
  obtain ⟨e, he, hmark⟩ := mem_filterMap.mp h
  rcases mem_append.mp (htrace.subset he) with he | he
  · exact mem_filterMap.mpr ⟨e, he, hmark⟩
  · obtain ⟨q, result, rfl⟩ := hran e he
    simp [Entry.mark] at hmark

section Moves

attribute [local simp] Core.goto Site.held Site.task Pc.commands Pc.task Pc.live Pc.inHand
  Entry.mark verifierEvent summarizerEvent agentEvent statusEvent

theorem uncommanded_move (hm : Move rt c d) (hcalls : d.shared.calls = []) (hc : c.Uncommanded) :
    d.Uncommanded := by
  obtain ⟨hcalls', hcommands, hsignals, hcancel, hremaining⟩ := hc
  cases hm with
  | stutter => exact ⟨hcalls', hcommands, hsignals, hcancel, hremaining⟩
  | control hcontrols => cases hcontrols <;> simp_all
  | receive hpc hcommand => simp [hcommands] at hcommand
  | ignore hpc | abort hpc | rerun hpc | inject hpc | resume hpc => simp [hpc] at hremaining
  | received hpc =>
    simp only [hpc, Pc.commands] at hremaining
    exact ⟨hcalls', hcommands, hsignals, hcancel, hremaining⟩
  | reverified hpc | report hpc | reportFailed _ hpc | reported hpc =>
    simp only [hpc, Pc.commands] at hremaining
    exact ⟨hcalls', hcommands, hsignals, hcancel, hremaining⟩
  | cancelBefore hpc hcancel' | cancelAfter hpc hcancel' => simp [hcancel] at hcancel'
  | _ => exact ⟨hcalls', hcommands, hsignals, hcancel, rfl⟩

theorem unparked_move (hm : Move rt c d) (hu : c.Uncommanded)
    (htask : ∀ a channel task, c.pc = .executing a channel → d.pc = .clearCancel a (some task) →
      extractSubSpec rt task = .ok none ∧ task.status.state ≠ .cancelled)
    (hc : c.Unparked rt) : d.Unparked rt := by
  obtain ⟨hpending, htasks, hcancelling, hcancelled⟩ := hc
  have hremaining := hu.remaining
  cases hm with
  | stutter | control => exact ⟨hpending, htasks, hcancelling, hcancelled⟩
  | receive hpc hcommands => simp [hu.commands] at hcommands
  | ignore hpc | abort hpc | rerun hpc | inject hpc | resume hpc => simp [hpc] at hremaining
  | cancelBefore hpc hcancel | cancelAfter hpc hcancel => simp [hu.cancelPrefix] at hcancel
  | taskCancelled hpc hcancel hstate => exact absurd hstate (htasks _ (by simp [hpc])).2
  | parked hpc => simp [hpc, Pc.cancelling] at hcancelling
  | clearedParked hpc => simp [hpc, Pc.cancelling] at hcancelling
  | @executed a channel task hpc =>
    refine ⟨hpending, fun task' h => ?_, rfl, by simpa using hcancelled⟩
    obtain rfl : task = task' := by simpa using h
    exact htask a channel task hpc rfl
  | @clearCancel a task hpc =>
    simp only [hpc, Pc.task] at htasks
    refine ⟨hpending, htasks, ?_, by simpa using hcancelled⟩
    cases task with
    | none => simp [hpc, Pc.cancelling] at hcancelling
    | some task => rfl
  | summarizerFailed hpc hresult | summarized hpc hrequires hresult
  | summarizedPass hpc hrequires hresult =>
    simp only [hpc, Pc.task] at htasks
    exact ⟨hpending, htasks, rfl,
      by simpa [verifierStart, (summarizer_report hresult).marks_eq] using hcancelled⟩
  | verified hpc hresult | reverified hpc hresult =>
    simp only [hpc, Pc.task] at htasks
    exact ⟨hpending, htasks, rfl, by simpa [(verifier_report hresult).marks_eq] using hcancelled⟩
  | received hpc | cleared hpc | summarize hpc | pass hpc | report hpc | reportFailed _ hpc
  | reported hpc =>
    simp only [hpc, Pc.task] at htasks
    exact ⟨hpending, htasks, rfl, by simpa using hcancelled⟩
  | fail err ran trace hran htrace =>
    exact ⟨hpending, by simp, rfl, fun p h => hcancelled p (mem_marks_of_fail hran htrace h)⟩
  | _ =>
    exact ⟨hpending, by simp, rfl,
      by simpa [marks_announce, marks_completedStep, marks_rejectedStep] using hcancelled⟩

theorem onRoot_move (hm : Move rt c d) (hu : c.Uncommanded) (hp : c.Unparked rt)
    (hc : c.OnRoot spec) : d.OnRoot spec := by
  obtain ⟨hstack, hlive, hexecuted⟩ := hc
  have hremaining := hu.remaining
  cases hm with
  | stutter | control => exact ⟨hstack, hlive, hexecuted⟩
  | receive hpc hcommands => simp [hu.commands] at hcommands
  | ignore hpc | abort hpc | rerun hpc | inject hpc | resume hpc => simp [hpc] at hremaining
  | cancelBefore hpc hcancel | cancelAfter hpc hcancel => simp [hu.cancelPrefix] at hcancel
  | taskCancelled hpc hcancel hstate => exact absurd hstate (hp.task _ (by simp [hpc])).2
  | @split a task child hpc hcancel hstate hchild =>
    simp [(hp.task task (by simp [hpc])).1] at hchild
  | pop hpc hrest =>
    rw [hrest] at hstack
    simp only [forall_mem_cons] at hstack
    exact ⟨hstack.2, by simpa using hstack.1, by simpa using hexecuted⟩
  | @execute a channel hpc =>
    have ha : a.toFrame.IsRoot spec := hlive _ (by simp [hpc])
    refine ⟨hstack, by simpa using ha, fun p h => ?_⟩
    obtain h | rfl : .executed p ∈ marks c.trace ∨ p = a.currentPrefix := by simpa using h
    · exact hexecuted p h
    · exact ha.currentPrefix_mem
  | @accept a task summary child value hpc hchild =>
    rw [(hp.task task (by simp [hpc])).1] at hchild
    obtain rfl := Except.ok.inj hchild
    have ha : a.toFrame.IsRoot spec := hlive _ (by simp [hpc])
    refine ⟨hstack, fun frame h => ?_, by simpa [marks_completedStep] using hexecuted⟩
    by_cases hlt : a.stepIdx + 1 < a.spec.steps.length <;> simp [acceptedFrames, hlt] at h
    simpa [h] using ha
  | fail err ran trace hran htrace =>
    exact ⟨hstack, fun frame h => hlive _ (inHand_subset_live h),
      fun p h => hexecuted p (mem_marks_of_fail hran htrace h)⟩
  | @push back fresh hpc =>
    simp only [hpc, Pc.live, forall_mem_append] at hlive
    refine ⟨?_, by simp, by simpa using hexecuted⟩
    simp only [forall_mem_append, mem_reverse]
    exact ⟨hlive.2, hlive.1, hstack⟩
  | taskFailed hpc | start hpc | retry hpc =>
    simp [hpc] at hlive
    exact ⟨hstack, by simpa using hlive, by simpa [marks_announce] using hexecuted⟩
  | summarizerFailed hpc hresult | summarized hpc hrequires hresult
  | summarizedPass hpc hrequires hresult =>
    simp [hpc] at hlive
    exact ⟨hstack, by simpa using hlive,
      by simpa [verifierStart, (summarizer_report hresult).marks_eq] using hexecuted⟩
  | verified hpc hresult | reverified hpc hresult =>
    simp [hpc] at hlive
    exact ⟨hstack, by simpa using hlive,
      by simpa [(verifier_report hresult).marks_eq] using hexecuted⟩
  | reject hpc =>
    exact ⟨hstack, by simp, by simpa [marks_rejectedStep] using hexecuted⟩
  | complete hpc | exhausted hpc | clearedParked hpc | parked hpc =>
    exact ⟨hstack, by simp, by simpa using hexecuted⟩
  | received hpc | commandsDone hpc | wait hpc | setPrefix hpc | setCancel hpc | executed _ hpc
  | clearCancel hpc | cleared hpc | summarize hpc | pass hpc | report hpc | reportFailed _ hpc
  | reported hpc =>
    simp [hpc] at hlive
    exact ⟨hstack, by simpa using hlive, by simpa using hexecuted⟩

end Moves

/-- The inductive invariant of runs without commands and with `Agent`. -/
structure Core.Alone (rt : Runtime) (spec : SpecSheet) (c : Core) : Prop where
  uncommanded : c.Uncommanded
  unparked : c.Unparked rt
  onRoot : c.OnRoot spec

theorem executing_step {task : Task} (h : step rt s action = some t)
    (hs : s.core.pc = .executing a channel) (ht : t.core.pc = .clearCancel a (some task)) :
    s.pc = .executing a channel ∧ action = .subAgentDone (.ok task) := by
  have hpc : s.pc = .executing a channel :=
    pc_of_core_pc hs fun next => by cases next <;> simp [Next.pc]
  refine ⟨hpc, ?_⟩
  cases action with
  | tick => simp [step, State.tick, hpc] at h
  | ack result => simp [step, State.ack, hpc] at h
  | subAgentDone result =>
    simp only [step, State.subAgentDone, hpc] at h
    cases result with
    | error err =>
      obtain rfl := Option.some.inj h
      simp [State.core, State.finish, State.goto, Pc.after] at ht
    | ok task' =>
      obtain rfl := Option.some.inj h
      obtain rfl : task' = task := by simpa [State.core, State.goto, Pc.after] using ht
      rfl
  | call method =>
    obtain rfl := Option.some.inj h
    simp [State.core, hpc, Pc.after] at ht
  | control i =>
    obtain ⟨_, _, _, _, _, rfl⟩ := control_eq h
    simp [State.core, hpc, Pc.after] at ht

theorem alone_step (h : step rt s action = some t) (hok : AgentAlone rt s action)
    (hs : s.core.Alone rt spec) : t.core.Alone rt spec := by
  have hm := step_move h
  have hcalls : s.calls = [] := hs.uncommanded.calls
  have hcalls' : t.core.shared.calls = [] := by
    cases action with
    | call method => exact absurd rfl (hok.1 method)
    | control i => simp [step, State.control, hcalls] at h
    | tick | ack | subAgentDone => exact (own_calls h rfl).trans hcalls
  refine ⟨uncommanded_move hm hcalls' hs.uncommanded, ?_,
    onRoot_move hm hs.uncommanded hs.unparked hs.onRoot⟩
  refine unparked_move hm hs.uncommanded (fun a channel task hpc ht => ?_) hs.unparked
  obtain ⟨hpc', rfl⟩ := executing_step h hpc ht
  obtain ⟨x, events, hx, hsignal⟩ := hok.2 a channel (.ok task) hpc' rfl
  obtain ⟨hspec, hcancelled⟩ := executeStep_task hx
  refine ⟨hspec, fun hstate => ?_⟩
  have hmem := hsignal (hcancelled hstate)
  rw [show s.signals = [] from hs.uncommanded.signals] at hmem
  exact absurd hmem (by simp)

theorem alone_init : (init spec).core.Alone rt spec where
  uncommanded := ⟨rfl, rfl, rfl, rfl, rfl⟩
  unparked := ⟨rfl, by simp [core, init, Pc.after, Pc.task], rfl,
    by simp [core, init, Pc.todo]⟩
  onRoot := ⟨by simp [core, init, rootFrame, Frame.IsRoot],
    by simp [core, init, Pc.after, Pc.live, Pc.inHand],
    by simp [core, init, Pc.todo]⟩

/-- No step was reported failed, and the run has not ended in an error. -/
structure Core.Unfailed (c : Core) : Prop where
  running : ∀ err held, c.pc ≠ .finished (.error err) held
  failed : ∀ p, .failed p ∉ marks c.trace

theorem trace_move (hm : Move rt c d) (hd : ∀ err held, d.pc ≠ .finished (.error err) held) :
    c.trace <+: d.trace := by
  cases hm with
  | stutter | control | pop => exact prefix_refl _
  | fail err => exact absurd rfl (hd err _)
  | _ => exact prefix_append _ _

theorem unfailed_back (h : step rt s action = some t) (ht : t.core.Unfailed) :
    s.core.Unfailed := by
  have hm := step_move h
  refine ⟨fun err held hpc => ?_, fun p hp => ht.failed p ?_⟩
  · obtain ⟨shared, hd⟩ := hm.of_finished hpc
    exact ht.running err held (by rw [hd]; exact hpc)
  · exact (List.IsPrefix.filterMap Entry.mark (trace_move hm ht.running)).subset hp

/-- A run that nobody controls and that reports no failure gives no step up. -/
theorem givesUpLast_of_alone (h : step rt s action = some t) (hs : s.core.Alone rt spec)
    (ht : t.core.Unfailed) : GivesUpLast s action := by
  rintro rfl
  refine ⟨?_, fun _ b hb => ?_⟩
  · rintro a ⟨task, summary, hpc⟩
    simp only [step, tick, hpc, settle, some.injEq] at h
    split at h <;> subst h
    · exact absurd rfl (ht.running _ _)
    · refine absurd ?_ (ht.failed a.currentPrefix)
      simp [core, goto, Pc.todo, marks_rejectedStep]
  · simp [show s.pendingResume = none from hs.unparked.pending] at hb

theorem born_move (hm : Move rt c d) : c.born <+: d.born := by
  cases hm with
  | inject | push => exact prefix_append _ _
  | _ => exact prefix_refl _

theorem root_born (h : run rt (.init spec) actions = some t) : rootFrame spec ∈ t.born :=
  run_invariant (P := fun s => rootFrame spec ∈ s.born) h
    (fun _ _ _ hstep hs => (born_move (step_move hstep)).subset hs) (by simp [init])

theorem dot_not_mem_toString (n : ℕ) : '.' ∉ (toString n).toList := by
  rw [Nat.toString_eq_repr, Nat.toList_repr]
  intro h
  simpa using Nat.isDigit_of_mem_toDigits (by decide) (by decide) h

/-- The prefix of a step of a sub-spec is no index of an accepted sheet. -/
theorem composePrefix_ne_toString {n m k : ℕ} :
    composePrefix (toString n) (toString m) ≠ toString k := by
  intro h
  refine dot_not_mem_toString k ?_
  have hne : toString n ≠ "" := by
    intro hempty
    have hlist : (toString n).toList = [] := by rw [hempty]; rfl
    rw [Nat.toString_eq_repr, Nat.toList_repr] at hlist
    exact Nat.toDigits_ne_nil hlist
  rw [← h, composePrefix_of_ne hne]
  simp

/-- Where no step declares a sub-spec, the declared steps are those of the sheet itself. -/
theorem declares_of_none (hnone : ∀ step ∈ spec.steps, step.subSpec = none)
    (h : Declares spec q p) : ∃ step ∈ spec.steps, composePrefix q step.index = p := by
  cases h with
  | step hstep => exact ⟨_, hstep, rfl⟩
  | sub hstep hchild hp => simp [hnone _ hstep] at hchild

theorem alone_of_steps (h : Steps (step rt) (AgentAlone rt) (.init spec) actions t) :
    t.core.Alone rt spec :=
  h.invariant (P := fun s => s.core.Alone rt spec)
    (fun _ _ _ hok hstep hs => alone_step hstep hok hs) alone_init

theorem complete_of_alone (h : Steps (step rt) (AgentAlone rt) (.init spec) actions t)
    (ht : t.core.Unfailed) : t.core.Complete := by
  have halone : Throughout (step rt) (fun s => s.core.Alone rt spec) (.init spec) actions :=
    h.throughout (fun _ _ _ hok hstep hs => alone_step hstep hok hs) (fun _ hs => hs) alone_init
  have hunfailed : Throughout (step rt) (fun s => s.core.Unfailed) (.init spec) actions :=
    throughout_of_end h.run_eq (fun _ _ _ hstep => unfailed_back hstep) ht
  refine complete_of_steps (steps_of_throughout h.run_eq
    (P := fun s => s.core.Alone rt spec ∧ s.core.Unfailed)
    (fun pre u hpre hu => ⟨halone pre u hpre hu, hunfailed pre u hpre hu⟩) ?_)
  exact fun _ _ _ hstep hs ht => givesUpLast_of_alone hstep hs.1 ht.2

/-- A run that has emitted `Completed` is over. -/
theorem finished_of_completed (h : run rt (.init spec) actions = some t)
    (hlog : .event .completed ∈ t.log) :
    t.core.pc = .finished (.ok ()) none ∧ t.pc.todo = [] := by
  have hpc := core_pc_of_completed h hlog
  refine ⟨hpc, ?_⟩
  rw [pc_of_core_pc hpc fun next => next.pc_ne_finished _ _]
  rfl

theorem mem_stepsPushed {frames : List Frame} {step : SpecStep} (h : rootFrame spec ∈ frames)
    (hstep : step ∈ spec.steps) : composePrefix "" step.index ∈ stepsPushed frames := by
  refine mem_flatMap.mpr ⟨rootFrame spec, by simpa [rootFrame] using h, ?_⟩
  exact mem_map_of_mem (by simpa [rootFrame] using hstep)

/-- With `Agent` for its implementor, a run that nobody controls and that fails nowhere executes
what its spec declares exactly if no step of the spec declares a sub-spec. -/
theorem executes_declared_iff (hvalid : validate spec = .ok ())
    (h : Steps (step rt) (AgentAlone rt) (.init spec) actions t)
    (hlog : .event .completed ∈ t.log) (hfailed : ∀ p, .failed p ∉ marks t.log) :
    ExecutesDeclared spec t ↔ ∀ step ∈ spec.steps, step.subSpec = none := by
  have halone := alone_of_steps h
  obtain ⟨hpc, htodo⟩ := finished_of_completed h.run_eq hlog
  have htrace : t.core.trace = t.log := by simp [core, htodo]
  constructor
  · intro hexecutes step hstep
    obtain ⟨i, hindex⟩ := ((accepted_of_validate hvalid).2 step hstep).index_eq
    cases hchild : step.subSpec with
    | none => rfl
    | some child =>
      -- the first step of the child is declared, and its prefix is no index of the sheet
      obtain ⟨hne, haccepted⟩ := accepted_of_validate
        (((accepted_of_validate hvalid).2 step hstep).subSpec child hchild)
      obtain ⟨first, hfirst⟩ := exists_mem_of_ne_nil _ hne
      obtain ⟨j, hj⟩ := (haccepted first hfirst).index_eq
      have hmem := (hexecutes _ (.sub hstep hchild (.step hfirst))).1
      rw [← htrace] at hmem
      obtain ⟨other, hother, heq⟩ := mem_map.mp (halone.onRoot.executed _ hmem)
      obtain ⟨k, hk⟩ := ((accepted_of_validate hvalid).2 other hother).index_eq
      rw [hk, hj, hindex, composePrefix_empty] at heq
      exact absurd heq.symm composePrefix_ne_toString
  · intro hnone p hp
    obtain ⟨step, hstep, rfl⟩ := declares_of_none hnone hp
    have hunfailed : t.core.Unfailed := ⟨by simp [hpc], by rwa [htrace]⟩
    have htruthful := truthful_of_complete (complete_of_alone h hunfailed) hlog
    have hpushed := count_pos_iff.mpr (mem_stepsPushed (root_born h.run_eq) hstep)
    have hreported := htruthful.reported (composePrefix "" step.index)
    have hexecuted := htruthful.executed (composePrefix "" step.index)
    have hcancelled := halone.unparked.cancelled (composePrefix "" step.index)
    rw [htrace] at hcancelled
    rw [settlements, count_eq_zero.mpr (hfailed _), count_eq_zero.mpr hcancelled]
      at hreported
    exact ⟨count_pos_iff.mp (by omega), count_pos_iff.mp (by omega)⟩

/-- An agent that answers and is done. -/
def sampleExecution : Execution :=
  ⟨none, "task-1", "task-2", [.message (.agentResponse "ok"), .message .done], .ok ()⟩

/-- The task that it returns. -/
def sampleReturn (step : SpecStep) (spec : SpecSheet) : Except String Task :=
  sampleExecution.finish sampleRuntime step spec ⟨"ok", [], none, []⟩ false

/-- A run of a plan whose only step an agent executes. -/
def runOnlyStep (spec : SpecSheet) : List Action :=
  toExecution ++ [.subAgentDone (sampleReturn (sampleStep "1") spec)] ++ toAcceptance ++ ticks 1

def isLoopAction : Action → Bool
  | .tick | .ack _ => true
  | _ => false

theorem agentAlone_of_loop (h : isLoopAction action = true) : AgentAlone rt s action := by
  refine ⟨?_, ?_⟩
  · rintro method rfl
    simp [isLoopAction] at h
  · rintro a channel result hpc rfl
    simp [isLoopAction] at h

theorem agentAlone_of_returns {result : Except String Task}
    {x : Execution} (hpc : s.pc = .executing a channel)
    (hx : (x.executeStep rt a.step a.spec a.currentPrefix true).map (·.2) = some result)
    (hsignal : .signal ∉ x.arrivals) : AgentAlone rt s (.subAgentDone result) := by
  refine ⟨by simp, fun a' channel' result' hpc' haction => ?_⟩
  obtain ⟨rfl, rfl⟩ : a = a' ∧ channel = channel' := by simpa [hpc] using hpc'
  obtain rfl : result = result' := by simpa using haction
  obtain ⟨⟨events, returned⟩, hreturned, rfl⟩ := map_eq_some_iff.mp hx
  exact ⟨x, events, hreturned, fun h => absurd h hsignal⟩

/-- The run of a plan whose only step an agent executes is one of an agent alone. -/
theorem agentAlone_onlyStep {sheet : SpecSheet} {u v : State}
    (hs : check (step sampleRuntime) (fun _ => isLoopAction) (.init sheet) toExecution = some s)
    (hpc : s.pc = .executing a channel)
    (hx : (sampleExecution.executeStep sampleRuntime a.step a.spec a.currentPrefix true).map (·.2) =
      some (sampleReturn (sampleStep "1") sheet))
    (hu : step sampleRuntime s (.subAgentDone (sampleReturn (sampleStep "1") sheet)) = some u)
    (hv : check (step sampleRuntime) (fun _ => isLoopAction) u (toAcceptance ++ ticks 1) = some v) :
    Steps (step sampleRuntime) (AgentAlone sampleRuntime) (.init sheet) (runOnlyStep sheet) v := by
  have hsteps : Steps (step sampleRuntime) (AgentAlone sampleRuntime) (.init sheet) toExecution s :=
    steps_of_check hs fun _ _ => agentAlone_of_loop
  have hagent := agentAlone_of_returns hpc hx (by simp [sampleExecution])
  have hrest : Steps (step sampleRuntime) (AgentAlone sampleRuntime) u
      (toAcceptance ++ ticks 1) v := steps_of_check hv fun _ _ => agentAlone_of_loop
  simpa [runOnlyStep, append_assoc] using (hsteps.snoc hagent hu).append hrest

theorem executes_declared_only_step : ∃ t,
    Steps (step sampleRuntime) (AgentAlone sampleRuntime)
      (.init (sampleSheet "root" [sampleStep "1"]))
      (runOnlyStep (sampleSheet "root" [sampleStep "1"])) t ∧
    .event .completed ∈ t.log ∧ (∀ p, .failed p ∉ marks t.log) ∧
    (ExecutesDeclared (sampleSheet "root" [sampleStep "1"]) t ↔
      ∀ step ∈ (sampleSheet "root" [sampleStep "1"]).steps, step.subSpec = none) := by
  obtain ⟨s, a, channel, u, t, hs, hpc, hx, hu, ht, hlast, hmarks⟩ :
      ∃ (s : State) (a : Active) (channel : ℕ) (u t : State),
      check (step sampleRuntime) (fun _ => isLoopAction)
        (.init (sampleSheet "root" [sampleStep "1"])) toExecution = some s ∧
      s.pc = .executing a channel ∧
      (sampleExecution.executeStep sampleRuntime a.step a.spec a.currentPrefix true).map (·.2) =
        some (sampleReturn (sampleStep "1") (sampleSheet "root" [sampleStep "1"])) ∧
      step sampleRuntime s (.subAgentDone
        (sampleReturn (sampleStep "1") (sampleSheet "root" [sampleStep "1"]))) = some u ∧
      check (step sampleRuntime) (fun _ => isLoopAction) u (toAcceptance ++ ticks 1) = some t ∧
      t.log.getLast? = some (.event .completed) ∧
      marks t.log = [.executed "1", .completed "1"] :=
    ⟨_, _, _, _, _, rfl, rfl, rfl, rfl, rfl, rfl, rfl⟩
  have hsteps := agentAlone_onlyStep hs hpc hx hu ht
  have hlog := mem_of_getLast? hlast
  have hfailed : ∀ p, .failed p ∉ marks t.log := by simp [hmarks]
  exact ⟨t, hsteps, hlog, hfailed, executes_declared_iff (by rfl) hsteps hlog hfailed⟩

/-- A plan whose only step declares a sub-spec. -/
def declaredHalf : SpecSheet :=
  sampleSheet "root" [{ sampleStep "1" with subSpec := some (sampleSheet "half" [sampleStep "1"]) }]

theorem declared_half_not_executed : validate declaredHalf = .ok () ∧ ∃ t,
    Steps (step sampleRuntime) (AgentAlone sampleRuntime) (.init declaredHalf)
      (runOnlyStep declaredHalf) t ∧
    .event .completed ∈ t.log ∧ (∀ p, .failed p ∉ marks t.log) ∧
    ¬ ExecutesDeclared declaredHalf t := by
  obtain ⟨s, a, channel, u, t, hs, hpc, hx, hu, ht, hlast, hmarks⟩ :
      ∃ (s : State) (a : Active) (channel : ℕ) (u t : State),
      check (step sampleRuntime) (fun _ => isLoopAction) (.init declaredHalf) toExecution =
        some s ∧ s.pc = .executing a channel ∧
      (sampleExecution.executeStep sampleRuntime a.step a.spec a.currentPrefix true).map (·.2) =
        some (sampleReturn (sampleStep "1") declaredHalf) ∧
      step sampleRuntime s (.subAgentDone (sampleReturn (sampleStep "1") declaredHalf)) = some u ∧
      check (step sampleRuntime) (fun _ => isLoopAction) u (toAcceptance ++ ticks 1) = some t ∧
      t.log.getLast? = some (.event .completed) ∧
      marks t.log = [.executed "1", .completed "1"] :=
    ⟨_, _, _, _, _, rfl, rfl, rfl, rfl, rfl, rfl, rfl⟩
  refine ⟨rfl, t, agentAlone_onlyStep hs hpc hx hu ht, mem_of_getLast? hlast, by simp [hmarks],
    fun hexecutes => ?_⟩
  have hstep : sampleStep "1" ∈ (sampleSheet "half" [sampleStep "1"]).steps := mem_cons_self
  have hdeclared : Declares declaredHalf "" (composePrefix "1" "1") :=
    .sub mem_cons_self rfl (.step hstep)
  have hmem := (hexecutes _ hdeclared).1
  rw [hmarks] at hmem
  exact absurd hmem (by decide)

end ColossalCode.Orchestrator
