import ColossalCode.Orchestrator.Frames

/-! What a run that ends with `Completed` has reported of the steps it was given. -/
namespace ColossalCode.Orchestrator

open Protocol

variable {rt : Runtime} {spec : SpecSheet} {s t : State} {c d : Core} {action : Action}
  {actions : List Action} {a b : Active} {p : String}

/-- What an entry says of the step with a prefix. -/
inductive Mark where
  | executed (stepPrefix : String)
  | completed (stepPrefix : String)
  | failed (stepPrefix : String)
  | cancelled (stepPrefix : String)
  deriving DecidableEq

def Entry.mark : Entry → Option Mark
  | .execute _ _ p => some (.executed p)
  | .event (.stepStatusChanged _ _ _ _ p .implementor .completed) => some (.completed p)
  | .event (.stepStatusChanged _ _ _ _ p .implementor .failed) => some (.failed p)
  | .event (.stepCancelled p) => some (.cancelled p)
  | _ => none

def marks (entries : List Entry) : List Mark := entries.filterMap Entry.mark

/-- How often a step was reported completed, failed or cancelled. -/
def settlements (p : String) (marks : List Mark) : ℕ :=
  marks.count (.completed p) + marks.count (.failed p) + marks.count (.cancelled p)

/-- The prefixes of the steps a frame has still to take. -/
def Frame.upcoming (frame : Frame) : List String :=
  (frame.spec.steps.drop frame.stepIdx).map fun step => composePrefix frame.framePrefix step.index

/-- The prefixes of all steps of the specs that were pushed: a spec starts at its first step. -/
def stepsPushed (frames : List Frame) : List String :=
  (frames.filter (·.stepIdx = 0)).flatMap Frame.upcoming

/-- The steps pushed have each a report of their own, and a step reported completed an execution
of its own. -/
structure Truthful (s : State) : Prop where
  reported : ∀ p, (stepsPushed s.born).count p ≤ settlements p (marks s.log)
  executed : ∀ p, (marks s.log).count (.completed p) ≤ (marks s.log).count (.executed p)

/-- A step that no other step of its spec comes after. -/
def Active.IsLast (a : Active) : Prop := a.stepIdx + 1 = a.spec.steps.length

/-- The next move of the run loop gives up a step that its verifier rejected. -/
def State.Rejects (s : State) (a : Active) : Prop :=
  ∃ task summary, s.pc = .settle a task (.fail summary)

/-- A step is rejected, parked over or left parked only if it is the last of its spec. -/
def GivesUpLast (s : State) (action : Action) : Prop :=
  action = .tick → (∀ a, s.Rejects a → a.IsLast) ∧
    (s.Parks ∨ s.Leaves → ∀ b, s.pendingResume = some b → b.IsLast)

@[simp] theorem marks_nil : marks [] = [] := rfl

@[simp] theorem marks_append (first second : List Entry) :
    marks (first ++ second) = marks first ++ marks second := List.filterMap_append

@[simp] theorem marks_cons (e : Entry) (entries : List Entry) :
    marks (e :: entries) = e.mark.toList ++ marks entries := by
  cases h : e.mark <;> simp [marks, h]

@[simp high] theorem marks_report (report : Report) (entries : List Entry) :
    marks (report.entry :: entries) = marks entries := by
  cases report <;> rfl

@[simp] theorem marks_reports (reports : List Report) : marks (reports.map Report.entry) = [] := by
  induction reports with
  | nil => rfl
  | cons report reports ih => simpa using ih

variable {context : VerificationContext} {entries : List Entry}

theorem AgentReport.marks_eq (h : AgentReport entries) : marks entries = [] := by
  cases h with
  | nothing => rfl
  | ended context step suffix hrole status =>
    rename_i role
    cases role with
    | implementor => exact absurd rfl hrole
    | _ => rfl

theorem Active.upcoming_eq (a : Active) :
    a.toFrame.upcoming = a.currentPrefix :: a.next.upcoming := by
  simp [Frame.upcoming, a.drop_eq, next, currentPrefix]

@[simp] theorem Active.setStep_next_upcoming (a : Active) (step : SpecStep) :
    (a.setStep step).next.upcoming = a.next.upcoming := by
  simp [Frame.upcoming, next, setStep, List.drop_set_of_lt]

theorem Active.setStep_upcoming (a : Active) {step : SpecStep} (h : step.index = a.step.index) :
    (a.setStep step).toFrame.upcoming = a.toFrame.upcoming := by
  rw [upcoming_eq, upcoming_eq, setStep_next_upcoming]
  simp [currentPrefix, h]

@[simp] theorem Active.setStatus_upcoming (a : Active) (status : StepStatus) :
    (a.setStatus status).toFrame.upcoming = a.toFrame.upcoming := a.setStep_upcoming rfl

@[simp] theorem Active.setSubSpec_upcoming (a : Active) (child : SpecSheet) :
    (a.setSubSpec child).toFrame.upcoming = a.toFrame.upcoming := a.setStep_upcoming rfl

@[simp] theorem Active.setStatus_next_upcoming (a : Active) (status : StepStatus) :
    (a.setStatus status).next.upcoming = a.next.upcoming := a.setStep_next_upcoming _

@[simp] theorem Active.resumed_upcoming (a : Active) (message : String) :
    (a.resumed message).toFrame.upcoming = a.toFrame.upcoming := by
  unfold resumed
  simp only
  split
  · exact a.setStatus_upcoming _
  · exact ((a.setStatus .pending).setStep_upcoming (by simp)).trans (a.setStatus_upcoming _)

@[simp] theorem completedStep_next_upcoming (a : Active) (child : Option SpecSheet)
    (value : Value) :
    (completedStep a child value).next.upcoming = a.next.upcoming := by
  cases child with
  | none => exact a.setStatus_next_upcoming _
  | some sub =>
    exact ((a.setSubSpec sub).setStatus_next_upcoming _).trans (a.setStep_next_upcoming _)

theorem upcoming_eq_nil {frame : Frame} (h : ¬ frame.stepIdx < frame.spec.steps.length) :
    frame.upcoming = [] := by
  simpa [Frame.upcoming] using h

theorem Active.IsLast.next_upcoming (h : a.IsLast) : a.next.upcoming = [] := by
  refine upcoming_eq_nil ?_
  rw [IsLast] at h
  simp [next, h]

@[simp] theorem stepsPushed_append (first second : List Frame) :
    stepsPushed (first ++ second) = stepsPushed first ++ stepsPushed second := by
  simp [stepsPushed]

@[simp] theorem stepsPushed_nil : stepsPushed [] = [] := rfl

@[simp] theorem stepsPushed_next (a : Active) (frames : List Frame) :
    stepsPushed (a.next :: frames) = stepsPushed frames := by
  simp [stepsPushed, Active.next]

@[simp] theorem stepsPushed_spec (spec : SpecSheet) (framePrefix : String) (frames : List Frame) :
    stepsPushed (⟨spec, 0, framePrefix⟩ :: frames) =
      Frame.upcoming ⟨spec, 0, framePrefix⟩ ++ stepsPushed frames := by
  simp [stepsPushed]

theorem count_reverse_upcoming (frames : List Frame) :
    (frames.reverse.flatMap Frame.upcoming).count p = (frames.flatMap Frame.upcoming).count p :=
  ((List.reverse_perm frames).flatMap_right _).count_eq p

@[simp] theorem Active.setMetadata_step (a : Active) (metadata : Value) :
    (a.setMetadata metadata).step = a.step := rfl

@[simp] theorem Active.setMetadata_currentPrefix (a : Active) (metadata : Value) :
    (a.setMetadata metadata).currentPrefix = a.currentPrefix := rfl

@[simp] theorem Active.setSubSpec_currentPrefix (a : Active) (child : SpecSheet) :
    (a.setSubSpec child).currentPrefix = a.currentPrefix := by
  simp [currentPrefix, setSubSpec]

theorem marks_announce (a : Active) (status : StepStatus) :
    marks (announce (a.setStatus status)) = match status with
      | .completed => [.completed a.currentPrefix]
      | .failed => [.failed a.currentPrefix]
      | _ => [] := by
  cases status <;> simp [announce, statusEvent, Entry.mark]

theorem marks_completedStep (a : Active) (child : Option SpecSheet) (value : Value) :
    marks (announce (completedStep a child value)) = [.completed a.currentPrefix] := by
  cases child <;> simp [announce, statusEvent, Entry.mark, completedStep]

theorem marks_rejectedStep (a : Active) (value : Value) :
    marks (announce (rejectedStep a value)) = [.failed a.currentPrefix] := by
  simp [announce, statusEvent, Entry.mark, rejectedStep]

theorem completedStep_currentPrefix (a : Active) (child : Option SpecSheet) (value : Value) :
    (completedStep a child value).currentPrefix = a.currentPrefix := by
  cases child <;> simp [completedStep]

theorem upcoming_parked {pending : Option Active} (h : ∀ b, pending = some b → b.IsLast) :
    (pending.map Active.next).toList.flatMap Frame.upcoming = [] := by
  cases pending with
  | none => rfl
  | some b => simpa using (h b rfl).next_upcoming

theorem count_acceptedFrames (a : Active) (child : Option SpecSheet) (value : Value) :
    ((acceptedFrames a (completedStep a child value) child).flatMap Frame.upcoming).count p =
      a.next.upcoming.count p +
        (stepsPushed (acceptedFrames a (completedStep a child value) child)).count p := by
  by_cases hlt : a.stepIdx + 1 < a.spec.steps.length
  · cases child <;> simp [acceptedFrames, hlt]
  · have hnext : a.next.upcoming = [] := upcoming_eq_nil hlt
    cases child <;> simp [acceptedFrames, hlt, hnext]

/-- The frames that a run has popped or is about to push. -/
def Pc.live : Pc → List Frame
  | .push back fresh => back.toList ++ fresh
  | pc => pc.inHand.toList

/-- The frames that a run is about to push for the first time. -/
def Pc.fresh : Pc → List Frame
  | .push _ fresh => fresh
  | _ => []

/-- The cancelled step whose `StepCancelled` a run is about to emit. -/
def Pc.cancelling : Pc → Option String
  | .clearCancel a none | .clearPrefix a none | .park a => some a.currentPrefix
  | _ => none

/-- Each step pushed has its own report, or is upcoming. A parked step has one already. -/
def Core.Accounted (c : Core) : Prop :=
  (∀ err held, c.pc ≠ .finished (.error err) held) → ∀ p,
    (stepsPushed (c.born ++ c.pc.fresh)).count p ≤
      settlements p (marks c.trace) + c.pc.cancelling.toList.count p +
        ((c.stack ++ c.pc.live).flatMap Frame.upcoming).count p +
          (((c.pending.map Active.next).toList).flatMap Frame.upcoming).count p

/-- The step that was executed before the commands at a site are handled. -/
def Site.attempt : Site → Option Active
  | .afterExecute a _ => some a
  | .afterPop _ | .whilePaused _ => none

/-- The executed step that a run is about to settle. -/
def Pc.attempt : Pc → Option Active
  | .executing a _ | .summarizing a _ _ | .verifying a _ _ | .settle a _ _ => some a
  | .clearCancel a task | .clearPrefix a task => task.map fun _ => a
  | .receive site _ | .handle site _ | .rerunning site _ _ | .reporting _ site _ _ => site.attempt
  | _ => none

/-- Each step reported completed was executed for it, and so was the one under way. -/
def Core.Executed (c : Core) : Prop :=
  (∀ err held, c.pc ≠ .finished (.error err) held) → ∀ p,
    (marks c.trace).count (.completed p) + (c.pc.attempt.map Active.currentPrefix).toList.count p ≤
      (marks c.trace).count (.executed p)

/-- The move from `c` to `d` gives up a step that its verifier rejected. -/
def Core.Rejecting (c d : Core) (a : Active) : Prop :=
  (∃ task summary, c.pc = .settle a task (.fail summary)) ∧ d.pc = .loopHead

section Moves

attribute [local simp] Core.goto Site.held Pc.live Pc.fresh Pc.cancelling Pc.inHand Pc.attempt
    Site.attempt Entry.mark
  settlements List.count_cons verifierEvent summarizerEvent agentEvent statusEvent

theorem accounted_move (hm : Move rt c d) (hreject : ∀ a, Core.Rejecting c d a → a.IsLast)
    (hpark : Core.Parking c d → ∀ b, c.pending = some b → b.IsLast) (hc : c.Accounted) :
    d.Accounted := by
  intro hd p
  cases hm with
  | stutter | control => exact hc hd p
  | fail err => exact absurd rfl (hd err _)
  | complete hpc | receive hpc | received hpc | abort hpc | rerun hpc
  | commandsDone hpc | wait hpc | setPrefix hpc | setCancel hpc | execute hpc
  | executed _ hpc | cleared hpc | clearedParked hpc | parked hpc | summarize hpc | pass hpc
  | report hpc | reported hpc | reportFailed _ hpc =>
    have hk := hc (by simp [hpc]) p
    simp [hpc] at hk ⊢
    omega
  | @clearCancel a task hpc =>
    have hk := hc (by simp [hpc]) p
    cases task <;> simp [hpc] at hk ⊢ <;> omega
  | start hpc | retry hpc =>
    have hk := hc (by simp [hpc]) p
    simp [hpc, marks_announce] at hk ⊢
    omega
  | pop hpc hstack =>
    have hk := hc (by simp [hpc]) p
    simp [hpc, hstack] at hk ⊢
    omega
  | ignore hpc htakes =>
    have hk := hc (by simp [hpc]) p
    cases htakes <;> simpa [hpc] using hk
  | summarizerFailed hpc hresult | summarized hpc hrequires hresult
  | summarizedPass hpc hrequires hresult =>
    have hk := hc (by simp [hpc]) p
    simpa [hpc, verifierStart, (summarizer_report hresult).marks_eq] using hk
  | verified hpc hresult | reverified hpc hresult =>
    have hk := hc (by simp [hpc]) p
    simpa [hpc, (verifier_report hresult).marks_eq] using hk
  | inject hpc hframe =>
    have hk := hc (by simp [hpc]) p
    simp [hpc, hframe] at hk ⊢
    omega
  | push hpc | split hpc =>
    have hk := hc (by simp [hpc]) p
    simp [hpc, count_reverse_upcoming] at hk ⊢
    omega
  | @resume site rest q message a hpc hpending hq =>
    have hk := hc (by simp [hpc]) p
    simp [hpc, hpending, a.upcoming_eq] at hk ⊢
    omega
  | exhausted hpc hpaused hlast =>
    have hk := hc (by simp [hpc]) p
    simpa [hpc, upcoming_eq_nil hlast] using hk
  | @cancelBefore a channel hpc hcancel =>
    have hp := upcoming_parked (hpark ⟨_, .inl ⟨rfl, _, hpc⟩⟩)
    have hk := hc (by simp [hpc]) p
    simp [hpc, hp, a.upcoming_eq] at hk ⊢
    omega
  | @cancelAfter a task hpc hcancel | @taskCancelled a task hpc hcancel hstate =>
    have hp := upcoming_parked (hpark ⟨_, .inr ⟨rfl, _, hpc⟩⟩)
    have hk := hc (by simp [hpc]) p
    simp [hpc, hp, a.upcoming_eq] at hk ⊢
    omega
  | @taskFailed a task hpc hcancel hstate =>
    have hk := hc (by simp [hpc]) p
    simp [hpc, marks_announce, a.upcoming_eq] at hk ⊢
    omega
  | @accept a task summary child value hpc hchild hvalue =>
    have hk := hc (by simp [hpc]) p
    simp [hpc, marks_completedStep, a.upcoming_eq, count_acceptedFrames] at hk ⊢
    omega
  | @reject a task summary value hpc hvalue =>
    have hlast := (hreject a ⟨⟨task, summary, hpc⟩, rfl⟩).next_upcoming
    have hk := hc (by simp [hpc]) p
    simp [hpc, marks_rejectedStep, a.upcoming_eq, hlast] at hk ⊢
    omega

theorem executed_move (hm : Move rt c d) (hc : c.Executed) : d.Executed := by
  intro hd p
  cases hm with
  | stutter | control => exact hc hd p
  | fail err => exact absurd rfl (hd err _)
  | complete hpc | receive hpc | received hpc | abort hpc | rerun hpc
  | commandsDone hpc | wait hpc | setPrefix hpc | setCancel hpc | execute hpc
  | executed _ hpc | cleared hpc | clearedParked hpc | parked hpc | summarize hpc | pass hpc
  | report hpc | reported hpc | reportFailed _ hpc | inject hpc | push hpc | split hpc | resume hpc
  | exhausted hpc | cancelBefore hpc | cancelAfter hpc | taskCancelled hpc | pop hpc =>
    have hk := hc (by simp [hpc]) p
    simp [hpc] at hk ⊢
    omega
  | @clearCancel a task hpc =>
    have hk := hc (by simp [hpc]) p
    cases task <;> simpa [hpc] using hk
  | start hpc | retry hpc | taskFailed hpc =>
    have hk := hc (by simp [hpc]) p
    simp [hpc, marks_announce] at hk ⊢
    omega
  | ignore hpc htakes =>
    have hk := hc (by simp [hpc]) p
    cases htakes <;> simpa [hpc] using hk
  | summarizerFailed hpc hresult | summarized hpc hrequires hresult
  | summarizedPass hpc hrequires hresult =>
    have hk := hc (by simp [hpc]) p
    simpa [hpc, verifierStart, (summarizer_report hresult).marks_eq] using hk
  | verified hpc hresult | reverified hpc hresult =>
    have hk := hc (by simp [hpc]) p
    simpa [hpc, (verifier_report hresult).marks_eq] using hk
  | accept hpc =>
    have hk := hc (by simp [hpc]) p
    simp [hpc, marks_completedStep] at hk ⊢
    omega
  | reject hpc =>
    have hk := hc (by simp [hpc]) p
    simp [hpc, marks_rejectedStep] at hk ⊢
    omega

end Moves

theorem rejecting_step (h : step rt s action = some t) (hr : Core.Rejecting s.core t.core a) :
    action = .tick ∧ s.Rejects a := by
  obtain ⟨⟨task, summary, hs⟩, ht⟩ := hr
  cases hpc : s.pc with
  | settle b task' disposition =>
    obtain ⟨rfl, rfl, rfl⟩ : b = a ∧ task' = task ∧ disposition = .fail summary := by
      simpa [State.core, hpc, Pc.after] using hs
    have htick : s.tick rt ≠ none := by simp [State.tick, hpc]
    refine ⟨step_eq_tick h htick fun he => ?_, task', summary, hpc⟩
    simp [State.core, he, hpc, Pc.after] at ht
  | perform todo next =>
    have hnext : next.pc = .settle a task (.fail summary) := by
      simpa [State.core, hpc, Pc.after] using hs
    obtain hp | ⟨err, held, hp⟩ := (perform_step hpc h).1 <;> simp [hp, hnext] at ht
  | _ => simp [State.core, hpc, Pc.after] at hs

/-- The inductive invariant behind `Truthful`. -/
structure Core.Complete (c : Core) : Prop where
  accounted : c.Accounted
  executed : c.Executed
  left : c.Left fun pending => ∀ b, pending = some b → b.IsLast

theorem complete_step (h : step rt s action = some t) (hok : GivesUpLast s action)
    (hs : s.core.Complete) : t.core.Complete := by
  have hm := step_move h
  refine ⟨accounted_move hm (fun a hr => ?_) (fun hp => ?_) hs.accounted,
    executed_move hm hs.executed, left_move hm (fun hl => ?_) hs.left⟩
  · obtain ⟨htick, hrejects⟩ := rejecting_step h hr
    exact (hok htick).1 a hrejects
  · obtain ⟨htick, hparks⟩ := parking_step h hp
    exact (hok htick).2 (.inl hparks)
  · obtain ⟨htick, hleaves⟩ := leaving_step h hl
    exact (hok htick).2 (.inr hleaves)

theorem complete_init : (State.init spec).core.Complete := by
  refine ⟨fun _ p => ?_, fun _ p => ?_, left_init _⟩
  · simp [State.core, State.init, rootFrame, Pc.fresh, Pc.live, Pc.after, Pc.inHand]
  · simp [State.core, State.init, Pc.after, Pc.attempt, Pc.todo]

theorem truthful_of_complete (hs : s.core.Complete) (hlog : .event .completed ∈ s.log) :
    Truthful s := by
  obtain ⟨hpc, hstack, hlast⟩ := hs.left (List.mem_append_left _ hlog)
  have hs' : s.pc = .finished (.ok ()) none :=
    pc_of_core_pc hpc fun next => next.pc_ne_finished _ _
  have hne : ∀ err held, s.core.pc ≠ .finished (.error err) held := by simp [hpc]
  refine ⟨fun p => ?_, fun p => ?_⟩
  · have hp := hs.accounted hne p
    rw [upcoming_parked hlast, hstack, hpc] at hp
    simpa [State.core, hs', Pc.fresh, Pc.cancelling, Pc.live, Pc.inHand, Pc.todo] using hp
  · have hp := hs.executed hne p
    rw [hpc] at hp
    simpa [State.core, hs', Pc.attempt, Pc.todo] using hp

theorem complete_of_steps (h : Transition.Steps (step rt) GivesUpLast (.init spec) actions t) :
    t.core.Complete :=
  h.invariant (P := fun s => s.core.Complete)
    (fun _ _ _ hok hstep hs => complete_step hstep hok hs) complete_init

/-- A run that gives up last steps only has a report of every step it was given, once it emits
`Completed`. -/
theorem completed_run_truthful (h : Transition.Steps (step rt) GivesUpLast (.init spec) actions t)
    (hlog : .event .completed ∈ t.log) : Truthful t :=
  truthful_of_complete (complete_of_steps h) hlog

/-- A plan whose first step is verified. -/
def verifiedFirst : SpecSheet :=
  sampleSheet "root" [{ sampleStep "1" with requiresVerification := true }, sampleStep "2"]

def verifiedLast : SpecSheet :=
  sampleSheet "root" [sampleStep "1", { sampleStep "2" with requiresVerification := true }]

/-- A rejected first step takes the second one with it; a failed first step does not. -/
theorem rejected_step_drops_sibling : ∃ t u,
    run sampleRuntime (.init verifiedFirst)
      (toExecution ++ toVerdict "1" "failed" ++ toRejection ++ ticks 1) = some t ∧
    .event .completed ∈ t.log ∧ ¬ Truthful t ∧
    run sampleRuntime (.init verifiedFirst) (toExecution ++ toFailure ++ toExecution) = some u ∧
    .executed "2" ∈ marks u.log := by
  obtain ⟨t, ht, hlast, hpushed, hsettled⟩ : ∃ t, run sampleRuntime (.init verifiedFirst)
      (toExecution ++ toVerdict "1" "failed" ++ toRejection ++ ticks 1) = some t ∧
      t.log.getLast? = some (.event .completed) ∧ (stepsPushed t.born).count "2" = 1 ∧
      settlements "2" (marks t.log) = 0 := ⟨_, rfl, rfl, rfl, rfl⟩
  obtain ⟨u, hu, hmarks⟩ : ∃ u, run sampleRuntime (.init verifiedFirst)
      (toExecution ++ toFailure ++ toExecution) = some u ∧
      (marks u.log).getLast? = some (.executed "2") := ⟨_, rfl, rfl⟩
  refine ⟨t, u, ht, List.mem_of_getLast? hlast, fun htruthful => ?_, hu,
    List.mem_of_getLast? hmarks⟩
  have h := htruthful.reported "2"
  omega

instance (a : Active) : Decidable a.IsLast :=
  inferInstanceAs (Decidable (a.stepIdx + 1 = a.spec.steps.length))

/-- A test that a state gives up last steps only, passed where no step is parked. -/
def givesUpLastTest (s : State) (_ : Action) : Bool :=
  s.pendingResume.isNone && match s.pc with
    | .settle a _ (.fail _) => decide a.IsLast
    | _ => true

theorem givesUpLast_of_test (h : givesUpLastTest s action = true) : GivesUpLast s action := by
  intro _
  simp only [givesUpLastTest, Bool.and_eq_true, Option.isNone_iff_eq_none] at h
  refine ⟨?_, fun _ b hb => ?_⟩
  · rintro a ⟨task, summary, hpc⟩
    simpa [hpc] using h.2
  · simp [h.1] at hb

/-- A run whose first step fails and whose second, the last one, is rejected. -/
def failThenReject : List Action :=
  toExecution ++ toFailure ++ toExecution ++ toVerdict "2" "failed" ++ toRejection ++ ticks 1

theorem completed_run_truthful_rejected_last : ∃ t,
    Transition.Steps (step sampleRuntime) GivesUpLast (.init verifiedLast) failThenReject t ∧
    .event .completed ∈ t.log ∧ Truthful t := by
  obtain ⟨t, ht, hlast⟩ : ∃ t,
      Transition.check (step sampleRuntime) givesUpLastTest (.init verifiedLast) failThenReject =
        some t ∧ t.log.getLast? = some (.event .completed) := ⟨_, rfl, rfl⟩
  have hsteps := Transition.steps_of_check ht fun _ _ => givesUpLast_of_test
  have hlog := List.mem_of_getLast? hlast
  exact ⟨t, hsteps, hlog, completed_run_truthful hsteps hlog⟩

end ColossalCode.Orchestrator
