import ColossalCode.Orchestrator.Stop
import ColossalCode.Orchestrator.Declared

/-! The dependencies of a step: a run goes through a sheet in the order of its list, and goes on
after a step that failed. -/
namespace ColossalCode.Orchestrator
open List Option

open Protocol Transition

/-- The sheet records each dependency of the step as completed. -/
def Supported (step : SpecStep) (spec : SpecSheet) : Prop :=
  ∀ d ∈ step.dependencies, ∃ e ∈ spec.steps, e.index = d ∧ e.status = .completed

/-- Each step was started with a sheet that records its dependencies as completed. -/
def DependenciesMet (s : State) : Prop :=
  ∀ step spec p, .execute step spec p ∈ s.log → Supported step spec

/-- A dependency stands before the step and has not failed, or stands after it and was completed
when the sheet was made. -/
def Active.Follows (a : Active) (d : String) : Prop :=
  ∃ j e, a.spec.steps[j]? = some e ∧ e.index = d ∧
    (j < a.stepIdx ∧ e.status ≠ .failed ∨ a.stepIdx < j ∧ e.status = .completed)

/-- A step is started only if it follows its dependencies. -/
def StartsInOrder (s : State) (action : Action) : Prop :=
  action = .tick → ∀ a channel, s.pc = .cancelCheck a channel →
    s.cancelPrefix ≠ some a.currentPrefix → ∀ d ∈ a.step.dependencies, a.Follows d

/-- The steps before the one of the frame have been completed, or have failed. -/
def Frame.Walked (frame : Frame) : Prop :=
  ∀ j < frame.stepIdx, ∀ e, frame.spec.steps[j]? = some e →
    e.status = .completed ∨ e.status = .failed

/-- The step that a run is about to start. -/
def Pc.started : Pc → Option Active
  | .setPrefix a | .setCancel a _ | .cancelCheck a _ => some a
  | _ => none

/-- The frames of a run have walked their sheets, and a step about to start is in progress. -/
structure Core.Walked (c : Core) : Prop where
  stack : ∀ frame ∈ c.stack, frame.Walked
  live : ∀ frame ∈ c.pc.live, frame.Walked
  pending : ∀ a, c.pending = some a → a.toFrame.Walked
  started : ∀ a, c.pc.started = some a → a.step.status = .inProgress

variable {rt : Runtime} {spec : SpecSheet} {s t : State} {c d : Core} {a : Active}
  {action : Action} {actions : List Action}

theorem walked_zero (spec : SpecSheet) (p : String) : (⟨spec, 0, p⟩ : Frame).Walked :=
  fun _ h => absurd h (Nat.not_lt_zero _)

@[simp] theorem Active.setStep_walked (a : Active) (step : SpecStep) :
    (a.setStep step).toFrame.Walked ↔ a.toFrame.Walked := by
  have hsame : ∀ j < a.stepIdx,
      (a.spec.steps.set a.stepIdx step)[j]? = a.spec.steps[j]? := fun j hj =>
    getElem?_set_ne (Nat.ne_of_gt hj)
  constructor
  · intro h j hj e he
    exact h j hj e ((hsame j hj).trans he)
  · intro h j hj e he
    exact h j hj e ((hsame j hj).symm.trans he)

@[simp] theorem Active.setStatus_walked (a : Active) (status : StepStatus) :
    (a.setStatus status).toFrame.Walked ↔ a.toFrame.Walked := a.setStep_walked _

@[simp] theorem Active.setSubSpec_walked (a : Active) (child : SpecSheet) :
    (a.setSubSpec child).toFrame.Walked ↔ a.toFrame.Walked := a.setStep_walked _

@[simp] theorem Active.resumed_walked (a : Active) (message : String) :
    (a.resumed message).toFrame.Walked ↔ a.toFrame.Walked := by
  unfold Active.resumed
  simp only
  split <;> simp

theorem Active.next_walked (h : a.toFrame.Walked)
    (hstatus : a.step.status = .completed ∨ a.step.status = .failed) : a.next.Walked := by
  intro j hj e he
  rcases Nat.lt_succ_iff_lt_or_eq.mp hj with hj | rfl
  · exact h j hj e he
  · have hstep : a.spec.steps[a.stepIdx]? = some a.step := getElem?_eq_getElem a.inRange
    obtain rfl := some.inj (hstep.symm.trans he)
    exact hstatus

@[simp] theorem Active.setMetadata_walked (a : Active) (metadata : Value) :
    (a.setMetadata metadata).toFrame.Walked ↔ a.toFrame.Walked := Iff.rfl

theorem completedStep_walked (child : Option SpecSheet) (value : Value) (h : a.toFrame.Walked) :
    (completedStep a child value).next.Walked := by
  apply Active.next_walked
  · cases child <;> simpa [completedStep] using h
  · cases child <;> simp [completedStep]

theorem acceptedFrames_walked (child : Option SpecSheet) (value : Value)
    (h : a.toFrame.Walked) :
    ∀ frame ∈ acceptedFrames a (completedStep a child value) child, frame.Walked := by
  intro frame hframe
  rcases mem_append.mp hframe with hframe | hframe
  · split at hframe
    · obtain rfl := mem_singleton.mp hframe
      exact completedStep_walked child value h
    · cases hframe
  · cases child with
    | none => cases hframe
    | some sub =>
      obtain rfl := mem_singleton.mp hframe
      exact walked_zero _ _

section Moves

attribute [local simp] Core.goto Site.held Pc.live Pc.inHand Pc.started

theorem walked_move (hm : Move rt c d) (hc : c.Walked) : d.Walked := by
  obtain ⟨hstack, hlive, hpending, hstarted⟩ := hc
  cases hm with
  | stutter | control => exact ⟨hstack, hlive, hpending, hstarted⟩
  | pop hpc hrest =>
    rw [hrest, forall_mem_cons] at hstack
    exact ⟨hstack.2, by simpa using hstack.1, hpending, by simp⟩
  | inject hpc hframe =>
    simp [hpc] at hlive
    refine ⟨forall_mem_cons.mpr ⟨?_, hstack⟩, by simpa using hlive, hpending, by simp⟩
    rw [hframe]
    exact walked_zero _ _
  | resume hpc hparked =>
    simp [hpc] at hlive
    refine ⟨forall_mem_cons.mpr ⟨?_, hstack⟩, by simpa using hlive, by simp, by simp⟩
    simpa using hpending _ hparked
  | start hpc =>
    simp [hpc] at hlive
    refine ⟨hstack, by simpa using hlive, hpending, ?_⟩
    rintro _ ⟨⟩
    simp
  | setPrefix hpc | setCancel hpc =>
    simp [hpc] at hlive hstarted
    refine ⟨hstack, by simpa using hlive, hpending, ?_⟩
    rintro _ ⟨⟩
    exact hstarted
  | cancelBefore hpc | cancelAfter hpc | taskCancelled hpc =>
    simp [hpc] at hlive
    refine ⟨hstack, by simp, ?_, by simp⟩
    rintro _ ⟨⟩
    simpa using hlive
  | split hpc =>
    simp [hpc] at hlive
    refine ⟨hstack, ?_, hpending, by simp⟩
    simpa using ⟨hlive, walked_zero _ _⟩
  | taskFailed hpc =>
    simp [hpc] at hlive
    refine ⟨hstack, ?_, hpending, by simp⟩
    simpa using Active.next_walked ((Active.setStatus_walked _ .failed).mpr hlive) (by simp)
  | accept hpc =>
    simp [hpc] at hlive
    refine ⟨hstack, ?_, hpending, by simp⟩
    simpa using acceptedFrames_walked _ _ hlive
  | push hpc =>
    simp only [hpc, Pc.live, forall_mem_append] at hlive
    refine ⟨?_, by simp, hpending, by simp⟩
    simp only [forall_mem_append, mem_reverse]
    exact ⟨hlive.2, hlive.1, hstack⟩
  | fail =>
    refine ⟨hstack, fun frame h => hlive _ ?_, hpending, by simp⟩
    exact inHand_subset_live h
  | complete hpc | exhausted hpc | clearedParked hpc | parked hpc | reject hpc =>
    exact ⟨hstack, by simp, hpending, by simp⟩
  | receive hpc | received hpc | ignore hpc | abort hpc | rerun hpc | commandsDone hpc | wait hpc
  | execute hpc | executed _ hpc | clearCancel hpc | cleared hpc | summarize hpc | pass hpc
  | summarizerFailed hpc | summarized hpc | summarizedPass hpc | verified hpc | reverified hpc
  | report hpc | reportFailed _ hpc | reported hpc | retry hpc =>
    exact ⟨hstack, by simpa [hpc] using hlive, hpending, by simp⟩

end Moves

theorem walked_init : (State.init spec).core.Walked where
  stack := by
    intro frame hframe
    obtain rfl := mem_singleton.mp hframe
    exact walked_zero _ _
  live := fun _ h => absurd h not_mem_nil
  pending := fun _ h => by cases h
  started := fun _ h => by cases h

/-- A step that follows its dependencies has them recorded as completed. -/
theorem follows_iff (h : a.toFrame.Walked) (hstatus : a.step.status = .inProgress) (d : String) :
    a.Follows d ↔ ∃ e ∈ a.spec.steps, e.index = d ∧ e.status = .completed := by
  have hstep : a.spec.steps[a.stepIdx]? = some a.step := getElem?_eq_getElem a.inRange
  constructor
  · rintro ⟨j, e, he, hd, ⟨hj, hne⟩ | ⟨-, hcompleted⟩⟩
    · have hwalked := h j hj e he
      exact ⟨e, mem_of_getElem? he, hd, hwalked.resolve_right hne⟩
    · exact ⟨e, mem_of_getElem? he, hd, hcompleted⟩
  · rintro ⟨e, he, hd, hcompleted⟩
    obtain ⟨j, hj⟩ := mem_iff_getElem?.mp he
    refine ⟨j, e, hj, hd, ?_⟩
    rcases Nat.lt_trichotomy j a.stepIdx with hlt | rfl | hlt
    · exact .inl ⟨hlt, by simp [hcompleted]⟩
    · obtain rfl := some.inj (hstep.symm.trans hj)
      rw [hstatus] at hcompleted
      cases hcompleted
    · exact .inr ⟨hlt, hcompleted⟩

theorem execute_of_append {entries : List Entry} {step : SpecStep} {sheet : SpecSheet} {p : String}
    (htrace : d.trace = c.trace ++ entries) (hnone : ∀ e ∈ entries, e.execution = none)
    (h : .execute step sheet p ∈ d.trace) : .execute step sheet p ∈ c.trace := by
  rw [htrace] at h
  rcases mem_append.mp h with h | h
  · exact h
  · cases hnone _ h

section Executions

attribute [local simp] Core.goto

/-- An entry of a started step is written by the check before its execution, and by no other
move. -/
theorem execute_move (hm : Move rt c d) {step : SpecStep} {sheet : SpecSheet} {p : String}
    (h : .execute step sheet p ∈ d.trace) : .execute step sheet p ∈ c.trace ∨
      ∃ a channel, c.pc = .cancelCheck a channel ∧ d.pc = .executing a channel ∧
        step = a.step ∧ sheet = a.spec := by
  cases hm with
  | @execute a channel hpc hcancel =>
    rcases mem_append.mp h with h | h
    · exact .inl h
    · obtain ⟨rfl, rfl, rfl⟩ : step = a.step ∧ sheet = a.spec ∧ p = a.currentPrefix := by
        simpa using h
      exact .inr ⟨a, channel, hpc, rfl, rfl, rfl⟩
  | fail err ran trace hran htrace =>
    rcases mem_append.mp (htrace.subset h) with h | h
    · exact .inl h
    · obtain ⟨p, result, he⟩ := hran _ h
      cases he
  | stutter | control | pop => exact .inl h
  | ignore hpc htakes => cases htakes <;> exact .inl (execute_of_append rfl (by simp) h)
  | summarizerFailed hpc hresult | summarized hpc _ hresult | summarizedPass hpc _ hresult =>
    have hentries := (summarizer_report hresult).execution
    refine .inl (execute_of_append rfl ?_ h)
    simpa [verifierStart, or_imp, forall_and] using hentries
  | verified hpc hresult | reverified hpc hresult =>
    have hentries := (verifier_report hresult).execution
    refine .inl (execute_of_append rfl ?_ h)
    simpa [or_imp, forall_and] using hentries
  | _ => exact .inl (execute_of_append rfl (by simp [announce]) h)

end Executions

/-- Reports under way start no step. -/
structure State.Paced (s : State) : Prop where
  walked : s.core.Walked
  started : ∀ step sheet p, .execute step sheet p ∈ s.core.trace → .execute step sheet p ∈ s.log

theorem paced_init : (State.init spec).Paced where
  walked := walked_init
  started := fun _ _ _ h => by simp [State.core, State.init, Pc.todo] at h

/-- A step that is started is the one that the run has checked for a cancel request. -/
theorem started_of_tick {channel : ℕ} (hpc : s.pc = .cancelCheck a channel)
    (hcancel : s.cancelPrefix ≠ some a.currentPrefix) (h : step rt s .tick = some t) :
    t.log = s.log ++ [.execute a.step a.spec a.currentPrefix] := by
  simp only [step, State.tick, hpc, if_neg hcancel] at h
  obtain rfl := some.inj h
  rfl

theorem execute_step (hs : s.Paced) (h : step rt s action = some t) {step : SpecStep}
    {sheet : SpecSheet} {p : String} (he : .execute step sheet p ∈ t.core.trace) :
    .execute step sheet p ∈ s.log ∨ action = .tick ∧ ∃ a channel, s.pc = .cancelCheck a channel ∧
      s.cancelPrefix ≠ some a.currentPrefix ∧ step = a.step ∧ sheet = a.spec := by
  rcases execute_move (step_move h) he with hold | ⟨a, channel, hpc, hd, rfl, rfl⟩
  · exact .inl (hs.started _ _ _ hold)
  · obtain ⟨rfl, hpc⟩ := check_step h hpc hd
    refine .inr ⟨rfl, a, channel, hpc, ?_, rfl, rfl⟩
    intro hcancel
    simp only [Orchestrator.step, State.tick, hpc, if_pos hcancel] at h
    obtain rfl := some.inj h
    simp [State.core, Pc.after] at hd

theorem paced_step (h : step rt s action = some t) (hs : s.Paced) : t.Paced := by
  refine ⟨walked_move (step_move h) hs.walked, fun step sheet p he => ?_⟩
  rcases execute_move (step_move h) he with hold | ⟨a, channel, hpc, hd, rfl, rfl⟩
  · exact (step_log h).subset (hs.started _ _ _ hold)
  · have htpc : t.pc = .executing a channel :=
      pc_of_core_pc hd fun next => by cases next <;> simp [Next.pc]
    simpa [State.core, htpc, Pc.todo] using he

/-- A step keeps the dependencies met exactly if what it starts follows its own. -/
theorem met_step_iff (hs : s.Paced) (h : step rt s action = some t) (hmet : DependenciesMet s) :
    DependenciesMet t ↔ StartsInOrder s action := by
  have hchecked : ∀ a channel, s.pc = .cancelCheck a channel →
      (∀ d ∈ a.step.dependencies, a.Follows d) = Supported a.step a.spec := by
    intro a channel hpc
    have hcore : s.core.pc = .cancelCheck a channel := core_pc_of_eq hpc
    have hwalked : a.toFrame.Walked := hs.walked.live _ (by simp [hcore, Pc.live, Pc.inHand])
    have hstatus := hs.walked.started a (by simp [hcore, Pc.started])
    simp only [Supported, follows_iff hwalked hstatus]
  constructor
  · rintro ht rfl a channel hpc hcancel
    rw [hchecked a channel hpc]
    apply ht a.step a.spec a.currentPrefix
    rw [started_of_tick hpc hcancel h]
    exact mem_append_right _ (mem_singleton_self _)
  · intro horder step sheet p he
    rcases execute_step hs h ((prefix_append t.log _).subset he) with
      hold | ⟨htick, a, channel, hpc, hcancel, rfl, rfl⟩
    · exact hmet step sheet p hold
    · rw [← hchecked a channel hpc]
      exact horder htick a channel hpc hcancel

/-- In a run each step is started with its dependencies completed exactly if each step that is
started names as dependencies only steps before it in its sheet, none of which has failed, or later
ones that the sheet came with as completed. -/
theorem dependencies_met_iff (hrun : run rt (.init spec) actions = some t) :
    DependenciesMet t ↔ Steps (step rt) StartsInOrder (.init spec) actions t :=
  end_iff_steps (I := State.Paced) (fun _ _ _ h hs => paced_step h hs)
    (fun _ _ _ hs h hmet => met_step_iff hs h hmet)
    (fun _ _ _ _ h ht step sheet p he => ht step sheet p ((step_log h).subset he)) hrun paced_init
    fun _ _ _ h => absurd h not_mem_nil

/-- The second step depends on the first. -/
def dependentPair : SpecSheet :=
  sampleSheet "root" [sampleStep "1", { sampleStep "2" with dependencies := ["1"] }]

/-- The first step is accepted, and the second one started. -/
def acceptFirst : List Action :=
  toExecution ++ [.subAgentDone (.ok (sampleDone "1"))] ++ toAcceptance ++ toExecution

/-- Every dependency of a step about to start is found before it. -/
def startsInOrderTest (s : State) (_ : Action) : Bool :=
  match s.pc with
  | .cancelCheck a _ => a.step.dependencies.all fun d =>
    (a.spec.steps.take a.stepIdx).any fun e => e.index == d && e.status != .failed
  | _ => true

theorem startsInOrder_of_test (h : startsInOrderTest s action = true) : StartsInOrder s action := by
  rintro rfl a channel hpc hcancel d hd
  simp only [startsInOrderTest, hpc, List.all_eq_true, List.any_eq_true, Bool.and_eq_true] at h
  obtain ⟨e, he, hindex, hstatus⟩ := h d hd
  obtain ⟨j, hj⟩ := List.mem_iff_getElem?.mp he
  obtain ⟨hlt, hj⟩ : j < a.stepIdx ∧ a.spec.steps[j]? = some e := by
    simpa [List.getElem?_take] using hj
  exact ⟨j, e, hj, by simpa using hindex, .inl ⟨hlt, by simpa using hstatus⟩⟩

theorem dependencies_met_accepted : ∃ t,
    run sampleRuntime (.init dependentPair) acceptFirst = some t ∧ DependenciesMet t := by
  obtain ⟨t, hrun, hcheck⟩ : ∃ t, run sampleRuntime (.init dependentPair) acceptFirst = some t ∧
      check (step sampleRuntime) startsInOrderTest (.init dependentPair) acceptFirst = some t :=
    ⟨_, rfl, rfl⟩
  have hsteps := steps_of_check hcheck fun _ _ h => startsInOrder_of_test h
  exact ⟨t, hrun, (dependencies_met_iff hrun).mpr hsteps⟩

/-- The first step fails, and the second one is started. -/
def failFirst : List Action := toExecution ++ toFailure ++ toExecution

/-- The sheet is accepted, its first step fails, and the second one is started all the same. -/
theorem started_after_failure : ¬ ∀ (rt : Runtime) (spec : SpecSheet) (actions : List Action)
    (t : State), validate spec = .ok () → run rt (.init spec) actions = some t →
      DependenciesMet t := by
  intro hall
  obtain ⟨t, step, sheet, hrun, hlast, hdependencies, hstatuses⟩ : ∃ t step sheet,
      run sampleRuntime (.init dependentPair) failFirst = some t ∧
      t.log.getLast? = some (.execute step sheet "2") ∧ step.dependencies = ["1"] ∧
      sheet.steps.map (fun e => (e.index, e.status)) = [("1", .failed), ("2", .inProgress)] :=
    ⟨_, _, _, rfl, rfl, rfl, rfl⟩
  have hmet := hall _ _ _ t rfl hrun step sheet "2" (mem_of_getLast? hlast)
  obtain ⟨e, he, hindex, hcompleted⟩ := hmet "1" (by simp [hdependencies])
  have hmem : (e.index, e.status) ∈ sheet.steps.map (fun e => (e.index, e.status)) :=
    mem_map_of_mem he
  rw [hstatuses, hindex, hcompleted] at hmem
  simp at hmem

end ColossalCode.Orchestrator
