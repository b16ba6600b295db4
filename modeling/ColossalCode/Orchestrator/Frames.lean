import ColossalCode.Orchestrator.Moves

/-! Where the frames of a run are: on the stack, in hand, parked in `pending_resume`, or settled. -/
namespace ColossalCode.Orchestrator
open List Option State Frame Pc

open Protocol Transition

variable {rt : Runtime} {spec : SpecSheet} {s t : State} {c d : Core} {action : Action}

/-- What identifies a frame while the statuses and notes in its spec change. -/
structure FrameKey where
  specId : String
  framePrefix : String
  stepIdx : Nat
  deriving DecidableEq

def Frame.key (frame : Frame) : FrameKey := ⟨frame.spec.id, frame.framePrefix, frame.stepIdx⟩

@[simp] theorem Active.setStep_key (a : Active) (step : SpecStep) :
    (a.setStep step).toFrame.key = a.toFrame.key := rfl

@[simp] theorem Active.setStatus_key (a : Active) (status : StepStatus) :
    (a.setStatus status).toFrame.key = a.toFrame.key := rfl

@[simp] theorem Active.setSubSpec_key (a : Active) (child : SpecSheet) :
    (a.setSubSpec child).toFrame.key = a.toFrame.key := rfl

@[simp] theorem Active.resumed_key (a : Active) (message : String) :
    (a.resumed message).toFrame.key = a.toFrame.key := by
  unfold Active.resumed
  simp only
  split <;> rfl

@[simp] theorem Pc.after_inHand (pc : Pc) : pc.after.inHand = pc.inHand := by
  cases pc with
  | perform todo next => exact next.pc_inHand
  | _ => rfl

def Core.places (c : Core) : List Frame :=
  c.stack ++ (c.pc.inHand.toList ++ ((c.pending.map (·.toFrame)).toList ++ c.settled))

/-- Every frame ever pushed is in exactly one place. -/
def Core.Conserved (c : Core) : Prop := (c.born.map key).Perm (c.places.map key)

def State.places (s : State) : List Frame :=
  s.stack ++ (s.pc.inHand.toList ++ ((s.pendingResume.map (·.toFrame)).toList ++ s.settled))

/-- Frame conservation in a state of a run, and what `Completed` promises. -/
structure FramesKept (s : State) : Prop where
  conserved : (s.born.map key).Perm (s.places.map key)
  completed : .event .completed ∈ s.log → s.stack = [] ∧ s.pendingResume = none

/-- The next move of the run loop sends a cancelled step to `pending_resume`. -/
def State.Parks (s : State) : Prop :=
  match s.pc with
  | .cancelCheck a _ => s.cancelPrefix = some a.currentPrefix
  | .handle (.afterExecute a task) [] =>
    s.cancelPrefix = some a.currentPrefix ∨ task.status.state = .cancelled
  | _ => False

/-- The next move of the run loop finds the stack empty. -/
def State.Leaves (s : State) : Prop := s.pc = .loopHead ∧ s.stack = []

/-- A step is parked, or the loop left, only while no step is parked already. -/
def ParkedAlone (s : State) (action : Action) : Prop :=
  action = .tick → s.Parks ∨ s.Leaves → s.pendingResume = none

theorem conserved_iff : c.Conserved ↔ ∀ k, (c.born.map key).count k =
    (c.stack.map key).count k + (c.pc.inHand.toList.map key).count k +
      ((c.pending.map (·.toFrame)).toList.map key).count k +
        (c.settled.map key).count k := by
  simp [Core.Conserved, Core.places, perm_iff_count, Nat.add_assoc]

/-- The move from `c` to `d` parks a step. -/
def Core.Parking (c d : Core) : Prop :=
  ∃ a, (d.pc = .clearCancel a none ∧ ∃ channel, c.pc = .cancelCheck a channel) ∨
    (d.pc = .park a ∧ ∃ task, c.pc = .handle (.afterExecute a task) [])

/-- The move from `c` to `d` leaves the loop. -/
def Core.Leaving (c d : Core) : Prop :=
  c.pc = .loopHead ∧ c.stack = [] ∧ d.pc = .finished (.ok ()) none

theorem conserved_move (hm : Move rt c d) (hpark : Core.Parking c d → c.pending = none)
    (hc : c.Conserved) : d.Conserved := by
  rw [conserved_iff] at hc ⊢
  intro k
  have hk := hc k
  cases hm with
  | stutter | control => exact hk
  | cancelBefore hpc =>
    have hp := hpark ⟨_, .inl ⟨rfl, _, hpc⟩⟩
    simp_all [Core.goto, inHand]
  | cancelAfter hpc | taskCancelled hpc =>
    have hp := hpark ⟨_, .inr ⟨rfl, _, hpc⟩⟩
    simp_all [Core.goto, inHand, Site.held]
  | fail err ran trace => simpa [inHand] using hk
  | complete hpc | receive hpc | received hpc | ignore hpc | abort hpc | rerun hpc
  | commandsDone hpc | wait hpc | start hpc | setPrefix hpc | setCancel hpc | execute hpc
  | executed _ hpc | clearCancel hpc | cleared hpc | clearedParked hpc | parked hpc
  | summarize hpc | pass hpc | summarizerFailed hpc | summarized hpc | summarizedPass hpc
  | verified hpc | reverified hpc | report hpc | reportFailed _ hpc | reported hpc | retry hpc
  | split hpc =>
    simpa [Core.goto, inHand, Site.held, hpc] using hk
  | pop hpc hstack =>
    simp [inHand, Site.held, hpc, hstack, count_cons] at hk ⊢
    omega
  | inject hpc hframe =>
    simp [Core.goto, inHand, Site.held, hpc, count_cons] at hk ⊢
    omega
  | resume hpc hpending hp =>
    simp [Core.goto, inHand, Site.held, hpc, hpending, count_cons] at hk ⊢
    omega
  | exhausted hpc | taskFailed hpc | accept hpc | reject hpc =>
    simp [Core.goto, inHand, Site.held, hpc, count_cons] at hk ⊢
    omega
  | push hpc =>
    simp [Core.goto, inHand, hpc] at hk ⊢
    omega

variable {entries : List Entry} {result : Except String Task}

theorem AgentReport.not_completed (h : AgentReport entries) : .event .completed ∉ entries := by
  cases h <;> simp [agentEvent]

@[simp] theorem Report.entry_ne_completed (report : Report) :
    report.entry ≠ .event .completed := by
  cases report <;> simp [Report.entry]

@[simp] theorem Report.completed_ne_entry (report : Report) :
    .event .completed ≠ report.entry := report.entry_ne_completed.symm

/-- `Completed` is emitted by the move that leaves the loop, and by no other. -/
theorem completed_move (hm : Move rt c d) (h : .event .completed ∈ d.trace) :
    .event .completed ∈ c.trace ∨
      (c.pc = .loopHead ∧ c.stack = [] ∧
        d = c.goto (.finished (.ok ()) none) [.event .completed]) := by
  cases hm with
  | complete hpc hstack => exact .inr ⟨hpc, hstack, rfl⟩
  | ignore hpc htakes => cases htakes <;> simpa [Core.goto] using h
  | summarizerFailed hpc hresult | summarized hpc _ hresult | summarizedPass hpc _ hresult =>
    have := (summarizer_report hresult).not_completed
    simp_all [Core.goto, verifierStart, verifierEvent, agentEvent]
  | verified hpc hresult | reverified hpc hresult =>
    have := (verifier_report hresult).not_completed
    simp_all [Core.goto]
  | fail err ran trace hran htrace =>
    rcases mem_append.mp (htrace.subset h) with h | h
    · exact .inl h
    · obtain ⟨p, result, he⟩ := hran _ h
      simp at he
  | _ => simp_all [Core.goto, announce, statusEvent, summarizerEvent, verifierEvent, agentEvent]

/-- Where a run has returned, only control calls go on. -/
theorem Move.of_finished {result : Except String Unit} {held : Option Frame} (hm : Move rt c d)
    (hpc : c.pc = .finished result held) : ∃ shared, d = { c with shared } := by
  cases hm with
  | stutter => exact ⟨c.shared, rfl⟩
  | control hcontrols => exact ⟨_, rfl⟩
  | fail err ran trace hran htrace hrun => exact absurd hpc (hrun _ _)
  | _ => simp_all

/-- A run that has emitted `Completed` is over, its stack is empty, and `P` holds of what is
parked. -/
def Core.Left (P : Option Active → Prop) (c : Core) : Prop :=
  .event .completed ∈ c.trace →
    c.pc = .finished (.ok ()) none ∧ c.stack = [] ∧ P c.pending

theorem left_move {P : Option Active → Prop} (hm : Move rt c d)
    (hleave : Core.Leaving c d → P c.pending) (hc : c.Left P) : d.Left P := by
  intro h
  rcases completed_move hm h with h | ⟨hpc, hstack, rfl⟩
  · obtain ⟨shared, rfl⟩ := hm.of_finished (hc h).1
    exact hc h
  · exact ⟨rfl, hstack, hleave ⟨hpc, hstack, rfl⟩⟩

theorem left_init (P : Option Active → Prop) : (init spec).core.Left P := by
  simp [Core.Left, core, init, todo]

theorem core_pc_of_completed (h : run rt (.init spec) actions = some t)
    (hlog : .event .completed ∈ t.log) : t.core.pc = .finished (.ok ()) none := by
  have hleft : t.core.Left fun _ => True := run_invariant
    (P := fun s => s.core.Left fun _ => True) h
    (fun _ _ _ hstep hs => left_move (step_move hstep) (fun _ => trivial) hs) (left_init _)
  exact (hleft (mem_append_left _ hlog)).1

/-- The inductive invariant behind `FramesKept`. -/
structure Core.Kept (c : Core) : Prop where
  conserved : c.Conserved
  completed : c.Left (· = none)

theorem kept_move (hm : Move rt c d) (hpark : Core.Parking c d → c.pending = none)
    (hleave : Core.Leaving c d → c.pending = none) (hc : c.Kept) : d.Kept :=
  ⟨conserved_move hm hpark hc.conserved, left_move hm hleave hc.completed⟩

@[simp] theorem core_places : s.core.places = s.places := by
  simp [Core.places, places, core]

theorem framesKept_of_kept (h : s.core.Kept) : FramesKept s where
  conserved := by
    have hc := h.conserved
    rw [Core.Conserved, core_places] at hc
    exact hc
  completed hs := (h.completed (mem_append_left _ hs)).2

theorem kept_init : (init spec).core.Kept where
  conserved := by
    rw [Core.Conserved, core_places]
    exact .refl _
  completed := left_init _

theorem pc_of_core_pc {pc : Pc} (h : s.core.pc = pc)
    (hpc : ∀ next : Next, next.pc ≠ pc) : s.pc = pc := by
  cases hs : s.pc with
  | perform todo next =>
    simp only [core, hs, Pc.after] at h
    exact absurd h (hpc next)
  | _ => simpa [core, hs, Pc.after] using h

theorem running_of_step (h : step rt s action = some t) (ht : t.Running) : s.Running := by
  intro result held hpc
  obtain ⟨shared, he⟩ := (step_move h).of_finished (core_pc_of_eq hpc)
  have htpc : t.core.pc = .finished result held := by rw [he, core_pc_of_eq hpc]; rfl
  exact ht result held (pc_of_core_pc htpc fun next => next.pc_ne_finished result held)

/-- Only the run loop itself moves on from a control point that waits for no agent. -/
theorem step_eq_tick (h : step rt s action = some t) (ht : s.tick rt ≠ none)
    (hpc : t.pc ≠ s.pc) : action = .tick := by
  cases action with
  | tick => rfl
  | ack result =>
    simp only [step, State.ack] at h
    split at h
    · simp_all [tick, Entry.isCall]
    · rename_i report _ _ _ _ _
      cases hcall : report.entry.isCall <;> simp_all [tick]
    · simp at h
  | subAgentDone result =>
    simp only [step, subAgentDone] at h
    split at h <;> simp_all [tick]
  | call method =>
    obtain rfl := Option.some.inj h
    exact absurd rfl hpc
  | control i =>
    obtain ⟨_, _, _, _, _, rfl⟩ := control_eq h
    exact absurd rfl hpc

/-- Reports under way lead to where they are made for, or to an error; they leave the stack alone,
and end at most before they are all made. -/
theorem perform_step {todo : List Entry} {next : Next} (hpc : s.pc = .perform todo next)
    (h : step rt s action = some t) :
    (t.core.pc = next.pc ∨ ∃ err held, t.core.pc = .finished (.error err) held) ∧
      t.stack = s.stack ∧ t.pc.todo ⊆ s.pc.todo ∧ t.core.trace <+: s.core.trace := by
  cases action with
  | tick =>
    cases todo with
    | nil =>
      simp only [step, State.tick, hpc, some.injEq] at h
      subst h
      refine ⟨.inl next.pc_after, ?_⟩
      cases next <;> simp [goto, core, hpc, Pc.todo, Next.pc]
    | cons entry todo =>
      cases hcall : entry.isCall <;> simp [step, State.tick, hpc, hcall] at h
      subst h
      refine ⟨.inl rfl, ?_⟩
      simp [goto, output, core, hpc, Pc.todo]
  | ack result =>
    simp only [step, State.ack, hpc] at h
    split at h
    · rename_i heq
      cases heq
      cases result <;> simp only [some.injEq] at h <;> subst h
      · refine ⟨.inr ⟨_, _, rfl⟩, ?_⟩
        simp [State.finish, goto, output, core, hpc, Pc.todo]
      · refine ⟨.inl rfl, ?_⟩
        simp [goto, output, core, hpc, Pc.todo]
    · simp at *
    · simp at h
  | subAgentDone result => simp [step, State.subAgentDone, hpc] at h
  | call method =>
    obtain rfl := some.inj h
    exact ⟨.inl (by simp [core, hpc, Pc.after]), rfl, List.Subset.refl _, List.prefix_refl _⟩
  | control i =>
    obtain ⟨_, _, _, _, _, rfl⟩ := control_eq h
    exact ⟨.inl (by simp [core, hpc, Pc.after]), rfl, List.Subset.refl _, List.prefix_refl _⟩

theorem finishTask_pc (a b : Active) (task : Task) :
    (s.finishTask rt a task).core.pc ≠ .park b := by
  unfold finishTask verify
  split
  · simp [core, State.finish, goto, Pc.after]
  · split <;> simp [core, goto, Pc.after, Next.pc]

theorem parking_step (h : step rt s action = some t) (hp : Core.Parking s.core t.core) :
    action = .tick ∧ s.Parks := by
  obtain ⟨a, ⟨ht, channel, hs⟩ | ⟨ht, task, hs⟩⟩ := hp
  · have hpc : s.pc = .cancelCheck a channel :=
      pc_of_core_pc hs fun next => by cases next <;> simp [Next.pc]
    have htick : action = .tick := by
      refine step_eq_tick h (by simp only [tick, hpc]; split <;> simp) fun he => ?_
      simp [core, he, hpc, Pc.after] at ht
    subst htick
    refine ⟨rfl, ?_⟩
    simp only [State.Parks, hpc]
    by_contra hcancel
    simp only [step, tick, hpc, hcancel, if_false, some.injEq] at h
    subst h
    simp [core, goto, Pc.after] at ht
  · have hpc : s.pc = .handle (.afterExecute a task) [] :=
      pc_of_core_pc hs fun next => by cases next <;> simp [Next.pc]
    have htick : action = .tick := by
      refine step_eq_tick h (by simp [tick, hpc]) fun he => ?_
      simp [core, he, hpc, Pc.after] at ht
    subst htick
    refine ⟨rfl, ?_⟩
    simp only [State.Parks, hpc]
    by_contra hcancel
    rw [not_or] at hcancel
    simp only [step, tick, hpc, resumeSite, decideTask, hcancel.1, if_false,
      some.injEq] at h
    split at h
    · exact hcancel.2 (by assumption)
    · split at h <;> subst h
      · simp [core, State.finish, goto, Pc.after] at ht
      · exact finishTask_pc _ _ _ ht
      · simp [core, goto, Pc.after, Next.pc] at ht
    · subst h
      simp [core, failStep, goto, Pc.after, Next.pc] at ht
    · subst h
      exact finishTask_pc _ _ _ ht

theorem leaving_step (h : step rt s action = some t) (hl : Core.Leaving s.core t.core) :
    action = .tick ∧ s.Leaves := by
  obtain ⟨hs, hstack, ht⟩ := hl
  cases hpc : s.pc with
  | loopHead =>
    have htick : s.tick rt ≠ none := by
      simp only [tick, hpc]
      split <;> simp
    refine ⟨step_eq_tick h htick fun he => ?_, hpc, hstack⟩
    simp [core, he, hpc, Pc.after] at ht
  | perform todo next =>
    -- the reports after a rejected step are under way, the loop is not left yet
    have hnext : next.pc = .loopHead := by simpa [core, hpc, Pc.after] using hs
    obtain hp | ⟨err, held, hp⟩ := (perform_step hpc h).1 <;> simp [hp, hnext] at ht
  | _ => simp [core, hpc, Pc.after] at hs

theorem kept_step (h : step rt s action = some t) (hok : ParkedAlone s action)
    (hs : s.core.Kept) : t.core.Kept := by
  refine kept_move (step_move h) (fun hp => ?_) (fun hl => ?_) hs
  · obtain ⟨htick, hparks⟩ := parking_step h hp
    exact hok htick (.inl hparks)
  · obtain ⟨htick, hleaves⟩ := leaving_step h hl
    exact hok htick (.inr hleaves)

/-- Parking a step over another one loses a frame. -/
theorem parks_length (h : step rt s .tick = some t) (hp : s.Parks) {a : Active}
    (ha : s.pendingResume = some a) :
    t.born = s.born ∧ t.places.length + 1 = s.places.length := by
  unfold State.Parks at hp
  split at hp
  · rename_i b channel hpc
    simp only [step, tick, hpc, hp, if_true, some.injEq] at h
    subst h
    simp [places, storePending, hpc, ha, inHand]
    omega
  · rename_i b task hpc
    have ht : t.born = s.born ∧ t.stack = s.stack ∧ t.settled = s.settled ∧
        t.pendingResume = some (b.setStatus .pending) ∧ t.pc = .park b := by
      simp only [step, tick, hpc, resumeSite, decideTask,
        some.injEq] at h
      subst h
      split
      · simp [storePending]
      · rename_i hcancel
        simp [hp.resolve_left hcancel, storePending, goto]
    obtain ⟨hborn, hstack, hsettled, hpending, htpc⟩ := ht
    refine ⟨hborn, ?_⟩
    simp [places, hstack, hsettled, hpending, htpc, hpc, ha, inHand, Site.held]
    omega
  · exact hp.elim

theorem parkedAlone_of_framesKept (h : step rt s action = some t) (hs : FramesKept s)
    (ht : FramesKept t) : ParkedAlone s action := by
  rintro rfl hact
  cases hpending : s.pendingResume with
  | none => rfl
  | some a =>
    rcases hact with hparks | ⟨hpc, hstack⟩
    · obtain ⟨hborn, hlength⟩ := parks_length h hparks hpending
      have hs' := hs.conserved.length_eq
      have ht' := ht.conserved.length_eq
      simp only [length_map, hborn] at hs' ht'
      omega
    · obtain rfl : _ = t := by simpa [step, tick, hpc, hstack] using h
      have hlog := ht.completed (by simp [output, State.finish, goto])
      simp [output, State.finish, goto, hpending] at hlog

/-- Frames are conserved throughout a run, and `Completed` leaves none parked, exactly if the run
parks no step over a parked one and leaves the loop with none parked. -/
theorem frames_kept_iff_parked_alone {actions : List Action}
    (h : run rt (.init spec) actions = some t) :
    Throughout (step rt) FramesKept (.init spec) actions ↔
      Steps (step rt) ParkedAlone (.init spec) actions t := by
  constructor
  · intro hkept
    exact steps_of_throughout h hkept
      fun _ _ _ hstep hs ht => parkedAlone_of_framesKept hstep hs ht
  · intro hsteps
    exact hsteps.throughout (I := fun s => s.core.Kept)
      (fun _ _ _ hok hstep hs => kept_step hstep hok hs) (fun _ => framesKept_of_kept) kept_init

/-- `cancel_step("1")` while the only step runs. -/
def cancelOnlyStep : List Action :=
  toExecution ++ [.call (.cancelStep "1"), .control 0, .control 0, .control 0, .control 0,
    .subAgentDone (.ok (sampleTask .cancelled))] ++ ticks 8

theorem completed_with_a_step_parked :
    ∃ t, run sampleRuntime (.init (sampleSheet "root" [sampleStep "1"])) cancelOnlyStep = some t ∧
      .event .completed ∈ t.log ∧ t.pendingResume ≠ none ∧ ¬ FramesKept t := by
  obtain ⟨t, ht, hlast, hpending⟩ : ∃ t,
      run sampleRuntime (.init (sampleSheet "root" [sampleStep "1"])) cancelOnlyStep = some t ∧
      t.log.getLast? = some (.event .completed) ∧ t.pendingResume.isSome := ⟨_, rfl, rfl, rfl⟩
  have hlog := mem_of_getLast? hlast
  have hsome : t.pendingResume ≠ none := isSome_iff_ne_none.mp hpending
  exact ⟨t, ht, hlog, hsome, fun hkept => hsome (hkept.completed hlog).2⟩

/-- A run whose only step fails. -/
def failOnlyStep : List Action :=
  toExecution ++ [.subAgentDone (.ok (sampleTask .failed))]

theorem frames_kept_fail_only_step : ∃ t,
    run sampleRuntime (.init (sampleSheet "root" [sampleStep "1"])) failOnlyStep = some t ∧
    (Throughout (step sampleRuntime) FramesKept
        (.init (sampleSheet "root" [sampleStep "1"])) failOnlyStep ↔
      Steps (step sampleRuntime) ParkedAlone
        (.init (sampleSheet "root" [sampleStep "1"])) failOnlyStep t) :=
  ⟨_, rfl, frames_kept_iff_parked_alone rfl⟩

end ColossalCode.Orchestrator
