import ColossalCode.Orchestrator.Truthful

/-! Cancel requests. A request for a step travels as the calls, the command queue and the slot of
`run` show; the account kept beside a run knows only which requests were made and which steps were
parked. -/
namespace ColossalCode.Orchestrator
open List Option State ControlOp

open Protocol Transition

/-- The command is a request to cancel `p`. -/
def OrchestratorCommand.cancels (p : String) : OrchestratorCommand → Bool
  | .cancelStep q => q = p
  | _ => false

def ControlOp.cancels (p : String) : ControlOp → Bool
  | .send command => command.cancels p
  | _ => false

/-- The requests for `p` that calls have still to send. -/
def unsent (p : String) (calls : List Call) : ℕ :=
  (calls.flatMap Call.ops).countP (cancels p)

/-- The requests for `p` that are unsent, that are queued or that the slot holds. -/
def Shared.outstanding (sh : Shared) (p : String) : ℕ :=
  unsent p sh.calls + sh.commands.countP (OrchestratorCommand.cancels p) +
    sh.cancelPrefix.toList.count p

def Core.outstanding (c : Core) (p : String) : ℕ :=
  c.shared.outstanding p + c.pc.commands.countP (OrchestratorCommand.cancels p)

/-- The requests for `p` that are on their way. -/
def State.outstanding (s : State) (p : String) : ℕ := s.core.outstanding p

/-- The step that may be parked next. -/
def Pc.parkable : Pc → Option String
  | .cancelCheck a _ => some a.currentPrefix
  | .handle (.afterExecute a _) [] => some a.currentPrefix
  | _ => none

/-- The prefix of the step that a tick parks. -/
def State.parking (s : State) : Option String :=
  match s.pc with
  | .cancelCheck a _ => if s.cancelPrefix = some a.currentPrefix then some a.currentPrefix else none
  | .handle (.afterExecute a task) [] =>
    if s.cancelPrefix = some a.currentPrefix ∨ task.status.state = .cancelled then
      some a.currentPrefix
    else none
  | _ => none

/-- How many requests for `p` are owed an execution: one more with each call of `cancel_step`,
one fewer with each execution that is parked. -/
def owe (p : String) (owed : ℕ) (s : State) : Action → ℕ
  | .call (.cancelStep q) => if q = p then owed + 1 else owed
  | .tick => if s.parking = some p then owed - 1 else owed
  | _ => owed

/-- An execution of `p` does not go on before a request that is owed one, and it is parked for
such a request alone, or because its task was cancelled. -/
def Due (p : String) : State × ℕ → Action → Prop
  | (s, owed), .tick =>
    match s.pc with
    | .cancelCheck _ _ => s.parking = some p → 0 < owed
    | .handle (.afterExecute a task) [] => a.currentPrefix = p →
        (0 < owed → s.parking = some p) ∧
          (s.parking = some p → 0 < owed ∨ task.status.state = .cancelled)
    | _ => True
  | _, _ => True

/-- Requests for `p` are neither lost nor duplicated: while a run lasts the requests on their way
are those that are owed an execution, and executions of `p` are parked for them in turn. -/
structure Answered (rt : Runtime) (spec : SpecSheet) (p : String) (actions : List Action)
    (t : State) : Prop where
  on_their_way : Throughout (watch (step rt) (owe p))
    (fun q => q.1.Running → q.2 = q.1.outstanding p) (.init spec, 0) actions
  in_turn : ∃ owed, Steps (watch (step rt) (owe p)) (Due p) (.init spec, 0) actions (t, owed)

/-- A `CancelStep` is taken up while the slot holds no request for `p`, and an executed step `p`
that the slot does not name is settled while no request for it is on its way. -/
def AskedInTurn (p : String) (s : State) (action : Action) : Prop :=
  action = .tick →
    match s.pc with
    | .handle _ (.cancelStep _ :: _) => s.cancelPrefix ≠ some p
    | .handle (.afterExecute a _) [] =>
      a.currentPrefix = p → s.cancelPrefix ≠ some p → s.outstanding p = 0
    | _ => True

variable {rt : Runtime} {spec : SpecSheet} {p : String} {s t : State} {c d : Core} {sh sh' : Shared}
  {action : Action}

theorem unsent_append (before after : List Call) :
    unsent p (before ++ after) = unsent p before + unsent p after := by
  simp [unsent]

theorem unsent_cons (call : Call) (calls : List Call) :
    unsent p (call :: calls) = call.ops.countP (cancels p) + unsent p calls := by
  simp [unsent]

/-- What a call has still to send may change, with nothing else. -/
theorem unsent_set {calls : List Call} {i : ℕ} {call : Call} (next : Call)
    (h : calls[i]? = some call) :
    unsent p (calls.set i next) + call.ops.countP (cancels p) =
      unsent p calls + next.ops.countP (cancels p) := by
  obtain ⟨hlt, rfl⟩ := List.getElem?_eq_some_iff.mp h
  have hsplit : calls = calls.take i ++ calls[i] :: calls.drop (i + 1) := by simp
  have hcalls := congrArg (unsent p) hsplit
  rw [set_eq_take_append_cons_drop, if_pos hlt]
  rw [unsent_append, unsent_cons] at hcalls ⊢
  omega

theorem unsent_eraseIdx {calls : List Call} {i : ℕ} {method : ControlMethod}
    (h : calls[i]? = some ⟨method, []⟩) : unsent p (calls.eraseIdx i) = unsent p calls := by
  obtain ⟨hlt, hcall⟩ := List.getElem?_eq_some_iff.mp h
  have hsplit : calls = calls.take i ++ calls[i] :: calls.drop (i + 1) := by simp
  have hcalls := congrArg (unsent p) hsplit
  rw [eraseIdx_eq_take_drop_succ]
  rw [unsent_append, unsent_cons, hcall] at hcalls
  rw [unsent_append, hcalls]
  simp

/-- Sending a request takes it from the call to the queue. -/
theorem outstanding_controls (hc : sh.Controls sh') (hcalls : sh'.calls.length ≤ sh.calls.length) :
    sh'.outstanding p = sh.outstanding p := by
  unfold Shared.outstanding
  cases hc with
  | call method =>
    simp only [length_append, length_singleton] at hcalls
    omega
  | returned hcall => rw [unsent_eraseIdx hcall]
  | @readCancel i method rest hcall =>
    have hset := unsent_set (p := p) ⟨method, (sh.sharedCancel.map .signal).toList ++ rest⟩ hcall
    cases hcancel : sh.sharedCancel <;> simp [hcancel, cancels] at hset ⊢ <;> omega
  | @matchPrefix i method rest q hcall =>
    have hset := unsent_set (p := p)
      ⟨method, if sh.sharedPrefix = some q then .readCancel :: rest else rest⟩ hcall
    by_cases hq : sh.sharedPrefix = some q <;> simp [hq, cancels] at hset ⊢ <;> omega
  | @storePaused i method rest b hcall | @storeAborted i method rest hcall
  | @signal i method rest channel hcall =>
    have hset := unsent_set (p := p) ⟨method, rest⟩ hcall
    simp [cancels] at hset ⊢
    omega
  | @send i method rest command hcall =>
    have hset := unsent_set (p := p) ⟨method, rest⟩ hcall
    cases hcommand : command.cancels p <;> simp [hcommand, cancels] at hset ⊢ <;> omega

/-- The command taken up is a request: it leaves the queue for the slot. -/
def Core.Taking (c d : Core) : Prop :=
  ∃ site q rest, c.pc = .handle site (.cancelStep q :: rest) ∧ d.pc = .handle site rest

theorem count_slot_eq_zero {slot : Option String}
    (h : slot ≠ some p) : slot.toList.count p = 0 := by
  cases slot with
  | none => rfl
  | some q => simpa [count_eq_zero, eq_comm] using h

theorem outstanding_cancel (sh : Shared) (p q : String) :
    (sh.cancel q).outstanding p + sh.cancelPrefix.toList.count p =
      sh.outstanding p + [q].count p := by
  obtain ⟨currentCancel, sharedCancel, signals, heq⟩ := sh.cancel_eq q
  simp only [Shared.outstanding, heq, toList_some]
  omega

section Moves

attribute [local simp] Core.goto Core.outstanding Shared.outstanding Pc.commands
  OrchestratorCommand.cancels countP_cons

theorem outstanding_move (hm : Move rt c d) (hcalls : d.shared.calls.length ≤ c.shared.calls.length)
    (hrun : ∀ result held, d.pc ≠ .finished result held)
    (hpark : Core.Parking c d → c.pc.parkable = some p → c.shared.cancelPrefix ≠ some p)
    (htake : Core.Taking c d → c.shared.cancelPrefix ≠ some p) :
    d.outstanding p = c.outstanding p := by
  cases hm with
  | stutter => rfl
  | control hcontrols =>
    unfold Core.outstanding
    rw [outstanding_controls hcontrols hcalls]
  | receive hpc hcommands =>
    simp [hpc, hcommands]
    omega
  | ignore hpc htakes =>
    cases htakes with
    | cancelStep q =>
      have hslot := count_slot_eq_zero (htake ⟨_, _, _, hpc, rfl⟩)
      have hq := outstanding_cancel c.shared p q
      by_cases hp : q = p <;> simp [hp, hpc] at hq hslot ⊢ <;> omega
    | _ => simp [hpc]
  | @cancelBefore a channel hpc hcancel =>
    have hslot : c.shared.cancelPrefix ≠ some p := fun hp =>
      hpark ⟨_, .inl ⟨rfl, _, hpc⟩⟩ (by rw [hpc, ← hp, hcancel, Pc.parkable]) hp
    simp [hpc, count_slot_eq_zero hslot]
  | @cancelAfter a task hpc hcancel =>
    have hslot : c.shared.cancelPrefix ≠ some p := fun hp =>
      hpark ⟨_, .inr ⟨rfl, _, hpc⟩⟩ (by rw [hpc, ← hp, hcancel, Pc.parkable]) hp
    simp [hpc, count_slot_eq_zero hslot]
  | abort hpc | complete hpc | fail => exact absurd rfl (hrun _ _)
  | setPrefix hpc | setCancel hpc | clearCancel hpc | cleared hpc | clearedParked hpc | parked hpc
  | resume hpc =>
    simp [hpc]
  | executed task hpc | reportFailed message hpc => simp [hpc]
  | _ hpc => simp [hpc]

end Moves

theorem parking_eq_some_iff : s.parking = some p ↔ s.Parks ∧ s.pc.parkable = some p := by
  unfold parking Parks
  split <;> simp_all [Pc.parkable, and_comm]

@[simp] theorem after_parkable (pc : Pc) : pc.after.parkable = pc.parkable := by
  cases pc with
  | perform todo next => cases next <;> rfl
  | _ => rfl

theorem taking_step (h : step rt s action = some t) (ht : Core.Taking s.core t.core) :
    action = .tick ∧ ∃ site q rest, s.pc = .handle site (.cancelStep q :: rest) := by
  obtain ⟨site, q, rest, hs, ht⟩ := ht
  have hpc : s.pc = .handle site (.cancelStep q :: rest) :=
    pc_of_core_pc hs fun next => by cases next <;> simp [Next.pc]
  refine ⟨step_eq_tick h (by simp [tick, hpc]) fun he => ?_, site, q, rest, hpc⟩
  simp [core, he, hpc, Pc.after] at ht

theorem step_calls_length (h : step rt s action = some t)
    (hcall : ∀ method, action ≠ .call method) :
    t.calls.length ≤ s.calls.length := by
  cases action with
  | call method => exact absurd rfl (hcall method)
  | control i =>
    simp only [step, State.control] at h
    split at h
    · simp at h
    · obtain rfl := Option.some.inj h
      exact length_eraseIdx_le ..
    · obtain rfl := Option.some.inj h
      rename_i method op rest _
      cases op with
      | readCancel => cases hcancel : s.sharedCancel <;> simp [State.controlOp, hcancel]
      | _ => simp [State.controlOp]
  | _ => rw [own_calls h rfl]

theorem outstanding_step (h : step rt s action = some t) (hcall : ∀ method, action ≠ .call method)
    (hrun : t.Running)
    (hpark : action = .tick → s.parking = some p → s.cancelPrefix ≠ some p)
    (htake : action = .tick → ∀ site q rest, s.pc = .handle site (.cancelStep q :: rest) →
      s.cancelPrefix ≠ some p) :
    t.outstanding p = s.outstanding p := by
  refine outstanding_move (step_move h) (step_calls_length h hcall) ?_ (fun hp hparkable => ?_)
    fun ht => ?_
  · intro result held hfinished
    exact hrun result held
      (pc_of_core_pc hfinished fun next => next.pc_ne_finished result held)
  · obtain ⟨htick, hparks⟩ := parking_step h hp
    exact hpark htick (parking_eq_some_iff.mpr ⟨hparks, by simpa [core] using hparkable⟩)
  · obtain ⟨htick, site, q, rest, hpc⟩ := taking_step h ht
    exact htake htick site q rest hpc

section Outstanding

attribute [local simp] outstanding Core.outstanding Shared.outstanding core shared
  Pc.after Pc.commands

/-- Parking the step that the slot names answers one request. -/
theorem outstanding_parking (h : step rt s .tick = some t) (hp : s.parking = some p)
    (hslot : s.cancelPrefix = some p) : t.outstanding p + 1 = s.outstanding p := by
  have hparkable := (parking_eq_some_iff.mp hp).2
  unfold Pc.parkable at hparkable
  split at hparkable
  · rename_i a channel hpc
    have hcancel := hslot.trans hparkable.symm
    obtain rfl : _ = t := by simpa [step, tick, hpc, hcancel] using h
    simp [hpc, hslot, storePending]
  · rename_i a task hpc
    have hcancel := hslot.trans hparkable.symm
    obtain rfl : _ = t := by
      simpa [step, tick, hpc, resumeSite, decideTask, hcancel] using h
    simp [hpc, hslot, storePending]
  · simp at hparkable

/-- The request taken up takes the place of the one that the slot holds. -/
theorem outstanding_taking {site : Site} {q : String} {rest : List OrchestratorCommand}
    (h : step rt s .tick = some t) (hpc : s.pc = .handle site (.cancelStep q :: rest)) :
    t.pc = .handle site rest ∧
      t.outstanding p + s.cancelPrefix.toList.count p = s.outstanding p := by
  obtain rfl : _ = t := by simpa [step, tick, hpc, handleCommand] using h
  have hcancel := outstanding_cancel s.shared p q
  constructor
  · exact cancelStep_pc q
  · unfold outstanding
    rw [cancelStep_core]
    by_cases hq : q = p <;>
      simp [hq, hpc, output, goto, OrchestratorCommand.cancels] at hcancel ⊢ <;> omega

/-- A call that starts brings the requests it has to send. -/
theorem outstanding_call {method : ControlMethod} (h : step rt s (.call method) = some t) :
    t.outstanding p = s.outstanding p + method.ops.countP (cancels p) := by
  obtain rfl := Option.some.inj h
  simp [unsent_append, unsent_cons]
  simp [unsent]
  omega

end Outstanding

/-- The account is what a step makes of the requests on their way. -/
theorem owed_step (h : step rt s action = some t) (hok : AskedInTurn p s action)
    (hrun : t.Running) : owe p (s.outstanding p) s action = t.outstanding p := by
  cases action with
  | call method =>
    rw [outstanding_call h]
    cases method with
    | cancelStep q =>
      by_cases hq : q = p <;>
        simp [owe, hq, ControlMethod.ops, cancels, OrchestratorCommand.cancels]
    | _ => rfl
  | tick =>
    by_cases hp : s.parking = some p
    · by_cases hslot : s.cancelPrefix = some p
      · have hanswered := outstanding_parking h hp hslot
        simp only [owe, hp, if_true]
        omega
      · -- the task of `p` was cancelled, and no request for it is on its way
        have hstep : t.outstanding p = s.outstanding p :=
          outstanding_step h (by simp) hrun (fun _ _ => hslot) fun _ site q rest hpc => by
            simpa [hpc] using hok rfl
        obtain ⟨hparks, hparkable⟩ := parking_eq_some_iff.mp hp
        have hnone : s.outstanding p = 0 := by
          unfold Pc.parkable at hparkable
          split at hparkable
          · rename_i a channel hpc
            simp only [Parks, hpc] at hparks
            exact absurd (hparks.trans hparkable) hslot
          · rename_i a task hpc
            have hnone := hok rfl
            simp only [hpc] at hnone
            exact hnone (Option.some.inj hparkable) hslot
          · simp at hparkable
        simp [owe, hp, hstep, hnone]
    · have hstep : t.outstanding p = s.outstanding p :=
        outstanding_step h (by simp) hrun (fun _ hp' => absurd hp' hp) fun _ site q rest hpc => by
          simpa [hpc] using hok rfl
      simp [owe, hp, hstep]
  | ack result | subAgentDone result | control i =>
    exact (outstanding_step h (by simp) hrun (by simp) (by simp)).symm

theorem outstanding_pos (hslot : s.cancelPrefix = some p) : 0 < s.outstanding p := by
  simp only [outstanding, Core.outstanding, Shared.outstanding, core,
    shared, hslot,
    toList_some, count_singleton_self]
  omega

/-- What a step does is due if the account agrees with the requests on their way. -/
theorem due_of_askedInTurn (hok : AskedInTurn p s action) : Due p (s, s.outstanding p) action := by
  cases action with
  | tick =>
    simp only [Due]
    split
    · rename_i a channel hpc
      intro hp
      obtain ⟨hparks, hparkable⟩ := parking_eq_some_iff.mp hp
      simp only [Parks, hpc] at hparks
      simp only [hpc, Pc.parkable] at hparkable
      exact outstanding_pos (hparks.trans hparkable)
    · rename_i a task hpc
      intro ha
      have hok := hok rfl
      simp only [hpc] at hok
      have hparkable : s.pc.parkable = some p := by simp [hpc, Pc.parkable, ha]
      by_cases hslot : s.cancelPrefix = some p
      · have hp : s.parking = some p :=
          parking_eq_some_iff.mpr ⟨by simp [Parks, hpc, hslot, ha], hparkable⟩
        exact ⟨fun _ => hp, fun _ => .inl (outstanding_pos hslot)⟩
      · refine ⟨fun hpos => ?_, fun hp => .inr ?_⟩
        · rw [hok ha hslot] at hpos
          exact absurd hpos (lt_irrefl 0)
        · have hparks := (parking_eq_some_iff.mp hp).1
          simp only [Parks, hpc, ha] at hparks
          exact hparks.resolve_left hslot
    · trivial
  | _ => trivial

theorem askedInTurn_of_due (h : step rt s action = some t)
    (hdue : Due p (s, s.outstanding p) action)
    (ht : t.Running → owe p (s.outstanding p) s action = t.outstanding p) :
    AskedInTurn p s action := by
  rintro rfl
  split
  · rename_i site q rest hpc
    intro hslot
    obtain ⟨htpc, htaken⟩ := outstanding_taking (p := p) h hpc
    have howed := ht (by simp [Running, htpc])
    simp [owe, parking, hpc] at howed
    simp [hslot] at htaken
    omega
  · rename_i a task hpc
    intro ha hslot
    by_contra hne
    simp only [Due, hpc] at hdue
    have hp := (hdue ha).1 (Nat.pos_of_ne_zero hne)
    -- the step is parked for its cancelled task alone: no request is taken off its way
    have hparks := (parking_eq_some_iff.mp hp).1
    simp only [Parks, hpc, ha] at hparks
    have hstate := hparks.resolve_left hslot
    have htpc : t.pc = .park a := by
      simp only [step, tick, hpc, resumeSite, decideTask, ha, hslot, if_false,
        hstate, some.injEq] at h
      rw [← h]
      rfl
    have hrun : t.Running := by simp [Running, htpc]
    have hstep : t.outstanding p = s.outstanding p :=
      outstanding_step h (by simp) hrun (fun _ _ => hslot) fun _ _ _ _ _ => hslot
    have howed := ht hrun
    simp only [owe, hp, if_true] at howed
    omega
  · trivial

/-- Requests for `p` are answered in a run exactly if they are asked in turn in it. -/
theorem requests_answered_iff (rt : Runtime) (spec : SpecSheet) (p : String)
    (actions : List Action) (t : State) :
    Answered rt spec p actions t ↔ Steps (step rt) (AskedInTurn p) (.init spec) actions t := by
  constructor
  · rintro ⟨hway, owed, hturn⟩
    have hasked : Steps (watch (step rt) (owe p)) (fun q => AskedInTurn p q.1) (.init spec, 0)
        actions (t, owed) := by
      refine hturn.mono_throughout hway ?_
      rintro ⟨s, n⟩ action ⟨t, m⟩ hdue hstep hs ht
      obtain ⟨hstep, rfl⟩ := watch_eq_some.mp hstep
      by_cases hrun : s.Running
      · have hn : n = s.outstanding p := hs hrun
        subst hn
        exact askedInTurn_of_due hstep hdue ht
      · obtain ⟨result, held, hpc⟩ := finished_of_not_running hrun
        simp [AskedInTurn, hpc]
    exact hasked.unwatch fun _ _ hok => hok
  · intro hsteps
    obtain ⟨owed, hwatched⟩ := hsteps.watch (owe p) 0
    have hway : Throughout (watch (step rt) (owe p))
        (fun q => q.1.Running → q.2 = q.1.outstanding p) (.init spec, 0) actions := by
      refine hwatched.throughout (I := fun q => q.1.Running → q.2 = q.1.outstanding p) ?_
        (fun _ hq => hq) fun _ => rfl
      rintro ⟨s, n⟩ action ⟨t, m⟩ hok hstep hs hrun
      obtain ⟨hstep, rfl⟩ := watch_eq_some.mp hstep
      have hn : n = s.outstanding p := hs (running_of_step hstep hrun)
      subst hn
      exact owed_step hstep hok hrun
    refine ⟨hway, owed, hwatched.mono_throughout hway ?_⟩
    rintro ⟨s, n⟩ action q hok _ hs _
    by_cases hrun : s.Running
    · have hn : n = s.outstanding p := hs hrun
      subst hn
      exact due_of_askedInTurn hok
    · obtain ⟨result, held, hpc⟩ := finished_of_not_running hrun
      cases action <;> simp [Due, hpc]

/-- `cancel_step("2")` and `cancel_step("3")` while step 1 runs; then step 2 is executed. -/
def cancelTwoSteps : List Action :=
  toExecution ++ [.call (.cancelStep "2"), .control 0, .control 0, .control 0,
    .call (.cancelStep "3"), .control 0, .control 0, .control 0,
    .subAgentDone (.ok (sampleDone "1"))] ++ ticks 4 ++ toAcceptance ++ toExecution ++
    [.subAgentDone (.ok (sampleDone "2"))] ++ toAcceptance

theorem second_request_overwrites_first : ∃ t,
    run sampleRuntime (.init (sampleSheet "root" [sampleStep "1", sampleStep "2", sampleStep "3"]))
      cancelTwoSteps = some t ∧ .completed "2" ∈ marks t.log ∧
    ¬ Answered sampleRuntime (sampleSheet "root" [sampleStep "1", sampleStep "2", sampleStep "3"])
      "2" cancelTwoSteps t := by
  obtain ⟨q, hq, hlast, hpc, howed, hway⟩ : ∃ q, Transition.run
    (watch (step sampleRuntime) (owe "2"))
      (.init (sampleSheet "root" [sampleStep "1", sampleStep "2", sampleStep "3"]), 0)
      cancelTwoSteps = some q ∧ (marks q.1.log).getLast? = some (.completed "2") ∧
      q.1.pc = .loopHead ∧ q.2 = 1 ∧ q.1.outstanding "2" = 0 :=
    ⟨_, rfl, rfl, rfl, rfl, rfl⟩
  have hrun : q.1.Running := by simp [Running, hpc]
  refine ⟨q.1, ?_, mem_of_getLast? hlast, fun hanswered => ?_⟩
  · have hsteps : Steps (step sampleRuntime) (fun _ _ => True)
        (.init (sampleSheet "root" [sampleStep "1", sampleStep "2", sampleStep "3"]))
        cancelTwoSteps q.1 := (steps_of_run hq).unwatch fun _ _ _ => trivial
    exact hsteps.run_eq
  · have howes := hanswered.on_their_way _ _ (prefix_refl _) hq hrun
    omega

end ColossalCode.Orchestrator
