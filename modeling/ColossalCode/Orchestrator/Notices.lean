import ColossalCode.Orchestrator.Truthful
import ColossalCode.Transition.Bracket

/-! Status notices of a run, on its event channel and in its calls of `update_spec_status`: which
prefixes are in progress at each control point. -/
namespace ColossalCode.Orchestrator
open List Core

open Protocol Transition

/-- The notice that an entry gives on the event channel; a cancelled step is pending again. -/
def eventNotice : Entry → Option (String × StepStatus)
  | .event (.stepStatusChanged _ _ _ _ p _ status) => some (p, status)
  | .event (.stepCancelled p) => some (p, .pending)
  | _ => none

/-- The notice that an entry gives to the main agent. -/
def callNotice : Entry → Option (String × StepStatus)
  | .call (.updateSpecStatus _ step p) => some (p, step.status)
  | _ => none

/-- The step that is in progress. -/
def Pc.underWay : Pc → Option String
  | .setPrefix a | .setCancel a _ | .cancelCheck a _ | .executing a _ | .clearCancel a _
  | .clearPrefix a _ | .park a | .summarizing a _ _ | .verifying a _ _ | .settle a _ _ =>
    some a.currentPrefix
  | .receive site _ | .handle site _ | .rerunning site _ _ | .reporting _ site _ _ =>
    site.attempt.map Active.currentPrefix
  | _ => none

/-- The agent of a verification that is in progress. -/
def Pc.agent : Pc → Option String
  | .summarizing _ _ context => some (context.stepPrefix ++ ".summary")
  | .verifying _ _ context | .rerunning _ _ context => some (context.stepPrefix ++ ".verify")
  | _ => none

/-- The control point waits for the verifier. -/
def Pc.Verifies (pc : Pc) (context : VerificationContext) : Prop :=
  (∃ a task, pc = .verifying a task context) ∨ ∃ site rest, pc = .rerunning site rest context

/-- The moves after which each prefix in progress is settled once before it is in progress again. -/
structure Core.Settling (rt : Runtime) (c d : Core) : Prop where
  no_park : ¬ Parking c d
  no_split : ∀ a task, c.pc = .handle (.afterExecute a task) [] →
    task.status.state = .submitted → ∀ child, extractSubSpec rt task ≠ .ok (some child)
  summarized : ∀ a task context result rest, c.pc = .summarizing a task context →
    d.trace = c.trace ++ .ran .summarizer (context.stepPrefix ++ ".summary") result :: rest →
      (summarizerResult rt context result).1 ≠ []
  verified : ∀ context result rest, c.pc.Verifies context →
    d.trace = c.trace ++ .ran .verifier (context.stepPrefix ++ ".verify") result :: rest →
      (verifierResult rt context result).1 ≠ []
  rerun : ∀ a task rest context, c.pc = .handle (.afterExecute a task) (.rerunVerifiers :: rest) →
    c.verification = some context → context.stepPrefix ++ ".verify" ≠ a.currentPrefix

/-- A run that goes on, or that has come to its end. -/
def Core.Lasting (c : Core) : Prop :=
  ∀ result held, c.pc = .finished result held → result = .ok () ∧ held = none

/-- The inductive invariant: what is open on either channel is what is in progress. -/
structure Core.Bracketing (c : Core) : Prop where
  no_cancel : c.pc.cancelling = none
  apart : ∀ p, c.pc.underWay = some p → c.pc.agent ≠ some p
  events : Open .inProgress (c.pc.underWay.toList ++ c.pc.agent.toList)
    (c.trace.filterMap eventNotice)
  calls : Open .inProgress c.pc.underWay.toList (c.trace.filterMap callNotice)

variable {rt : Runtime} {c d : Core} {a b : Active} {entries : List Entry}

@[simp] theorem eventNotice_announce (a : Active) :
    (announce a).filterMap eventNotice = [(a.currentPrefix, a.step.status)] := rfl

@[simp] theorem callNotice_announce (a : Active) :
    (announce a).filterMap callNotice = [(a.currentPrefix, a.step.status)] := rfl

/-- An entry that gives no notice. -/
def Entry.Quiet (e : Entry) : Prop := eventNotice e = none ∧ callNotice e = none

@[simp] theorem report_quiet (report : Report) : report.entry.Quiet := by
  cases report <;> exact ⟨rfl, rfl⟩

@[simp] theorem quiet_ran (role : StepRole) (p : String) (result : Except String Task) :
    (Entry.ran role p result).Quiet := ⟨rfl, rfl⟩

@[simp] theorem quiet_execute (step : SpecStep) (spec : SpecSheet) (p : String) :
    (Entry.execute step spec p).Quiet := ⟨rfl, rfl⟩

@[simp] theorem quiet_handled (command : OrchestratorCommand) : (Entry.handled command).Quiet :=
  ⟨rfl, rfl⟩

@[simp] theorem quiet_event (e : OrchestratorEvent) :
    (Entry.event e).Quiet ↔ eventNotice (.event e) = none :=
  ⟨And.left, fun h => ⟨h, rfl⟩⟩

theorem eventNotice_of_quiet (h : ∀ e ∈ entries, e.Quiet) : entries.filterMap eventNotice = [] :=
  filterMap_eq_nil_iff.mpr fun e he => (h e he).1

theorem callNotice_of_quiet (h : ∀ e ∈ entries, e.Quiet) : entries.filterMap callNotice = [] :=
  filterMap_eq_nil_iff.mpr fun e he => (h e he).2

theorem ne_append {p suffix : String} (h : suffix ≠ "") : p ≠ p ++ suffix := by
  intro heq
  have hlength := congrArg String.length heq
  have hpos : suffix.length ≠ 0 := by simpa using h
  rw [String.length_append] at hlength
  omega

variable {context : VerificationContext} {result : Except String Task}

theorem summarizerResult_notices {summary : Except String TaskSummary}
    (h : summarizerResult rt context result = (entries, summary)) (hne : entries ≠ []) :
    ∃ status, status ≠ .inProgress ∧ entries = [.event (summarizerEvent context status)] := by
  have he := summarizerResult_entries rt context result
  rw [h] at he
  exact he.resolve_left hne

theorem verifierResult_notices {payload : Except String VerificationToolPayload}
    (h : verifierResult rt context result = (entries, payload)) (hne : entries ≠ []) :
    ∃ status, status ≠ .inProgress ∧ entries = [.event (verifierEvent context status)] := by
  have he := verifierResult_entries rt context result
  rw [h] at he
  exact he.resolve_left hne

theorem bracketing_quiet (hc : c.Bracketing) (htrace : d.trace = c.trace ++ entries)
    (hquiet : ∀ e ∈ entries, e.Quiet) (hcancel : d.pc.cancelling = none)
    (hstep : d.pc.underWay = c.pc.underWay) (hagent : d.pc.agent = c.pc.agent) :
    d.Bracketing := by
  refine ⟨hcancel, by rw [hstep, hagent]; exact hc.apart, ?_, ?_⟩
  · rw [htrace, filterMap_append, eventNotice_of_quiet hquiet, hstep, hagent, append_nil]
    exact hc.events
  · rw [htrace, filterMap_append, callNotice_of_quiet hquiet, hstep, append_nil]
    exact hc.calls

theorem bracketing_start (hc : c.Bracketing) (htrace : d.trace = c.trace ++ announce a)
    (hstatus : a.step.status = .inProgress) (hcancel : d.pc.cancelling = none)
    (hstep : c.pc.underWay = none) (hagent : c.pc.agent = none)
    (hstep' : d.pc.underWay = some a.currentPrefix) (hagent' : d.pc.agent = none) :
    d.Bracketing := by
  obtain ⟨-, -, hevents, hcalls⟩ := hc
  rw [hstep, hagent] at hevents
  rw [hstep] at hcalls
  refine ⟨hcancel, by simp [hagent'], ?_, ?_⟩
  · rw [htrace, filterMap_append, eventNotice_announce, hstatus, hstep', hagent']
    exact hevents.opens (by simp) (by simp)
  · rw [htrace, filterMap_append, callNotice_announce, hstatus, hstep']
    exact hcalls.opens (by simp) (by simp)

theorem bracketing_settle (hc : c.Bracketing) (htrace : d.trace = c.trace ++ announce b)
    (hstatus : b.step.status ≠ .inProgress) (hcancel : d.pc.cancelling = none)
    (hstep : c.pc.underWay = some b.currentPrefix) (hagent : c.pc.agent = none)
    (hstep' : d.pc.underWay = none) (hagent' : d.pc.agent = none) : d.Bracketing := by
  obtain ⟨-, -, hevents, hcalls⟩ := hc
  rw [hstep, hagent] at hevents
  rw [hstep] at hcalls
  refine ⟨hcancel, by simp [hagent'], ?_, ?_⟩
  · rw [htrace, filterMap_append, eventNotice_announce, hstep', hagent']
    exact hevents.closes hstatus (by simp) (by simp)
  · rw [htrace, filterMap_append, callNotice_announce, hstep']
    exact hcalls.closes hstatus (by simp) (by simp)

theorem bracketing_agent (entries : List Entry) {q : String} (hc : c.Bracketing)
    (htrace : d.trace = c.trace ++ entries)
    (hevents : entries.filterMap eventNotice = [(q, .inProgress)])
    (hcalls : entries.filterMap callNotice = []) (hcancel : d.pc.cancelling = none)
    (hapart : d.pc.underWay ≠ some q) (hstep : d.pc.underWay = c.pc.underWay)
    (hagent : c.pc.agent = none) (hagent' : d.pc.agent = some q) : d.Bracketing := by
  refine ⟨hcancel, fun p hp hq => ?_, ?_, ?_⟩
  · rw [hagent'] at hq
    exact hapart (hp.trans hq.symm)
  · have hopen := hc.events
    rw [hagent, ← hstep] at hopen
    rw [htrace, filterMap_append, hevents, hagent']
    refine hopen.opens ?_ ?_
    · simpa using hapart
    · simp [or_comm]
  · rw [htrace, filterMap_append, hcalls, hstep, append_nil]
    exact hc.calls

/-- An agent of the verification returns, and its notice settles it. -/
theorem bracketing_agentDone (entries : List Entry) {step : SpecStep} {suffix p : String}
    {role role' : StepRole} {status : StepStatus}
    (hc : c.Bracketing) (hstatus : status ≠ .inProgress) (hquiet : ∀ e ∈ entries, e.Quiet)
    (htrace : d.trace = c.trace ++ .ran role p result ::
      ([.event (agentEvent context step suffix role' status)] ++ entries))
    (hcancel : d.pc.cancelling = none) (hstep : d.pc.underWay = c.pc.underWay)
    (hagent : c.pc.agent = some (context.stepPrefix ++ suffix)) (hagent' : d.pc.agent = none) :
    d.Bracketing := by
  refine ⟨hcancel, by simp [hagent'], ?_, ?_⟩
  · rw [htrace, filterMap_append, filterMap_cons_none rfl, filterMap_append,
      eventNotice_of_quiet hquiet, hstep, hagent']
    refine hc.events.closes (q := context.stepPrefix ++ suffix) hstatus ?_ ?_
    · simp [hagent]
    · intro k
      have hapart := hc.apart k
      rw [hagent] at hapart ⊢
      cases hunder : c.pc.underWay with
      | none => simp
      | some p => grind
  · rw [htrace, filterMap_append, filterMap_cons_none rfl, filterMap_append,
      callNotice_of_quiet hquiet, filterMap_cons_none rfl, hstep]
    simpa using hc.calls

section Moves

attribute [local simp] Core.goto Pc.cancelling Pc.underWay Pc.agent Site.attempt eventNotice
  callNotice summarizerEvent verifierEvent agentEvent

theorem bracketing_move (hm : Move rt c d) (hsettling : Settling rt c d) (hd : d.Lasting)
    (hc : c.Lasting → c.Bracketing) : d.Bracketing := by
  cases hm with
  | stutter => exact hc hd
  | control =>
    obtain ⟨hcancel, hapart, hevents, hcalls⟩ := hc hd
    exact ⟨hcancel, hapart, hevents, hcalls⟩
  | fail err => exact absurd (hd _ _ rfl).1 (by simp)
  | abort hpc => exact absurd (hd _ _ rfl).2 (by simp)
  | cancelBefore hpc => exact absurd ⟨_, .inl ⟨rfl, _, hpc⟩⟩ hsettling.no_park
  | cancelAfter hpc | taskCancelled hpc => exact absurd ⟨_, .inr ⟨rfl, _, hpc⟩⟩ hsettling.no_park
  | split hpc _ hstate hchild => exact absurd hchild (hsettling.no_split _ _ hpc hstate _)
  | clearedParked hpc | parked hpc =>
    have hcancel := (hc (by simp [Lasting, hpc])).no_cancel
    simp [hpc] at hcancel
  | complete hpc | execute hpc | report hpc | executed task hpc | reportFailed message hpc
  | inject hpc | setPrefix hpc | setCancel hpc | cleared hpc | pass hpc | reported hpc | push hpc
  | receive hpc | received hpc | wait hpc | exhausted hpc | resume hpc =>
    have hc := hc (by simp [Lasting, hpc])
    exact bracketing_quiet hc rfl (by simp) rfl (by simp [hpc]) (by simp [hpc])
  | pop hpc =>
    have hc := hc (by simp [Lasting, hpc])
    exact bracketing_quiet hc (append_nil _).symm (by simp) rfl (by simp [hpc]) (by simp [hpc])
  | ignore hpc htakes =>
    have hc := hc (by simp [Lasting, hpc])
    refine bracketing_quiet hc rfl ?_ rfl (by simp [hpc]) (by simp [hpc])
    cases htakes <;> simp
  | @clearCancel a task hpc =>
    have hc := hc (by simp [Lasting, hpc])
    refine bracketing_quiet hc rfl (by simp) ?_ (by simp [hpc]) (by simp [hpc])
    have hcancel := hc.no_cancel
    cases task <;> simp [hpc] at hcancel ⊢
  | @commandsDone site hpc hsite =>
    have hc := hc (by simp [Lasting, hpc])
    refine bracketing_quiet hc rfl (by simp) rfl ?_ (by simp [hpc])
    cases site with
    | afterExecute a task => exact absurd rfl (hsite a task)
    | _ => simp [hpc]
  | start hpc =>
    have hc := hc (by simp [Lasting, hpc])
    exact bracketing_start hc rfl (by simp) rfl (by simp [hpc]) (by simp [hpc]) rfl rfl
  | taskFailed hpc | retry hpc | reject hpc =>
    have hc := hc (by simp [Lasting, hpc])
    exact bracketing_settle hc rfl (by simp [rejectedStep]) rfl (by simp [hpc, rejectedStep])
      (by simp [hpc]) rfl rfl
  | accept hpc =>
    have hc := hc (by simp [Lasting, hpc])
    exact bracketing_settle hc rfl (by simp [completedStep]) rfl
      (by simp [hpc, completedStep_currentPrefix]) (by simp [hpc]) rfl rfl
  | summarize hpc =>
    have hc := hc (by simp [Lasting, hpc])
    refine bracketing_agent _ hc rfl rfl rfl rfl ?_ (by simp [hpc]) (by simp [hpc]) rfl
    simp [State.verificationContext, ne_append]
  | @rerun site rest context hpc hcontext =>
    have hc := hc (by simp [Lasting, hpc])
    refine bracketing_agent _ hc rfl rfl rfl rfl ?_ (by simp [hpc]) (by simp [hpc]) rfl
    cases site with
    | afterExecute a task => simpa [eq_comm] using hsettling.rerun a task rest context hpc hcontext
    | _ => simp
  | summarizerFailed hpc hresult | summarizedPass hpc hrequires hresult =>
    have hc := hc (by simp [Lasting, hpc])
    have hne := hsettling.summarized _ _ _ _ _ hpc rfl
    obtain ⟨status, hstatus, rfl⟩ := summarizerResult_notices hresult (by simpa [hresult] using hne)
    exact bracketing_agentDone _ hc hstatus (by simp) rfl rfl (by simp [hpc]) (by simp [hpc]) rfl
  | @summarized a task context result entries summary next hpc hrequires hresult hnext =>
    have hc := hc (by simp [Lasting, hpc])
    have hne := hsettling.summarized _ _ _ _ _ hpc rfl
    obtain ⟨status, hstatus, rfl⟩ := summarizerResult_notices hresult (by simpa [hresult] using hne)
    -- the summarizer is done before the verifier starts
    have hdone : Bracketing (c.goto (.settle a task .retry)
        [.ran .summarizer (context.stepPrefix ++ ".summary") result,
          .event (summarizerEvent context status)]) :=
      bracketing_agentDone [] hc hstatus (by simp) rfl rfl (by simp [hpc])
        (by simp [hpc]) rfl
    refine bracketing_agent (verifierStart next) hdone ?_ rfl rfl rfl ?_ rfl rfl rfl
    · simp
    · simp [hnext, State.verificationContext, ne_append]
  | verified hpc hresult =>
    have hc := hc (by simp [Lasting, hpc])
    have hne := hsettling.verified _ _ _ (.inl ⟨_, _, hpc⟩) rfl
    obtain ⟨status, hstatus, rfl⟩ := verifierResult_notices hresult (by simpa [hresult] using hne)
    exact bracketing_agentDone _ hc hstatus (by simp) rfl rfl (by simp [hpc]) (by simp [hpc]) rfl
  | reverified hpc hresult =>
    have hc := hc (by simp [Lasting, hpc])
    have hne := hsettling.verified _ _ _ (.inr ⟨_, _, hpc⟩) rfl
    obtain ⟨status, hstatus, rfl⟩ := verifierResult_notices hresult (by simpa [hresult] using hne)
    exact bracketing_agentDone [] hc hstatus (by simp) rfl rfl (by simp [hpc])
      (by simp [hpc]) rfl

end Moves

end ColossalCode.Orchestrator
