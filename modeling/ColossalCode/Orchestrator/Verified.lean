import ColossalCode.Orchestrator.Declared
import ColossalCode.Orchestrator.Drive
import ColossalCode.Transition.Monitor

/-! A step that requires verification is completed only by its verifier. -/
namespace ColossalCode.Orchestrator

open Protocol Transition

variable {rt : Runtime} {spec : SpecSheet} {s : State} {c d : Core}
  {actions : List Action} {p : String}

/-- The task's last `submit_verification` call says verified and ends the conversation. -/
def SubmitsVerified (rt : Runtime) (task : Task) : Prop :=
  ∃ log entry payload, toolLog task = some log ∧ lastSubmission log = some entry ∧
    (rt.payloadOfJson (entryArguments entry)).or (rt.payloadOfYaml (entryArguments entry)) =
      some payload ∧
    mapVerificationOutcome payload.status = .verified ∧ payload.endConvo = true

/-- The last execution of a step, with the result of the last verifier that was run after it. -/
structure Attempt where
  step : SpecStep
  stepPrefix : String
  verifier : Option (String × Except String Task)

def Attempt.read (attempt : Option Attempt) : Entry → Option Attempt
  | .execute step _ p => some ⟨step, p, none⟩
  | .ran .verifier p result => attempt.map ({ · with verifier := some (p, result) })
  | _ => attempt

/-- The attempt may complete the step with the prefix: it is one of that step, and if the step
requires verification, the verifier run last for it submitted that it is verified. -/
structure Attempt.Completes (rt : Runtime) (attempt : Attempt) (p : String) : Prop where
  stepPrefix_eq : attempt.stepPrefix = p
  verified : attempt.step.requiresVerification = true →
    ∃ task, attempt.verifier = some (p ++ ".verify", .ok task) ∧ SubmitsVerified rt task

/-- The step, by its prefix, that an entry gives the status `Completed`. -/
def Entry.completes : Entry → Option String
  | .event (.stepStatusChanged _ _ _ _ p .implementor .completed) => some p
  | .call (.updateSpecStatus _ step p) => if step.status = .completed then some p else none
  | _ => none

/-- Whether the step that an entry hands to the main agent requires verification. -/
def Entry.requiresVerification : Entry → Option Bool
  | .call (.updateSpecStatus _ step _) => some step.requiresVerification
  | _ => none

/-- A step is given the status `Completed` only by an attempt that completes it. -/
def attempts (rt : Runtime) : Monitor Entry (Option Attempt) where
  next := Attempt.read
  rule attempt e := ∀ p, e.completes = some p → ∃ x, attempt = some x ∧ x.Completes rt p ∧
    ∀ required, e.requiresVerification = some required → x.step.requiresVerification = required

/-- The inductive invariant: the step under way is the one of the last attempt, and where it is
about to be completed, the attempt completes it. -/
structure Core.Verified (rt : Runtime) (c : Core) : Prop where
  obeys : (attempts rt).Obeys none c.trace
  attempt : ∀ a, c.pc.attempt = some a → ∃ x, (attempts rt).after none c.trace = some x ∧
    x.step = a.step ∧ x.stepPrefix = a.currentPrefix
  settled : ∀ a task summary, c.pc = .settle a task (.success summary) →
    ∃ x, (attempts rt).after none c.trace = some x ∧ x.Completes rt a.currentPrefix
  context : ∀ a task context, c.pc = .verifying a task context →
    context.stepPrefix = a.currentPrefix

variable {e : Entry} {entries trace : List Entry} {context : VerificationContext}
  {result : Except String Task} {a : Active}

theorem ignores_cons (hcompletes : e.completes = none)
    (hread : ∀ attempt, Attempt.read attempt e = attempt) (h : (attempts rt).Ignores entries) :
    (attempts rt).Ignores (e :: entries) :=
  h.cons fun attempt => ⟨hread attempt, fun p hp => by simp [hcompletes] at hp⟩

theorem ignores_entry (hcompletes : e.completes = none)
    (hread : ∀ attempt, Attempt.read attempt e = attempt) : (attempts rt).Ignores [e] :=
  ignores_cons hcompletes hread Monitor.ignores_nil

theorem ignores_reports (reports : List Report) :
    (attempts rt).Ignores (reports.map Report.entry) := by
  induction reports with
  | nil => exact Monitor.ignores_nil
  | cons report reports ih => cases report <;> exact ignores_cons rfl (fun _ => rfl) ih

theorem AgentReport.ignored (rt : Runtime) (h : AgentReport entries) :
    (attempts rt).Ignores entries := by
  cases h with
  | nothing => exact Monitor.ignores_nil
  | ended context step suffix hrole status =>
    rename_i role
    cases role with
    | implementor => exact absurd rfl hrole
    | _ => exact ignores_entry rfl fun _ => rfl

theorem ignores_announce (h : a.step.status ≠ .completed) :
    (attempts rt).Ignores (announce a) := by
  refine ignores_cons ?_ (fun _ => rfl) (ignores_entry ?_ fun _ => rfl)
  · cases hs : a.step.status with
    | completed => exact absurd hs h
    | _ => rfl
  · simp [Entry.completes, h]

theorem extractVerificationPayload_eq_ok {task : Task} {payload : VerificationToolPayload}
    (h : extractVerificationPayload rt task = .ok payload) :
    ∃ log entry, toolLog task = some log ∧ lastSubmission log = some entry ∧
      (rt.payloadOfJson (entryArguments entry)).or (rt.payloadOfYaml (entryArguments entry)) =
        some payload := by
  unfold extractVerificationPayload at h
  cases hlog : toolLog task with
  | none => simp [hlog] at h
  | some log =>
    cases hentry : lastSubmission log with
    | none => simp [hlog, hentry] at h
    | some entry =>
      simp only [hlog, hentry] at h
      refine ⟨log, entry, rfl, hentry, ?_⟩
      split at h
      · simp at h
      · rename_i parsed hparsed
        rw [hparsed, Except.ok.inj h]

/-- A verdict of success is a submission that says verified. -/
theorem submitsVerified_of_submitted (h : (verdict (submitted rt result)).1 = .verified) :
    ∃ task, result = .ok task ∧ SubmitsVerified rt task := by
  cases result with
  | error err => simp [submitted, verdict] at h
  | ok task =>
    refine ⟨task, rfl, ?_⟩
    by_cases hfailed : task.status.state = .failed
    · simp [submitted, hfailed, verdict] at h
    · cases hpayload : extractVerificationPayload rt task with
      | error err => simp [submitted, hfailed, hpayload, bind, Except.bind, verdict] at h
      | ok payload =>
        obtain ⟨log, entry, hlog, hentry, hparsed⟩ := extractVerificationPayload_eq_ok hpayload
        cases hend : payload.endConvo with
        | false => simp [submitted, hfailed, hpayload, hend, bind, Except.bind, verdict] at h
        | true =>
          refine ⟨log, entry, payload, hlog, hentry, hparsed, ?_, hend⟩
          simpa [submitted, hfailed, hpayload, hend, bind, Except.bind, verdict] using h

theorem conclude_success {summary summary' : TaskSummary} {outcome : VerificationOutcome}
    {feedback : Option String} (h : (conclude summary outcome feedback).disposition =
      .success summary') :
    outcome = .verified := by
  cases outcome <;> simp [conclude] at h ⊢

/-- Entries that complete nothing leave the invariant as it is, where no step that requires
verification is about to be completed. -/
theorem verified_of_ignored (entries : List Entry) (hc : c.Verified rt)
    (hignores : (attempts rt).Ignores entries) (htrace : d.trace = c.trace ++ entries)
    (hattempt : ∀ a, d.pc.attempt = some a → c.pc.attempt = some a)
    (hsettled : ∀ a task summary, d.pc = .settle a task (.success summary) →
      a.step.requiresVerification = false)
    (hcontext : ∀ a task context, d.pc = .verifying a task context →
      context.stepPrefix = a.currentPrefix) : d.Verified rt := by
  have hafter : (attempts rt).after none d.trace = (attempts rt).after none c.trace := by
    rw [htrace, Monitor.after_append, hignores.after_eq]
  refine ⟨?_, fun a h => ?_, fun a task summary h => ?_, hcontext⟩
  · rw [htrace, Monitor.obeys_append]
    exact ⟨hc.obeys, hignores.obeys⟩
  · rw [hafter]
    exact hc.attempt a (hattempt a h)
  · rw [hafter]
    obtain ⟨x, hx, hstep, hp⟩ := hc.attempt a (hattempt a (by rw [h]; rfl))
    refine ⟨x, hx, hp, fun hrequires => ?_⟩
    rw [hstep, hsettled a task summary h] at hrequires
    simp at hrequires

theorem obeys_verifier {q : String}
    (hignores : (attempts rt).Ignores entries) (h : (attempts rt).Obeys none trace) :
    (attempts rt).Obeys none (trace ++ .ran .verifier q result :: entries) :=
  Monitor.obeys_append.mpr ⟨h, by simp [attempts, Entry.completes], hignores.obeys⟩

theorem after_verifier (q : String) (result : Except String Task)
    {x : Attempt} (hignores : (attempts rt).Ignores entries)
    (hx : (attempts rt).after none trace = some x) :
    (attempts rt).after none (trace ++ .ran .verifier q result :: entries) =
      some { x with verifier := some (q, result) } := by
  rw [Monitor.after_append, Monitor.after_cons, hignores.after_eq, hx]
  rfl

theorem completes_announce (he : e ∈ announce a)
    (hp : e.completes = some p) : p = a.currentPrefix := by
  obtain rfl | rfl : e = .event (statusEvent a a.step.status) ∨
      e = .call (.updateSpecStatus a.spec a.step a.currentPrefix) := by simpa [announce] using he
  · cases hs : a.step.status <;> simp_all [statusEvent, Entry.completes]
  · by_cases hs : a.step.status = .completed <;> simp_all [Entry.completes]

theorem requiresVerification_announce {required : Bool}
    (he : e ∈ announce a) (h : e.requiresVerification = some required) :
    a.step.requiresVerification = required := by
  obtain rfl | rfl : e = .event (statusEvent a a.step.status) ∨
      e = .call (.updateSpecStatus a.spec a.step a.currentPrefix) := by simpa [announce] using he
  · simp [Entry.requiresVerification] at h
  · simpa [Entry.requiresVerification] using h

theorem completedStep_requiresVerification (a : Active) (child : Option SpecSheet) (value : Value) :
    (completedStep a child value).step.requiresVerification = a.step.requiresVerification := by
  cases child <;> simp [completedStep, Active.setSubSpec]

section Moves

attribute [local simp] Core.goto Pc.attempt Site.attempt

theorem verified_move (hm : Move rt c d) (hc : c.Verified rt) : d.Verified rt := by
  cases hm with
  | stutter | control => exact ⟨hc.obeys, hc.attempt, hc.settled, hc.context⟩
  | receive hpc | received hpc | reported hpc | pop hpc | commandsDone hpc | wait hpc
  | exhausted hpc | setPrefix hpc | setCancel hpc | cancelBefore hpc | clearCancel hpc
  | cleared hpc | clearedParked hpc | cancelAfter hpc | taskCancelled hpc | push hpc =>
    exact verified_of_ignored [] hc Monitor.ignores_nil (by simp) (by simp [hpc])
      (by simp) (by simp)
  | complete hpc | parked hpc | executed _ hpc | split hpc | summarize hpc =>
    exact verified_of_ignored _ hc (ignores_entry rfl fun _ => rfl) rfl (by simp [hpc])
      (by simp) (by simp)
  | abort hpc | rerun hpc | inject hpc | resume hpc =>
    exact verified_of_ignored _ hc
      (ignores_cons rfl (fun _ => rfl) (ignores_entry rfl fun _ => rfl)) rfl
      (by simp [hpc]) (by simp) (by simp)
  | ignore hpc htakes =>
    refine verified_of_ignored _ hc (ignores_cons rfl (fun _ => rfl) ?_) rfl (by simp [hpc])
      (by simp) (by simp)
    cases htakes <;> first | exact Monitor.ignores_nil | exact ignores_entry rfl fun _ => rfl
  | start hpc | retry hpc | taskFailed hpc =>
    exact verified_of_ignored _ hc (ignores_announce (by simp)) rfl (by simp) (by simp) (by simp)
  | reject hpc =>
    exact verified_of_ignored _ hc (ignores_announce (by simp [rejectedStep])) rfl (by simp)
      (by simp) (by simp)
  | pass hpc hcancel hfinishes hrequires =>
    refine verified_of_ignored _ hc (ignores_reports _) rfl (by simp [hpc]) ?_ (by simp)
    simp_all
  | @report report todo site rest summary hpc =>
    exact verified_of_ignored _ hc (ignores_reports [report]) rfl (by simp [hpc])
      (by simp) (by simp)
  | @reportFailed report todo site rest summary message hpc =>
    exact verified_of_ignored _ hc ((ignores_reports [report]).append
      (ignores_entry rfl fun _ => rfl)) rfl (by simp [hpc]) (by simp) (by simp)
  | summarizerFailed hpc hresult =>
    exact verified_of_ignored _ hc (ignores_cons rfl (fun _ => rfl)
      (((summarizer_report hresult).ignored rt).append (ignores_reports _))) rfl (by simp [hpc])
        (by simp) (by simp)
  | summarized hpc hrequires hresult hnext =>
    exact verified_of_ignored _ hc
      (ignores_cons rfl (fun _ => rfl) (((summarizer_report hresult).ignored rt).append
      (ignores_cons rfl (fun _ => rfl)
        (ignores_cons rfl (fun _ => rfl) (ignores_entry rfl fun _ => rfl))))) rfl
      (by simp [hpc]) (by simp) (by simp [hnext, State.verificationContext])
  | summarizedPass hpc hrequires hresult =>
    refine verified_of_ignored _ hc (ignores_cons rfl (fun _ => rfl)
      (((summarizer_report hresult).ignored rt).append (ignores_reports _))) rfl (by simp [hpc])
      ?_ (by simp)
    simp_all
  | @execute a channel hpc =>
    refine ⟨?_, fun b h => ?_, by simp, by simp⟩
    · simpa using ⟨hc.obeys, by simp [attempts, Entry.completes]⟩
    · obtain rfl : a = b := by simpa using h
      exact ⟨⟨a.step, a.currentPrefix, none⟩, by simp [attempts, Attempt.read], rfl, rfl⟩
  | @verified a task context result entries payload conclusion hpc hresult hconclusion =>
    obtain ⟨x, hx, hstep, hp⟩ := hc.attempt a (by simp [hpc])
    have hignores := ((verifier_report hresult).ignored rt).append
      (ignores_reports conclusion.reports)
    have hafter := after_verifier (context.stepPrefix ++ ".verify") result hignores hx
    refine ⟨obeys_verifier hignores hc.obeys, fun b h => ?_, fun b task' summary h => ?_, by simp⟩
    · obtain rfl : a = b := by simpa using h
      exact ⟨_, hafter, hstep, hp⟩
    · obtain ⟨rfl, rfl, hdisposition⟩ : a = b ∧ task = task' ∧
          conclusion.disposition = .success summary := by simpa using h
      refine ⟨_, hafter, hp, fun _ => ?_⟩
      have hpayload := verifierResult_snd rt context result
      rw [hresult] at hpayload
      obtain rfl : payload = submitted rt result := hpayload
      rw [hconclusion] at hdisposition
      obtain ⟨task', rfl, hsubmits⟩ := submitsVerified_of_submitted (conclude_success hdisposition)
      exact ⟨task', by rw [hc.context a task context hpc], hsubmits⟩
  | @reverified site rest context result entries payload reports summary hpc hresult =>
    have hignores := (verifier_report hresult).ignored rt
    refine ⟨obeys_verifier hignores hc.obeys, fun b h => ?_, by simp, by simp⟩
    obtain ⟨x, hx, hstep, hp⟩ := hc.attempt b (by simpa [hpc] using h)
    exact ⟨_, after_verifier _ _ hignores hx, hstep, hp⟩
  | @accept a task summary child value hpc hchild hvalue =>
    refine ⟨Monitor.obeys_append.mpr ⟨hc.obeys, ?_⟩, by simp, by simp, by simp⟩
    obtain ⟨x, hx, hcompletes⟩ := hc.settled a task summary hpc
    obtain ⟨y, hy, hstep, -⟩ := hc.attempt a (by simp [hpc])
    obtain rfl : x = y := Option.some.inj (hx.symm.trans hy)
    rw [hx]
    have hrule : ∀ e ∈ announce (completedStep a child value), (attempts rt).rule (some x) e := by
      intro e he p hp
      rw [completes_announce he hp, completedStep_currentPrefix]
      refine ⟨x, rfl, hcompletes, fun required h => ?_⟩
      rw [hstep, ← requiresVerification_announce he h, completedStep_requiresVerification]
    exact ⟨hrule _ List.mem_cons_self, hrule _ (List.mem_cons_of_mem _ List.mem_cons_self), trivial⟩
  | fail err ran trace hran htrace =>
    refine ⟨Monitor.Obeys.of_isPrefix ?_ htrace, by simp, by simp, by simp⟩
    rw [Monitor.obeys_append]
    refine ⟨hc.obeys, Monitor.Ignores.obeys fun e he => ?_⟩
    obtain ⟨p, result, rfl⟩ := hran e he
    exact ignores_entry rfl (fun _ => rfl) _ (List.mem_singleton_self _)

end Moves

theorem verified_init : (State.init spec).core.Verified rt := by
  constructor <;> simp [State.core, State.init, Pc.after, Pc.todo, Pc.attempt]

/-- Whatever gives a step the status `Completed`, in an event or in a call on the main agent, is
preceded by an attempt on that step; and if the step requires verification, the verifier run last
for the attempt made a `submit_verification` call, its last one, that says verified. -/
theorem completed_only_verified {e : Entry} {pre post : List Entry} (h : Reachable rt spec s)
    (hlog : s.log = pre ++ e :: post) (hp : e.completes = some p) :
    ∃ x, (attempts rt).after none pre = some x ∧ x.Completes rt p ∧
      ∀ required, e.requiresVerification = some required →
        x.step.requiresVerification = required := by
  obtain ⟨actions, hrun⟩ := h
  have hverified : s.core.Verified rt := run_invariant (P := fun s => s.core.Verified rt) hrun
    (fun _ _ _ hstep hs => verified_move (step_move hstep) hs) verified_init
  have hobeys := hverified.obeys.of_isPrefix (List.prefix_append s.log s.pc.todo)
  rw [hlog] at hobeys
  exact hobeys.rule_at p hp

/-- A verifier asks for a revision of the first step, and that of its second attempt accepts it. -/
def reviseFirst : List Action :=
  toExecution ++ toVerdict "1" "needs_revision" ++ toRejection ++ ticks 1 ++ toExecution ++
    toVerdict "1" "verified" ++ [.ack (.ok ()), .tick, .ack (.ok ()), .tick,
      .ack (.ok ())] ++ ticks 3

theorem completed_only_verified_revised : ∃ s pre e,
    run sampleRuntime (.init verifiedFirst) reviseFirst = some s ∧ s.log = pre ++ [e] ∧
    e.completes = some "1" ∧
    ∃ x, (attempts sampleRuntime).after none pre = some x ∧ x.Completes sampleRuntime "1" ∧
      ∀ required, e.requiresVerification = some required →
        x.step.requiresVerification = required := by
  obtain ⟨s, e, hs, hlast, he⟩ : ∃ s e, run sampleRuntime (.init verifiedFirst) reviseFirst =
      some s ∧ s.log.getLast? = some e ∧ e.completes = some "1" := ⟨_, _, rfl, rfl, rfl⟩
  have hlog : s.log = s.log.dropLast ++ [e] := (List.dropLast_append_getLast? e hlast).symm
  exact ⟨s, s.log.dropLast, e, hs, hlog, he, completed_only_verified ⟨_, hs⟩ hlog he⟩

end ColossalCode.Orchestrator
