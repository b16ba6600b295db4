import ColossalCode.Orchestrator.Drive

/-! An uncontrolled run executes the steps of its plan in the order of the recursive walk. -/
namespace ColossalCode.Orchestrator
open List Option Plan

open Protocol Transition

variable {rt : Runtime} {replies : ℕ → Reply} {spec : SpecSheet} {s t : State} {v w : View}
  {stack rest frames : List Frame} {executed : List (String × SpecStep)} {p : String}
  {steps : List SpecStep} {fuel : ℕ}

/-- A part of the stack that is left with `steps` to run at `p`: no frame where none are left. -/
def Stands (frames : List Frame) (p : String) (steps : List SpecStep) : Prop :=
  (frames = [] ∧ steps = []) ∨
    ∃ frame, frames = [frame] ∧ frame.framePrefix = p ∧
      frame.spec.steps.drop frame.stepIdx = steps

theorem stands_setStep (a : Active) (step : SpecStep) : Stands [(a.setStep step).toFrame]
    a.framePrefix (step :: a.spec.steps.drop (a.stepIdx + 1)) :=
  .inr ⟨_, rfl, rfl, a.setStep_drop step⟩

/-- The frames that a step leaves above the rest of the stack, by its outcome. -/
def Realizes (a : Active) (stack : List Frame) : Outcome SpecStep → Prop
  | .split child next => ∃ below back, stack = below ++ back ∧
      Stands below a.currentPrefix child ∧
      Stands back a.framePrefix (next :: a.spec.steps.drop (a.stepIdx + 1))
  | .advance none => Stands stack a.framePrefix (a.spec.steps.drop (a.stepIdx + 1))
  | .advance (some child) => ∃ below later, stack = below ++ later ∧
      Stands below a.currentPrefix child ∧
      Stands later a.framePrefix (a.spec.steps.drop (a.stepIdx + 1))
  | .again step => Stands stack a.framePrefix (step :: a.spec.steps.drop (a.stepIdx + 1))
  | .leave => stack = []

theorem realizes_accepted (a : Active) (child : Option SpecSheet) (value : Value) :
    Realizes a (acceptedFrames a (completedStep a child value) child).reverse
      (.advance (child.map (·.steps))) := by
  have hnext : (completedStep a child value).next.framePrefix = a.framePrefix ∧
      (completedStep a child value).next.spec.steps.drop (a.stepIdx + 1) =
        a.spec.steps.drop (a.stepIdx + 1) := by
    cases child <;> simp [completedStep, Active.next, Active.setMetadata, Active.setStatus,
      Active.setStep, Active.setSubSpec, drop_set_of_lt]
  have hlater : Stands (if a.stepIdx + 1 < a.spec.steps.length then
      [(completedStep a child value).next] else []) a.framePrefix
        (a.spec.steps.drop (a.stepIdx + 1)) := by
    by_cases hlt : a.stepIdx + 1 < a.spec.steps.length
    · rw [if_pos hlt]
      refine .inr ⟨_, rfl, hnext.1, ?_⟩
      have hidx : (completedStep a child value).next.stepIdx = a.stepIdx + 1 := by
        cases child <;> rfl
      rw [hidx]
      exact hnext.2
    · rw [if_neg hlt]
      exact .inl ⟨rfl, drop_eq_nil_of_le (Nat.le_of_not_lt hlt)⟩
  cases child with
  | none =>
    have hreverse : (acceptedFrames a (completedStep a none value) none).reverse =
        if a.stepIdx + 1 < a.spec.steps.length then [(completedStep a none value).next]
        else [] := by
      simp only [acceptedFrames, append_nil]
      split <;> rfl
    rw [hreverse]
    exact hlater
  | some sub =>
    refine ⟨[⟨sub, 0, a.currentPrefix⟩], _, ?_, .inr ⟨_, rfl, rfl, rfl⟩, hlater⟩
    simp only [acceptedFrames]
    split <;> simp

theorem outcome_of_finished {reply : Reply} {child : Option SpecSheet} (step : SpecStep)
    (hchild : extractSubSpec rt reply.task = .ok child)
    (hfailed : reply.task.status.state ≠ .failed)
    (hsplit : ¬ (reply.task.status.state = .submitted ∧ child.isSome)) :
    reply.outcome rt step = reply.verification rt step child := by
  cases child <;> cases hstate : reply.task.status.state <;>
    simp_all [Reply.outcome, Except.toOption]

/-- What the run makes of an executed step is what the walk makes of its outcome. -/
theorem goes_outcome (hvalue : ∀ summary, ∃ value, rt.valueOfSummary summary = .ok value)
    {a : Active} {reply : Reply}
    (hsummarizer : (replies (executed.length - 1)).summarizer = reply.summarizer)
    (hverifier : (replies (executed.length - 1)).verifier = reply.verifier)
    (hproper : reply.Proper rt) :
    ∃ frames, Realizes a frames (reply.outcome rt a.step) ∧
      Goes rt replies ⟨.handle (.afterExecute a reply.task) [], stack, executed⟩
        ⟨.loopHead, frames ++ stack, executed⟩ := by
  by_cases hfailed : reply.task.status.state = .failed
  · refine ⟨[(a.setStatus .failed).next], ?_, goes_failed hfailed⟩
    simp only [Reply.outcome, hfailed, Realizes]
    refine .inr ⟨_, rfl, rfl, ?_⟩
    simp [Active.next, Active.setStatus, Active.setStep, drop_set_of_lt]
  obtain ⟨child, hchild, hsummary⟩ := hproper.decodes hfailed
  by_cases hsplit : reply.task.status.state = .submitted ∧ child.isSome
  · obtain ⟨hsubmitted, hsome⟩ := hsplit
    obtain ⟨sub, rfl⟩ := isSome_iff_exists.mp hsome
    let back := (a.setStatus .pending).setSubSpec sub
    have hback : back =
        a.setStep { a.step with status := .pending, subSpec := some sub } := by
      simp [back, Active.setSubSpec, Active.setStatus]
    refine ⟨[⟨sub, 0, a.currentPrefix⟩] ++ [back.toFrame], ?_, goes_split hsubmitted hchild⟩
    simp only [Reply.outcome, hsubmitted, hchild, Except.toOption, join_some, Realizes]
    exact ⟨_, _, rfl, .inr ⟨_, rfl, rfl, rfl⟩, hback ▸ stands_setStep a _⟩
  have hsubmitted : reply.task.status.state = .submitted →
      extractSubSpec rt reply.task = .ok none := by
    intro hstate
    cases child with
    | none => exact hchild
    | some sub => exact absurd ⟨hstate, rfl⟩ hsplit
  obtain ⟨summary, hsummary⟩ := hsummary.resolve_left hsplit
  have hcancelled := hproper.not_cancelled
  let context := State.verificationContext rt a reply.task summary
  rw [outcome_of_finished a.step hchild hfailed hsplit, Reply.verification]
  by_cases hrequires : a.step.requiresVerification = true
  · rw [if_pos hrequires]
    by_cases hs : summarizes rt reply.summarizer = true
    · obtain ⟨entries, summary', hresult⟩ := summarizerResult_of_summarizes context hs
      let context' := State.verificationContext rt a reply.task
        (markSummary { summary' with stepIndex := a.step.index } .pending)
      have hverified :
          Goes rt replies ⟨.handle (.afterExecute a reply.task) [], stack, executed⟩ _ :=
        (goes_summarizing hcancelled hfailed hsubmitted hsummary hrequires).trans <|
          (goes_summarized hrequires (hsummarizer ▸ hresult)).trans
            (goes_verified a reply.task context')
      rw [hverifier] at hverified
      rw [if_pos hs]
      cases ho : (verdict (submitted rt reply.verifier)).1 with
      | verified =>
        simp only [ho, conclude] at hverified
        obtain ⟨value, hvalue⟩ := hvalue (markSummary context'.summary .passed)
        exact ⟨_, realizes_accepted a child value, hverified.trans (goes_accepted hvalue hchild)⟩
      | needsRevision =>
        simp only [ho, conclude] at hverified
        exact ⟨[(a.setStatus .pending).toFrame], stands_setStep a _,
          hverified.trans (goes_again _ _)⟩
      | failed =>
        simp only [ho, conclude] at hverified
        obtain ⟨value, hvalue⟩ := hvalue _
        exact ⟨[], rfl, hverified.trans (goes_rejected hvalue)⟩
    · obtain ⟨entries, message, hresult⟩ := summarizerResult_of_not_summarizes context hs
      rw [if_neg hs]
      refine ⟨[(a.setStatus .pending).toFrame], stands_setStep a _, ?_⟩
      exact (goes_summarizing hcancelled hfailed hsubmitted hsummary hrequires).trans
        ((goes_sent_back (hsummarizer ▸ hresult)).trans (goes_again _ _))
  · obtain ⟨value, hvalue⟩ := hvalue (markSummary summary .passed)
    rw [if_neg hrequires]
    refine ⟨_, realizes_accepted a child value, ?_⟩
    exact (goes_passed hcancelled hfailed hsubmitted hsummary (by simpa using hrequires)).trans
      (goes_accepted hvalue hchild)

/-- From `v`, the run executes the trace of `w`, and is then back at `rest` if `w` ends. -/
def Walks (rt : Runtime) (replies : ℕ → Reply) (v : View) (rest : List Frame)
    (executed : List (String × SpecStep)) (w : Walk (String × SpecStep)) : Prop :=
  ∃ u, Goes rt replies v u ∧ u.executed = executed ++ w.trace ∧
    (w.ends = true → u.pc = .loopHead ∧ u.stack = rest)

variable {w : Walk (String × SpecStep)}

theorem Walks.of_goes {u : View} (h : Goes rt replies u v)
    (hw : Walks rt replies v rest executed w) : Walks rt replies u rest executed w := by
  obtain ⟨x, hx, hex, hend⟩ := hw
  exact ⟨x, h.trans hx, hex, hend⟩

theorem Walks.cons {e : String × SpecStep} (h : Walks rt replies v rest (executed ++ [e]) w) :
    Walks rt replies v rest executed (w.cons e) := by
  obtain ⟨x, hx, hex, hend⟩ := h
  exact ⟨x, hx, by simpa using hex, hend⟩

theorem Walks.andThen
    {next : ℕ → Walk (String × SpecStep)} (h : Walks rt replies v frames executed w)
    (hnext : Walks rt replies ⟨.loopHead, frames, executed ++ w.trace⟩ rest (executed ++ w.trace)
      (next w.trace.length)) : Walks rt replies v rest executed (w.andThen next) := by
  obtain ⟨x, hx, hex, hend⟩ := h
  cases he : w.ends with
  | true =>
    obtain ⟨hpc, hstack⟩ := hend he
    obtain rfl : x = ⟨.loopHead, frames, executed ++ w.trace⟩ := by
      cases x
      simp_all
    obtain ⟨y, hy, hexy, hendy⟩ := hnext
    rw [Walk.andThen_of_ends next he]
    exact ⟨y, hx.trans hy, by simpa using hexy, hendy⟩
  | false =>
    rw [Walk.andThen_of_not_ends next he]
    exact ⟨x, hx, hex, by simp [he]⟩

/-- The walk of the steps that a part of the stack stands for, given the walk of its frame. -/
theorem walks_of_stands (h : Stands frames p steps)
    (hframe : ∀ frame rest executed, Walks rt replies ⟨.loopHead, frame :: rest, executed⟩ rest
      executed (Plan.walk (planRules rt replies) fuel frame.framePrefix
        (frame.spec.steps.drop frame.stepIdx) executed.length))
    (rest : List Frame) (executed : List (String × SpecStep)) :
    Walks rt replies ⟨.loopHead, frames ++ rest, executed⟩ rest executed
      (Plan.walk (planRules rt replies) fuel p steps executed.length) := by
  obtain ⟨rfl, rfl⟩ | ⟨frame, rfl, rfl, rfl⟩ := h
  · refine ⟨_, .refl _, ?_, fun _ => ⟨rfl, rfl⟩⟩
    cases fuel <;> simp [Plan.walk]
  · exact hframe frame rest executed

/-- The frames that realize an outcome are walked as the outcome is. -/
theorem walks_of_realizes {a : Active} {o : Outcome SpecStep} (h : Realizes a frames o)
    (hframe : ∀ frame rest executed, Walks rt replies ⟨.loopHead, frame :: rest, executed⟩ rest
      executed (Plan.walk (planRules rt replies) fuel frame.framePrefix
        (frame.spec.steps.drop frame.stepIdx) executed.length))
    (rest : List Frame) (executed : List (String × SpecStep)) :
    Walks rt replies ⟨.loopHead, frames ++ rest, executed⟩ rest executed
      (o.walk (Plan.walk (planRules rt replies) fuel) a.currentPrefix a.framePrefix
        (a.spec.steps.drop (a.stepIdx + 1)) executed.length) := by
  match o, h with
  | .split child next, ⟨below, back, hframes, hbelow, hback⟩ =>
    have hchild := walks_of_stands hbelow hframe (back ++ rest) executed
    rw [← append_assoc, ← hframes] at hchild
    refine hchild.andThen ?_
    rw [← length_append]
    exact walks_of_stands hback hframe rest _
  | .advance none, h => exact walks_of_stands h hframe rest executed
  | .advance (some child), ⟨below, later, hframes, hbelow, hlater⟩ =>
    have hchild := walks_of_stands hbelow hframe (later ++ rest) executed
    rw [← append_assoc, ← hframes] at hchild
    refine hchild.andThen ?_
    rw [← length_append]
    exact walks_of_stands hlater hframe rest _
  | .again step, h => exact walks_of_stands h hframe rest executed
  | .leave, h =>
    subst h
    exact ⟨_, .refl _, by simp [Outcome.walk], fun _ => ⟨rfl, rfl⟩⟩

/-- The run makes the walk of the frame it has in hand. The induction is on the fuel, which bounds
how deep the frames above that frame nest. -/
theorem walks_held (hvalue : ∀ summary, ∃ value, rt.valueOfSummary summary = .ok value)
    (hproper : ∀ n, (replies n).Proper rt) (fuel : ℕ) (frame : Frame) (rest : List Frame)
    (executed : List (String × SpecStep)) :
    Walks rt replies ⟨.pausedCheck frame, rest, executed⟩ rest executed
      (Plan.walk (planRules rt replies) fuel frame.framePrefix
        (frame.spec.steps.drop frame.stepIdx) executed.length) := by
  induction fuel generalizing frame rest executed with
  | zero => exact ⟨_, .refl _, by simp [Plan.walk], by simp [Plan.walk]⟩
  | succ fuel ih =>
    by_cases hlt : frame.stepIdx < frame.spec.steps.length
    · let a : Active := ⟨frame, hlt⟩
      let started := a.setStatus .inProgress
      let execution := (a.currentPrefix, { a.step with status := .inProgress })
      have hreply : replies ((executed ++ [execution]).length - 1) = replies executed.length := by
        simp
      obtain ⟨frames, hframes, hgoes⟩ : ∃ frames,
          Realizes started frames ((replies executed.length).outcome rt started.step) ∧
          Goes rt replies ⟨.handle (.afterExecute started (replies executed.length).task) [], rest,
            executed ++ [execution]⟩ ⟨.loopHead, frames ++ rest, executed ++ [execution]⟩ :=
        goes_outcome hvalue (congrArg Reply.summarizer hreply) (congrArg Reply.verifier hreply)
          (hproper _)
      have hdrop : started.spec.steps.drop (started.stepIdx + 1) =
          a.spec.steps.drop (a.stepIdx + 1) := by
        simp [started, Active.setStatus, Active.setStep, drop_set_of_lt]
      have hwalk := walks_of_realizes hframes
        (fun frame rest executed => (ih frame rest executed).of_goes (goes_taken frame)) rest
          (executed ++ [execution])
      rw [hdrop, Active.setStatus_currentPrefix, Active.setStatus_step, length_append] at hwalk
      rw [show frame.spec.steps.drop frame.stepIdx =
        a.step :: a.spec.steps.drop (a.stepIdx + 1) from a.drop_eq]
      exact Walks.of_goes ((goes_run a).trans hgoes) (Walks.cons hwalk)
    · rw [drop_eq_nil_of_le (Nat.le_of_not_lt hlt)]
      exact ⟨_, goes_exhausted hlt, by simp [Plan.walk], fun _ => ⟨rfl, rfl⟩⟩

theorem walks_frame (hvalue : ∀ summary, ∃ value, rt.valueOfSummary summary = .ok value)
    (hproper : ∀ n, (replies n).Proper rt) (fuel : ℕ) (frame : Frame) (rest : List Frame)
    (executed : List (String × SpecStep)) :
    Walks rt replies ⟨.loopHead, frame :: rest, executed⟩ rest executed
      (Plan.walk (planRules rt replies) fuel frame.framePrefix
        (frame.spec.steps.drop frame.stepIdx) executed.length) :=
  (walks_held hvalue hproper fuel frame rest executed).of_goes (goes_taken frame)

/-- The uncontrolled run from `s` executes what the walk does, neither more nor less nor in
another order, and ends, with success, exactly if the walk does. -/
structure Executes (rt : Runtime) (replies : ℕ → Reply) (s : State)
    (w : ℕ → Walk (String × SpecStep)) : Prop where
  complete : ∀ fuel, ∃ t, Leads (step rt) (Answers replies) s t ∧
    s.executed ++ (w fuel).trace <+: t.executed
  sound : ∀ t, Leads (step rt) (Answers replies) s t →
    ∃ fuel, t.executed <+: s.executed ++ (w fuel).trace
  ends : ∀ fuel, (w fuel).ends = true →
    ∃ t, Leads (step rt) (Answers replies) s t ∧ t.pc = .finished (.ok ()) none ∧
      t.executed = s.executed ++ (w fuel).trace
  ended : ∀ t result held, Leads (step rt) (Answers replies) s t →
    t.pc = .finished result held → result = .ok () ∧
      ∃ fuel, (w fuel).ends = true ∧ t.executed = s.executed ++ (w fuel).trace

theorem answers_unique (s : State) (a b : Action) (ha : Answers replies s a)
    (hb : Answers replies s b) : a = b := ha.trans hb.symm

theorem executed_grows {ok : State → Action → Prop} (h : Leads (step rt) ok s t) :
    s.executed <+: t.executed := by
  obtain ⟨actions, h⟩ := h
  exact (run_log h.run_eq).filterMap _

theorem eq_of_finished {result : Except String Unit} {held : Option Frame}
    (hpc : s.pc = .finished result held) (h : Leads (step rt) (Answers replies) s t) : t = s := by
  obtain ⟨actions, h⟩ := h
  cases h with
  | refl => rfl
  | head ha hs _ =>
    obtain rfl : _ = Action.tick := by simpa [Answers, respond, hpc] using ha
    simp [step, State.tick, hpc] at hs

theorem goes_complete : Goes rt replies ⟨.loopHead, [], executed⟩
    ⟨.finished (.ok ()) none, [], executed⟩ := by
  refine goes_of_step fun s hq hpc hstack hex => ?_
  refine ⟨(s.output [.event .completed]).finish (.ok ()) none, ?_,
    ⟨hq.commands, hq.paused, hq.cancelPrefix⟩, ?_⟩
  · simp [respond, step, State.tick, hpc, hstack]
  · simp [State.view, State.finish, State.goto, State.executed, State.output, hstack, ← hex]

theorem exists_of_walks (hq : s.Quiet) (hw : Walks rt replies s.view [] s.executed w) :
    ∃ t, Leads (step rt) (Answers replies) s t ∧ t.executed = s.executed ++ w.trace ∧
      (w.ends = true → t.pc = .finished (.ok ()) none) := by
  obtain ⟨u, hgoes, hex, hend⟩ := hw
  cases he : w.ends with
  | true =>
    obtain ⟨hpc, hstack⟩ := hend he
    obtain rfl : u = ⟨.loopHead, [], s.executed ++ w.trace⟩ := by
      cases u
      simp_all
    obtain ⟨t, ht, -, hview⟩ := hgoes.trans goes_complete _ hq rfl
    simp only [State.view, View.mk.injEq] at hview
    exact ⟨t, ht, hview.2.2, fun _ => hview.1⟩
  | false =>
    obtain ⟨t, ht, -, rfl⟩ := hgoes _ hq rfl
    exact ⟨t, ht, hex, by simp⟩

/-- A run that makes a walk with any fuel executes the walk. -/
theorem executes_of_walks {w : ℕ → Walk (String × SpecStep)} (hq : s.Quiet)
    (hw : ∀ fuel, Walks rt replies s.view [] s.executed (w fuel))
    (hfuel : ∀ fuel, (w fuel).ends = false → fuel ≤ (w fuel).trace.length) :
    Executes rt replies s w := by
  refine ⟨fun fuel => ?_, fun t ht => ?_, fun fuel he => ?_, fun t result held ht hpc => ?_⟩
  · obtain ⟨t, ht, hex, -⟩ := exists_of_walks hq (hw fuel)
    exact ⟨t, ht, hex ▸ prefix_refl _⟩
  · -- a walk with that much fuel has ended or is at least as long as the run
    obtain ⟨u, hu, hex, hend⟩ := exists_of_walks hq (hw t.executed.length)
    refine ⟨t.executed.length, hex ▸ ?_⟩
    rcases Leads.comparable answers_unique ht hu with h | h
    · exact executed_grows h
    · cases he : (w t.executed.length).ends with
      | true => exact eq_of_finished (hend he) h ▸ prefix_refl _
      | false =>
        have hlength := congrArg List.length hex
        rw [length_append] at hlength
        have hle := hfuel _ he
        have heq := (executed_grows h).eq_of_length_le (by omega)
        exact heq ▸ prefix_refl _
  · obtain ⟨t, ht, hex, hend⟩ := exists_of_walks hq (hw fuel)
    exact ⟨t, ht, hend he, hex⟩
  · obtain ⟨u, hu, hex, hend⟩ := exists_of_walks hq (hw (t.executed.length + 1))
    cases he : (w (t.executed.length + 1)).ends with
    | true =>
      obtain rfl : t = u := by
        rcases Leads.comparable answers_unique ht hu with h | h
        · exact (eq_of_finished hpc h).symm
        · exact eq_of_finished (hend he) h
      have hresult := hpc.symm.trans (hend he)
      simp only [Pc.finished.injEq] at hresult
      exact ⟨hresult.1, _, he, hex⟩
    | false =>
      have hlength := congrArg List.length hex
      rw [length_append] at hlength
      have hle := hfuel _ he
      have hback : u.executed.length ≤ t.executed.length := by
        rcases Leads.comparable answers_unique ht hu with h | h
        · exact Nat.le_of_eq (congrArg (·.executed.length) (eq_of_finished hpc h))
        · exact (executed_grows h).length_le
      omega

/-- The recursive walk of a whole plan. -/
def planWalk (rt : Runtime) (replies : ℕ → Reply) (spec : SpecSheet) (fuel : ℕ) :
    Walk (String × SpecStep) :=
  Plan.walk (planRules rt replies) fuel "" spec.steps 0

/-- Execution order is the recursive walk of the plan. -/
theorem run_executes_walk (hvalue : ∀ summary, ∃ value, rt.valueOfSummary summary = .ok value)
    (hproper : ∀ n, (replies n).Proper rt) :
    Executes rt replies (.init spec) (planWalk rt replies spec) :=
  executes_of_walks ⟨rfl, rfl, rfl⟩
    (fun fuel => walks_frame hvalue hproper fuel (rootFrame spec) [] [])
    fun _ => Plan.fuel_le_length

/-- The first step is split in two, every later execution finishes. -/
def splitFirst (n : ℕ) : Reply where
  task := if n = 0 then sampleSplit "half" ["1", "2"] else sampleDone "1"
  summarizer := .error "unused"
  verifier := .error "unused"

theorem run_executes_split_first :
    let root := sampleSheet "root" [sampleStep "1", sampleStep "2"]
    Executes sampleRuntime splitFirst (.init root) (planWalk sampleRuntime splitFirst root) := by
  refine run_executes_walk (fun _ => ⟨_, rfl⟩) fun n => ?_
  cases n with
  | zero => exact ⟨by decide, fun _ => ⟨_, rfl, .inl ⟨rfl, rfl⟩⟩⟩
  | succ n => exact ⟨by simp [splitFirst, sampleDone], fun _ => ⟨_, rfl, .inr ⟨_, rfl⟩⟩⟩

example : ((planWalk sampleRuntime splitFirst
    (sampleSheet "root" [sampleStep "1", sampleStep "2"]) 6).trace.map (·.1)) =
      ["1", "1.1", "1.2", "1", "2"] := by decide

end ColossalCode.Orchestrator
