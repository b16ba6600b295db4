import ColossalCode.Orchestrator.Frames
import ColossalCode.Orchestrator.Walk

/-! Where a spec that is injected while a run goes on ends up. -/
namespace ColossalCode.Orchestrator
open List Option Plan State

open Protocol Transition

variable {rt : Runtime} {replies : ℕ → Reply} {spec child : SpecSheet} {s t : State} {c d : Core}
  {site : Site} {k p q : String} {rest : List OrchestratorCommand} {fuel : ℕ}

def Site.isAfterExecute : Site → Bool
  | .afterExecute _ _ => true
  | _ => false

/-- Control points between the execution of a step and what becomes of its task. -/
def Pc.hasTask : Pc → Bool
  | .receive site _ | .handle site _ | .rerunning site _ _ | .reporting _ site _ _ =>
    site.isAfterExecute
  | .executing _ _ | .summarizing _ _ _ | .verifying _ _ _ => true
  | .clearCancel _ task | .clearPrefix _ task => task.isSome
  | _ => false

def Core.Recorded (c : Core) : Prop :=
  c.pc.hasTask = true → ∃ e ∈ c.trace, e.execution ≠ none

theorem recorded_move (hm : Move rt c d) (hc : c.Recorded) : d.Recorded := by
  intro hd
  have hkeep : ∀ entries, d.trace = c.trace ++ entries → c.pc.hasTask = true →
      ∃ e ∈ d.trace, e.execution ≠ none := by
    intro entries htrace h
    obtain ⟨e, he, hx⟩ := hc h
    exact ⟨e, htrace ▸ mem_append_left _ he, hx⟩
  cases hm with
  | stutter | control => exact hc hd
  | @execute a channel hpc =>
    exact ⟨.execute a.step a.spec a.currentPrefix, mem_append_right _ (by simp), by simp⟩
  | pop hpc hstack => simp [Pc.hasTask, Site.isAfterExecute] at hd
  | _ =>
    first
    | exact hkeep _ rfl (by simp_all [Pc.hasTask, Core.goto, Site.isAfterExecute])
    | simp [Pc.hasTask] at hd

/-- A run that has a task in hand has executed a step. -/
theorem executed_of_hasTask (h : Reachable rt spec s) (htodo : s.pc.todo = [])
    (htask : s.pc.after.hasTask = true) : 0 < s.executed.length := by
  obtain ⟨actions, hrun⟩ := h
  have hinv : s.core.Recorded := Transition.run_invariant (P := fun s => s.core.Recorded) hrun
    (fun _ _ _ hstep hs => recorded_move (step_move hstep) hs)
    (by simp [Core.Recorded, core, init, Pc.after, Pc.hasTask])
  obtain ⟨e, he, hx⟩ := hinv htask
  obtain ⟨x, hx⟩ := ne_none_iff_exists'.mp hx
  have hlog : e ∈ s.log := by simpa [core, htodo] using he
  have hmem : x ∈ s.executed := mem_filterMap.mpr ⟨e, hlog, hx⟩
  exact length_pos_of_mem hmem

/-- The run goes on with no further command: what is queued is dropped, and a pause lifted. -/
def State.undisturbed (s : State) (site : Site) : State :=
  { s with
    pc := .handle site []
    commands := []
    paused := false
    cancelPrefix := none
    calls := [] }

theorem undisturbed_quiet : (s.undisturbed site).Quiet := ⟨rfl, rfl, rfl⟩

/-- The answers for a task that is in hand after `n` executions. -/
def replyFor (replies : ℕ → Reply) (n : ℕ) (task : Task) : Reply := { replies (n - 1) with task }

/-- Every answer is proper, that for the task in hand too. -/
structure ProperAt (rt : Runtime) (replies : ℕ → Reply) (site : Site) (n : ℕ) : Prop where
  later : ∀ i, (replies i).Proper rt
  inHand : ∀ a task, site = .afterExecute a task → (replyFor replies n task).Proper rt

/-- The walk of what is in hand while commands are handled: a frame, or an executed step. -/
def siteWalk (rt : Runtime) (replies : ℕ → Reply) (fuel : ℕ) (site : Site) (n : ℕ) :
    Walk (String × SpecStep) :=
  match site with
  | .afterPop frame | .whilePaused frame =>
    walk (planRules rt replies) fuel frame.framePrefix (frame.spec.steps.drop frame.stepIdx) n
  | .afterExecute a task =>
    ((replyFor replies n task).outcome rt a.step).walk (walk (planRules rt replies) fuel)
      a.currentPrefix a.framePrefix (a.spec.steps.drop (a.stepIdx + 1)) n

def Frame.part (frame : Frame) : String × List SpecStep :=
  (frame.framePrefix, frame.spec.steps.drop frame.stepIdx)

def stackWalk (rt : Runtime) (replies : ℕ → Reply) (fuel : ℕ) (stack : List Frame) (n : ℕ) :
    Walk (String × SpecStep) :=
  walkAll (planRules rt replies) fuel (stack.map Frame.part) n

variable {stack : List Frame} {executed : List (String × SpecStep)}

theorem walks_site (hvalue : ∀ summary, ∃ value, rt.valueOfSummary summary = .ok value)
    (hproper : ProperAt rt replies site executed.length) :
    Walks rt replies ⟨.handle site [], stack, executed⟩ stack executed
      (siteWalk rt replies fuel site executed.length) := by
  cases site with
  | afterPop frame | whilePaused frame =>
    exact (walks_held hvalue hproper.later fuel frame stack executed).of_goes
      (goes_held _ (by simp))
  | afterExecute a task =>
    obtain ⟨frames, hframes, hgoes⟩ : ∃ frames,
        Realizes a frames ((replyFor replies executed.length task).outcome rt a.step) ∧
        Goes rt replies ⟨.handle (.afterExecute a task) [], stack, executed⟩
          ⟨.loopHead, frames ++ stack, executed⟩ :=
      goes_outcome hvalue rfl rfl (hproper.inHand a task rfl)
    exact (walks_of_realizes hframes (walks_frame hvalue hproper.later fuel) stack
      executed).of_goes hgoes

theorem walks_stack (hvalue : ∀ summary, ∃ value, rt.valueOfSummary summary = .ok value)
    (hproper : ∀ n, (replies n).Proper rt) (stack : List Frame)
    (executed : List (String × SpecStep)) :
    Walks rt replies ⟨.loopHead, stack, executed⟩ [] executed
      (stackWalk rt replies fuel stack executed.length) := by
  induction stack generalizing executed with
  | nil => exact ⟨_, .refl _, by simp [stackWalk, walkAll], fun _ => ⟨rfl, rfl⟩⟩
  | cons frame stack ih =>
    refine (walks_frame hvalue hproper fuel frame stack executed).andThen ?_
    rw [← length_append]
    exact ih _

theorem fuel_le_siteWalk {n : ℕ} (h : (siteWalk rt replies fuel site n).ends = false) :
    fuel ≤ (siteWalk rt replies fuel site n).trace.length := by
  cases site with
  | afterPop frame | whilePaused frame => exact fuel_le_length h
  | afterExecute a task => exact Outcome.fuel_le_walk (fun _ _ _ => fuel_le_length) _ h

/-- What is in hand, then a child spec at `q`, then the stack. -/
def injectedWalk (rt : Runtime) (replies : ℕ → Reply) (site : Site) (q : String)
    (child : SpecSheet) (stack : List Frame) (n fuel : ℕ) : Walk (String × SpecStep) :=
  (siteWalk rt replies fuel site n).andThen fun i =>
    (walk (planRules rt replies) fuel q child.steps (n + i)).andThen fun j =>
      stackWalk rt replies fuel stack (n + i + j)

/-- What is in hand, then the stack. -/
def plainWalk (rt : Runtime) (replies : ℕ → Reply) (site : Site) (stack : List Frame)
    (n fuel : ℕ) : Walk (String × SpecStep) :=
  (siteWalk rt replies fuel site n).andThen fun i => stackWalk rt replies fuel stack (n + i)

/-- A run that goes on undisturbed executes what is in hand and then its stack. -/
theorem executes_plain (hvalue : ∀ summary, ∃ value, rt.valueOfSummary summary = .ok value)
    (hproper : ProperAt rt replies site s.executed.length) :
    Executes rt replies (s.undisturbed site)
      (plainWalk rt replies site s.stack s.executed.length) := by
  refine executes_of_walks undisturbed_quiet (fun fuel => ?_) fun fuel =>
    Walk.fuel_le_andThen fuel_le_siteWalk fun _ => fuel_le_length_all
  refine (walks_site hvalue hproper).andThen ?_
  rw [← length_append]
  exact walks_stack hvalue hproper.later s.stack _

/-- The answers without those to the `len` executions from the `start`-th on. -/
def leaveOut (replies : ℕ → Reply) (start len : ℕ) (n : ℕ) : Reply :=
  if n < start then replies n else replies (n + len)

theorem leaveOut_lt {start len n : ℕ} (h : n < start) :
    leaveOut replies start len n = replies n := by
  simp [leaveOut, h]

theorem siteWalk_leaveOut {len n start : ℕ} (hn : site.isAfterExecute = true → 0 < n)
    (hstart : start = n + (siteWalk rt replies fuel site n).trace.length) :
    siteWalk rt (leaveOut replies start len) fuel site n = siteWalk rt replies fuel site n := by
  have hagree : ∀ i, i < start →
      (planRules rt (leaveOut replies start len)).outcome i = (planRules rt replies).outcome i := by
    intro i hi
    simp only [planRules, leaveOut_lt hi]
  cases site with
  | afterPop frame | whilePaused frame =>
    simp only [siteWalk] at hstart ⊢
    exact walk_congr (by rfl) (by rfl) fun i _ hlt => hagree i (by omega)
  | afterExecute a task =>
    have hreply : replyFor (leaveOut replies start len) n task = replyFor replies n task := by
      have := hn rfl
      simp only [replyFor]
      rw [leaveOut_lt (by omega)]
    simp only [siteWalk, hreply] at hstart ⊢
    have hgo : ∀ p steps m,
        (∀ i, m ≤ i → i < m + (walk (planRules rt replies) fuel p steps m).trace.length →
          i < start) → walk (planRules rt (leaveOut replies start len)) fuel p steps m =
            walk (planRules rt replies) fuel p steps m :=
      fun _ _ _ h => walk_congr (by rfl) (by rfl) fun i hi hlt => hagree i (h i hi hlt)
    exact Outcome.walk_congr hgo _ fun i hi hlt => by omega

theorem stackWalk_leaveOut {len start : ℕ} (stack : List Frame) :
    stackWalk rt (leaveOut replies start len) fuel stack start =
      stackWalk rt replies fuel stack (start + len) := by
  unfold stackWalk
  rw [walkAll_shift]
  refine walkAll_congr (by rfl) (by rfl) fun i hi => ?_
  simp only [Rules.after, planRules, leaveOut, Nat.not_lt.mpr hi, if_false]

/-- The places in the subtree of `q`: composed of it and of step indices below it. -/
def Below (q place : String) : Prop := ∃ path, path ≠ [] ∧ place = path.foldl composePrefix q

theorem below_composePrefix (q index : String) : Below q (composePrefix q index) :=
  ⟨[index], by simp, rfl⟩

theorem Below.composePrefix {place : String} (h : Below q place) (index : String) :
    Below q (composePrefix place index) := by
  obtain ⟨path, -, rfl⟩ := h
  exact ⟨path ++ [index], by simp, by simp⟩

/-- The prefix of the frame on top of a stack. -/
def topPrefix : List Frame → String
  | [] => ""
  | top :: _ => top.framePrefix

theorem injectPrefix_eq (stack : List Frame) (k : String) :
    injectPrefix stack k = composePrefix (topPrefix stack) k := by
  cases stack <;> rfl

/-- The command that took `s` to `t` put `child` where step `k` of the spec in hand has it. -/
structure Belongs (rt : Runtime) (s t : State) (site : Site) (k : String) (child : SpecSheet) :
    Prop where
  /-- The steps of the child get the prefixes below step `k`. -/
  pushed : child.steps ≠ [] →
    t.stack = ⟨child, 0, composePrefix site.held.framePrefix k⟩ :: s.stack
  /-- What runs from then on: what is in hand, the child below step `k`, the stack. -/
  runs : ∀ replies, ProperAt rt replies site s.executed.length →
    Executes rt replies (t.undisturbed site) (injectedWalk rt replies site
      (composePrefix site.held.framePrefix k) child s.stack s.executed.length)
  /-- Without the child's executions these are the executions of the run without the command. -/
  others : ∀ replies fuel, ProperAt rt replies site s.executed.length →
    (siteWalk rt replies fuel site s.executed.length).ends = true →
    ∀ inHand below, inHand = (siteWalk rt replies fuel site s.executed.length).trace →
    walk (planRules rt replies) fuel (composePrefix site.held.framePrefix k) child.steps
      (s.executed.length + inHand.length) = ⟨below, true⟩ →
    ∃ replies', ProperAt rt replies' site s.executed.length ∧
      Executes rt replies' (s.undisturbed site)
        (plainWalk rt replies' site s.stack s.executed.length) ∧
      ∃ rest ends,
        plainWalk rt replies' site s.stack s.executed.length fuel = ⟨inHand ++ rest, ends⟩ ∧
        injectedWalk rt replies site (composePrefix site.held.framePrefix k) child s.stack
          s.executed.length fuel = ⟨inHand ++ (below ++ rest), ends⟩
  /-- Where every step of the child is just accepted or fails, each runs once. -/
  once : ∀ replies fuel n, child.steps.length < fuel →
    (∀ i < child.steps.length, ∀ step, (replies (n + i)).outcome rt step = .advance none) →
    walk (planRules rt replies) fuel (composePrefix site.held.framePrefix k) child.steps n =
      ⟨child.steps.map fun step =>
        (composePrefix (composePrefix site.held.framePrefix k) step.index,
          { step with status := .inProgress }), true⟩
  /-- Nothing of the child runs outside the subtree of step `k`. -/
  inside : ∀ replies fuel n, ∀ e ∈ (walk (planRules rt replies) fuel
    (composePrefix site.held.framePrefix k) child.steps n).trace,
      Below (composePrefix site.held.framePrefix k) e.1

theorem injectSplit_step (hpc : s.pc = .handle site (.injectSplit k child :: rest))
    (h : step rt s .tick = some t) :
    t.stack = ⟨child, 0, composePrefix (topPrefix s.stack) k⟩ :: s.stack ∧
      t.executed = s.executed := by
  obtain rfl : _ = t := by simpa [step, tick, hpc] using h
  refine ⟨?_, ?_⟩
  · simp [handleCommand, injectSplit, output, goto, injectPrefix_eq]
  · simp [handleCommand, injectSplit, output, goto, executed,
      Entry.execution]

theorem executes_injected (hvalue : ∀ summary, ∃ value, rt.valueOfSummary summary = .ok value)
    (hproper : ProperAt rt replies site s.executed.length) (hexecuted : t.executed = s.executed)
    (hstack : t.stack = ⟨child, 0, p⟩ :: s.stack) (hq : child.steps = [] ∨ p = q) :
    Executes rt replies (t.undisturbed site)
      (injectedWalk rt replies site q child s.stack s.executed.length) := by
  have hwalk : plainWalk rt replies site t.stack t.executed.length =
      injectedWalk rt replies site q child s.stack s.executed.length := by
    funext fuel
    rw [hexecuted, hstack]
    have hplace : ∀ n, walk (planRules rt replies) fuel p child.steps n =
        walk (planRules rt replies) fuel q child.steps n := by
      intro n
      rcases hq with hnil | rfl
      · rw [hnil]
        cases fuel <;> rfl
      · rfl
    simp only [plainWalk, injectedWalk, stackWalk, map_cons, walkAll, Frame.part,
      drop_zero, hplace]
  rw [← hwalk]
  exact executes_plain hvalue (hexecuted ▸ hproper)

theorem belongs_of_prefix (hvalue : ∀ summary, ∃ value, rt.valueOfSummary summary = .ok value)
    (hs : Reachable rt spec s) (hpc : s.pc = .handle site (.injectSplit k child :: rest))
    (h : step rt s .tick = some t)
    (hsame : child.steps = [] ∨ topPrefix s.stack = site.held.framePrefix) :
    Belongs rt s t site k child := by
  obtain ⟨hstack, hexecuted⟩ := injectSplit_step hpc h
  refine ⟨fun hne => ?_, fun replies hproper => ?_, fun replies fuel hproper hhand => ?_,
    fun replies fuel n hfuel hplain => ?_, fun replies fuel n => ?_⟩
  · rw [hstack, hsame.resolve_left hne]
  · exact executes_injected hvalue hproper hexecuted hstack
      (hsame.imp_right fun h => congrArg (composePrefix · k) h)
  · rintro inHand below rfl hbelow
    let n := s.executed.length
    let start := n + (siteWalk rt replies fuel site n).trace.length
    have hpos : site.isAfterExecute = true → 0 < n := fun htask =>
      executed_of_hasTask hs (by simp [hpc, Pc.todo]) (by simpa [hpc, Pc.after, Pc.hasTask])
    have hsite : siteWalk rt (leaveOut replies start below.length) fuel site n =
        siteWalk rt replies fuel site n := siteWalk_leaveOut hpos rfl
    have hproper' : ProperAt rt (leaveOut replies start below.length) site n := by
      refine ⟨fun i => ?_, fun a task hsite => ?_⟩
      · unfold leaveOut
        split <;> exact hproper.later _
      · have := hpos (by simp [hsite, Site.isAfterExecute])
        rw [replyFor, leaveOut_lt (by omega)]
        exact hproper.inHand a task hsite
    refine ⟨leaveOut replies start below.length, hproper', executes_plain hvalue hproper',
      (stackWalk rt replies fuel s.stack (start + below.length)).trace,
      (stackWalk rt replies fuel s.stack (start + below.length)).ends, ?_, ?_⟩
    · rw [plainWalk, hsite, Walk.andThen_of_ends _ hhand, stackWalk_leaveOut]
    · rw [injectedWalk, Walk.andThen_of_ends _ hhand, hbelow,
        Walk.andThen_of_ends _ rfl]
  · exact walk_once hfuel hplain
  · exact walk_places (fun q step step' h => h.composePrefix step'.index)
      fun step => below_composePrefix _ step.index

/-- An injected spec belongs to the step it names exactly if the frame on top of the stack has the
prefix of the frame in hand, or there is nothing in it to run. -/
theorem injected_split_belongs_iff
    (hvalue : ∀ summary, ∃ value, rt.valueOfSummary summary = .ok value)
    (hs : Reachable rt spec s) (hpc : s.pc = .handle site (.injectSplit k child :: rest))
    (h : step rt s .tick = some t) :
    Belongs rt s t site k child ↔
      child.steps = [] ∨ topPrefix s.stack = site.held.framePrefix := by
  constructor
  · intro hbelongs
    by_cases hnil : child.steps = []
    · exact .inl hnil
    · have hstack := hbelongs.pushed hnil
      rw [(injectSplit_step hpc h).1] at hstack
      have hframe := head_eq_of_cons_eq hstack
      simp only [Frame.mk.injEq, true_and] at hframe
      exact .inr (composePrefix_injective hframe)
  · exact belongs_of_prefix hvalue hs hpc h

def sampleInjected : SpecSheet := sampleSheet "extra" [sampleStep "1"]

/-- Step 1 is split in two, and `inject_split("2", ..)` is called while its first half runs. -/
def injectInFirstHalf : List Action :=
  toExecution ++ [.subAgentDone (.ok (sampleSplit "half" ["1", "2"]))] ++ ticks 7 ++
    toExecution ++ [.call (.injectSplit "2" sampleInjected), .control 0,
      .subAgentDone (.ok (sampleDone "1"))] ++ ticks 4

theorem injected_in_first_half_belongs_iff : ∃ s t site,
    run sampleRuntime (.init (sampleSheet "root" [sampleStep "1", sampleStep "2"]))
      injectInFirstHalf = some s ∧
    s.pc = .handle site [.injectSplit "2" sampleInjected] ∧
    step sampleRuntime s .tick = some t ∧
    (Belongs sampleRuntime s t site "2" sampleInjected ↔
      sampleInjected.steps = [] ∨ topPrefix s.stack = site.held.framePrefix) := by
  obtain ⟨s, t, site, hs, hpc, ht⟩ : ∃ s t site,
      run sampleRuntime (.init (sampleSheet "root" [sampleStep "1", sampleStep "2"]))
        injectInFirstHalf = some s ∧
      s.pc = .handle site [.injectSplit "2" sampleInjected] ∧
      step sampleRuntime s .tick = some t := ⟨_, _, _, rfl, rfl, rfl⟩
  exact ⟨s, t, site, hs, hpc, ht,
    injected_split_belongs_iff (fun _ => ⟨_, rfl⟩) ⟨_, hs⟩ hpc ht⟩

theorem injected_in_first_half_misplaced : ∃ s t site,
    run sampleRuntime (.init (sampleSheet "root" [sampleStep "1", sampleStep "2"]))
      injectInFirstHalf = some s ∧
    s.pc = .handle site [.injectSplit "2" sampleInjected] ∧
    step sampleRuntime s .tick = some t ∧ site.held.framePrefix = "1" ∧
    t.stack.head?.map (·.framePrefix) = some "2" ∧
    ¬ Belongs sampleRuntime s t site "2" sampleInjected := by
  obtain ⟨s, t, site, hs, hpc, ht, hheld, htop⟩ : ∃ s t site,
      run sampleRuntime (.init (sampleSheet "root" [sampleStep "1", sampleStep "2"]))
        injectInFirstHalf = some s ∧
      s.pc = .handle site [.injectSplit "2" sampleInjected] ∧
      step sampleRuntime s .tick = some t ∧ site.held.framePrefix = "1" ∧
      t.stack.head?.map (·.framePrefix) = some "2" := ⟨_, _, _, rfl, rfl, rfl, rfl, rfl⟩
  refine ⟨s, t, site, hs, hpc, ht, hheld, htop, fun hbelongs => ?_⟩
  rw [hbelongs.pushed (by simp [sampleInjected, sampleSheet]), hheld] at htop
  exact absurd (some.inj htop) (by decide)

end ColossalCode.Orchestrator
