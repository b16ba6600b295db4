import ColossalCode.A2A.Execution
import Mathlib.Logic.Function.Basic

/-! The task store of `AgentA2AHandler` while its executions go on: what callers have been told of a
task, against what `get_task` finds. -/
namespace ColossalCode.A2A
open Function List Option

open Protocol Transition

/-- `TaskState::is_terminal`. -/
def isTerminal : TaskState → Bool
  | .completed => true
  | .failed => true
  | .cancelled => true
  | .rejected => true
  | _ => false

/-- An execution of a task. Its status has a number among those of its task; while it sends an
event, the streams that the event goes to are those of `targets`. -/
structure Running where
  id : String
  streaming : Bool
  listening : Bool
  effects : List Effect
  result : Except String Task
  version : Nat
  targets : Option (List Nat)
  generating : Bool
  ended : Bool

/-- What `cancel_task` has answered, the tasks around it, and the tasks whose generations it has
signalled. -/
structure Cancel where
  target : String
  answer : Except String Task
  before : String → Option (Task × Nat)
  after : String → Option (Task × Nat)
  signalled : List String

/-- The handler. A task is stored with the number of its status; `told` is the number of the latest
status that a caller of `message/send` or `message/stream` has been told of. -/
structure Handler where
  tasks : String → Option (Task × Nat)
  statuses : String → Nat
  runs : List Running
  returned : String → Bool
  told : String → Nat
  cancels : List Cancel

inductive Action where
  | message (streaming : Bool) (agent : Agent) (id : String) (step : SpecStep) (spec : SpecSheet)
  | proceed (i : Nat)
  | closed (i : Nat)
  | cancel (id : String)

def StreamEvent.tells : StreamEvent → Bool
  | .statusUpdate _ _ => true
  | .message _ => false
  | .task _ => true

namespace Handler

def start : Handler := ⟨fun _ => none, fun _ => 0, [], fun _ => false, fun _ => 0, []⟩

variable (s : Handler)

def getTask (id : String) : Except String Task :=
  match s.tasks id with
  | some (task, _) => .ok task
  | none => .error id

/-- A stream that is open to the events of the task. -/
def hears (id : String) (j : Nat) : Bool :=
  (s.runs[j]?).any fun run => run.listening && run.id == id

/-- The streams that `send` finds registered. -/
def targets (id : String) : List Nat := (List.range s.runs.length).filter (s.hears id)

/-- A status that a caller has been told of. -/
def tell (id : String) (version : Nat) : Handler :=
  { s with told := update s.told id (max (s.told id) version) }

def setRun (i : Nat) (run : Running) : Handler := { s with runs := s.runs.set i run }

/-- `send` finds the streams of the task; a status update is of a new status. -/
def collect (i : Nat) (run : Running) : StreamEvent → Handler
  | .statusUpdate _ _ =>
    let version := s.statuses run.id + 1
    { s with statuses := update s.statuses run.id version }.setRun i
      { run with targets := some (s.targets run.id), version }
  | _ => s.setRun i { run with targets := some (s.targets run.id) }

/-- The event reaches those of the streams that are still open. -/
def deliver (i : Nat) (run : Running) (event : StreamEvent) (effects : List Effect)
    (targets : List Nat) : Handler :=
  let s := if event.tells && targets.any (s.hears run.id) then s.tell run.id run.version else s
  s.setRun i { run with targets := none, effects }

/-- The end of an execution; the caller of `message/send` is answered now. -/
def finish (i : Nat) (run : Running) : Handler :=
  let s :=
    match run.streaming, run.result with
    | false, .ok _ =>
      { s.tell run.id run.version with returned := update s.returned run.id true }
    | _, _ => s
  s.setRun i { run with ended := true }

/-- The next thing that an execution does. -/
def proceed (i : Nat) (run : Running) : Handler :=
  match run.effects with
  | [] => s.finish i run
  | .send event :: effects =>
    match run.targets with
    | none => s.collect i run event
    | some targets => s.deliver i run event effects targets
  | .process :: effects => s.setRun i { run with effects, generating := true }
  | .requestCancel :: effects => s.setRun i { run with effects }
  | .processed :: effects => s.setRun i { run with effects, generating := false }
  | .store task :: effects =>
    { s with tasks := update s.tasks run.id (some (task, run.version)) }.setRun i
      { run with effects }

/-- `handle_message` and `handle_streaming_message`, the latter answered at once. -/
def accept (rt : Runtime) (streaming : Bool) (agent : Agent) (id : String) (step : SpecStep)
    (spec : SpecSheet) : Handler :=
  let (effects, result) := executeTask rt agent id step spec
  { s with
    runs := s.runs ++ [⟨id, streaming, streaming, effects, result, 0, none, false, false⟩]
    returned := if streaming then update s.returned id true else s.returned }

/-- The tasks whose generations see the agent cancelled. -/
def generating : List String := (s.runs.filter (·.generating)).map (·.id)

def cancelTask (id : String) : Handler :=
  match s.tasks id with
  | none => { s with cancels := s.cancels ++ [⟨id, .error id, s.tasks, s.tasks, s.generating⟩] }
  | some (task, _) =>
    if isTerminal task.status.state then
      { s with cancels := s.cancels ++ [⟨id, .ok task, s.tasks, s.tasks, s.generating⟩] }
    else
      let task := { task with status := ⟨.cancelled, some "Cancelled by requester"⟩ }
      let version := s.statuses id + 1
      let tasks := update s.tasks id (some (task, version))
      { s with
        tasks
        statuses := update s.statuses id version
        cancels := s.cancels ++ [⟨id, .ok task, s.tasks, tasks, s.generating⟩] }

def step (rt : Runtime) (s : Handler) : Action → Option Handler
  | .message streaming agent id step spec => some (s.accept rt streaming agent id step spec)
  | .proceed i => (s.runs[i]?).bind fun run => if run.ended then none else some (s.proceed i run)
  | .closed i => (s.runs[i]?).map fun run => s.setRun i { run with listening := false }
  | .cancel id => some (s.cancelTask id)

end Handler

/-- A task whose id has been returned is found with the latest status a caller was told of. -/
def Visible (s : Handler) : Prop :=
  ∀ id, s.returned id = true → ∃ task version, s.tasks id = some (task, version) ∧
    s.told id ≤ version

/-- A cancellation changes and signals its task only, and is refused where the task is unknown or at
its end. -/
structure Cancel.Proper (c : Cancel) : Prop where
  changes : ∀ id, id ≠ c.target → c.after id = c.before id
  signals : ∀ id ∈ c.signalled, id = c.target
  refuses : (∀ task version, c.before c.target = some (task, version) →
    isTerminal task.status.state = true) → ∃ error, c.answer = .error error

def Sound (s : Handler) : Prop := Visible s ∧ ∀ c ∈ s.cancels, c.Proper

/-- An event that tells a caller of a status is delivered where a status as late is stored, a caller
of `message/send` is answered where the status of the answer is, and no task is stored with an
earlier status than a caller was told of. -/
def Handler.Allows (s : Handler) (run : Running) : Prop :=
  match run.effects, run.targets with
  | [], _ => run.streaming = false → (∃ task, run.result = .ok task) →
    ∃ task stored, s.tasks run.id = some (task, stored) ∧ run.version ≤ stored
  | .send event :: _, some targets => event.tells = true → targets.any (s.hears run.id) = true →
    ∃ task stored, s.tasks run.id = some (task, stored) ∧ run.version ≤ stored
  | .store _ :: _, _ => s.returned run.id = true → s.told run.id ≤ run.version
  | _, _ => True

/-- A stream is answered where its task is stored already; a task is cancelled where it is not
stored, and nothing else generates. -/
def Upholds (s : Handler) : Action → Prop
  | .message streaming _ id _ _ => streaming = true → s.tasks id ≠ none
  | .proceed i => ∀ run, s.runs[i]? = some run → s.Allows run
  | .closed _ => True
  | .cancel id => s.tasks id = none ∧ ∀ other ∈ s.generating, other = id

section Stores

variable {rt : Runtime} {agent : Agent} {id : String} {spec : SpecSheet} {task : Task}

/-- Reading messages stores nothing. -/
theorem readMessage_stores (r : Reading) (agentMsg : Orchestrator.AgentMessage)
    (h : .store task ∈ (readMessage agent r agentMsg).1.effects) : .store task ∈ r.effects := by
  cases agentMsg with
  | agentResponse content =>
    rcases mem_append.mp h with h | h
    · exact h
    · cases mem_singleton.mp h
  | toolCallCompleted name result =>
    unfold readMessage at h
    dsimp only at h
    split at h
    · rcases mem_append.mp h with h | h
      · exact h
      · cases mem_singleton.mp h
    · exact h
  | _ => exact h

theorem readMessages_stores (messages : List Orchestrator.AgentMessage) (r : Reading)
    (h : .store task ∈ (readMessages agent r messages).effects) : .store task ∈ r.effects := by
  induction messages generalizing r with
  | nil => exact h
  | cons agentMsg messages ih =>
    unfold readMessages at h
    dsimp only at h
    split at h
    · exact readMessage_stores r agentMsg h
    · exact readMessage_stores r agentMsg (ih _ h)

variable {effects : List Effect} {step : SpecStep}

theorem handleSplitTask_stores {working : Task} {splitReason : Option String}
    (h : .store task ∈ (handleSplitTask rt agent effects working step spec splitReason).1) :
    .store task ∈ effects := by
  unfold handleSplitTask at h
  split at h
  · exact h
  · dsimp only at h
    split at h
    · exact h
    · exact h
    · simpa using h

theorem completeTask_stores {working : Task} {r : Reading}
    (h : .store task ∈ (completeTask rt agent effects working step r).1) :
    .store task ∈ effects ∨ isTerminal task.status.state = true := by
  have hmessage : ∀ {blank : Bool} {message : StreamEvent},
      .store task ∈ effects ++ (if blank then [] else [.send message]) → .store task ∈ effects := by
    intro blank message h
    cases blank <;> simpa using h
  unfold completeTask at h
  dsimp only at h
  split at h
  · exact .inl (hmessage h)
  · rcases mem_append.mp h with h | h
    · exact .inl (hmessage h)
    · refine .inr ?_
      simp only [mem_cons, reduceCtorEq, false_or, not_mem_nil, or_false,
        Effect.store.injEq] at h
      rw [h]
      rfl

/-- Nothing is stored but tasks at their end. -/
theorem executeTask_stores (h : .store task ∈ (executeTask rt agent id step spec).1) :
    isTerminal task.status.state = true := by
  have hread : ∀ status content,
      .store task ∉ ([.send (.statusUpdate status false),
        .send (.message content)] : List Effect) ++
        .process :: (readMessages agent .init agent.messages).effects ++ [.processed] := by
    intro status content hmem
    simp only [mem_append, mem_cons, not_mem_nil, reduceCtorEq, false_or,
      or_false] at hmem
    cases readMessages_stores _ _ hmem
  unfold executeTask at h
  dsimp only at h
  split at h
  · have hbefore := handleSplitTask_stores h
    simp at hbefore
  · split at h
    · exact absurd (handleSplitTask_stores h) (hread _ _)
    · rcases mem_append.mp h with h | h
      · exact absurd h (hread _ _)
      · simp only [mem_cons, reduceCtorEq, false_or, not_mem_nil, or_false,
          Effect.store.injEq] at h
        rw [h]
        rfl
    · exact (completeTask_stores h).resolve_left (hread _ _)

end Stores

/-- What is known of the store, whatever has been requested. -/
structure Kept (s : Handler) : Prop where
  stored : ∀ id task version, s.tasks id = some (task, version) →
    isTerminal task.status.state = true
  stores : ∀ run ∈ s.runs, ∀ task, .store task ∈ run.effects → isTerminal task.status.state = true
  listens : ∀ run ∈ s.runs, run.listening = true → s.returned run.id = true
  tells : ∀ id, s.told id ≠ 0 → s.returned id = true

theorem kept_start : Kept .start where
  stored id task version h := by cases h
  stores run hrun := by cases hrun
  listens run hrun := by cases hrun
  tells id h := absurd rfl h

section Step

variable {s t : Handler} {i version : Nat} {run run' : Running} {id : String}

theorem Kept.hears (h : Kept s) {targets : List Nat} (hheard : targets.any (s.hears id) = true) :
    s.returned id = true := by
  obtain ⟨j, -, hj⟩ := any_eq_true.mp hheard
  unfold Handler.hears at hj
  cases hrun : s.runs[j]? with
  | none =>
    rw [hrun] at hj
    cases hj
  | some run =>
    rw [hrun, any_some, Bool.and_eq_true] at hj
    have hid : run.id = id := by simpa using hj.2
    exact hid ▸ h.listens run (mem_of_getElem? hrun) hj.1

/-- The executions afterwards, the one that has moved apart. -/
theorem Kept.setRun (h : Kept s) (hrun : s.runs[i]? = some run) (hid : run'.id = run.id)
    (hlistening : run'.listening = true → run.listening = true)
    (heffects : ∀ effect ∈ run'.effects, effect ∈ run.effects) : Kept (s.setRun i run') := by
  have hmem := mem_of_getElem? hrun
  refine ⟨h.stored, fun other hother => ?_, fun other hother hlistens => ?_, h.tells⟩
  · rcases mem_or_eq_of_mem_set hother with hother | rfl
    · exact h.stores other hother
    · exact fun task htask => h.stores run hmem task (heffects _ htask)
  · rcases mem_or_eq_of_mem_set hother with hother | rfl
    · exact h.listens other hother hlistens
    · exact hid ▸ h.listens run hmem (hlistening hlistens)

theorem Kept.tell (h : Kept s) (hreturned : s.returned id = true) : Kept (s.tell id version) := by
  refine ⟨h.stored, h.stores, h.listens, fun other hother => ?_⟩
  by_cases hid : other = id
  · exact hid ▸ hreturned
  · exact h.tells other fun hzero => hother ((update_of_ne hid _ _).trans hzero)

theorem Kept.returns (h : Kept s) (id : String) :
    Kept { s with returned := update s.returned id true } := by
  have hstill : ∀ other, s.returned other = true →
      update s.returned id true other = true := by
    intro other hother
    by_cases hid : other = id
    · rw [hid, update_self]
    · rw [update_of_ne hid, hother]
  exact ⟨h.stored, h.stores, fun run hrun hlistens => hstill _ (h.listens run hrun hlistens),
    fun other hother => hstill other (h.tells other hother)⟩

/-- An execution goes on. -/
theorem Kept.proceed (h : Kept s) (hrun : s.runs[i]? = some run) : Kept (s.proceed i run) := by
  have hmem := mem_of_getElem? hrun
  have hlater : ∀ {effect : Effect} {effects : List Effect}, run.effects = effect :: effects →
      ∀ e ∈ effects, e ∈ run.effects :=
    fun heffects e he => heffects ▸ mem_cons_of_mem _ he
  unfold Handler.proceed
  split
  · unfold Handler.finish
    dsimp only
    split
    · have hreturned : update s.returned run.id true run.id = true :=
        update_self ..
      exact ((h.returns run.id).tell hreturned).setRun hrun rfl id fun _ he => he
    · exact h.setRun hrun rfl id fun _ he => he
  · rename_i event effects heffects
    split
    · unfold Handler.collect
      split
      · have hkept : Kept { s with
            statuses := update s.statuses run.id (s.statuses run.id + 1) } :=
          ⟨h.stored, h.stores, h.listens, h.tells⟩
        exact hkept.setRun hrun rfl id fun _ he => he
      · exact h.setRun hrun rfl id fun _ he => he
    · unfold Handler.deliver
      dsimp only
      split
      · rename_i hheard
        rw [Bool.and_eq_true] at hheard
        exact (h.tell (h.hears hheard.2)).setRun hrun rfl id (hlater heffects)
      · exact h.setRun hrun rfl id (hlater heffects)
  · rename_i heffects
    exact h.setRun hrun rfl id (hlater heffects)
  · rename_i heffects
    exact h.setRun hrun rfl id (hlater heffects)
  · rename_i heffects
    exact h.setRun hrun rfl id (hlater heffects)
  · rename_i task effects heffects
    have hterminal := h.stores run hmem task (heffects ▸ mem_cons_self)
    have hkept : Kept { s with
        tasks := update s.tasks run.id (some (task, run.version)) } := by
      refine ⟨fun id other version hstored => ?_, h.stores, h.listens, h.tells⟩
      by_cases hid : id = run.id
      · subst hid
        cases (update_self ..).symm.trans hstored
        exact hterminal
      · exact h.stored id other version ((update_of_ne hid _ _).symm.trans hstored)
    exact hkept.setRun hrun rfl id (hlater heffects)

theorem Kept.accepts (h : Kept s)
    (hstores : ∀ task, .store task ∈ run.effects → isTerminal task.status.state = true)
    (hlistens : run.listening = true → s.returned run.id = true) :
    Kept { s with runs := s.runs ++ [run] } := by
  refine ⟨h.stored, fun other hother => ?_, fun other hother => ?_, h.tells⟩
  · rcases mem_append.mp hother with hother | hother
    · exact h.stores other hother
    · obtain rfl := mem_singleton.mp hother
      exact hstores
  · rcases mem_append.mp hother with hother | hother
    · exact h.listens other hother
    · obtain rfl := mem_singleton.mp hother
      exact hlistens

/-- What `cancel_task` does: it never finds a task that is not at its end. -/
theorem cancelTask_cases (h : Kept s) (id : String) :
    ∃ c : Cancel, s.cancelTask id = { s with cancels := s.cancels ++ [c] } ∧ c.target = id ∧
      c.before = s.tasks ∧ c.after = s.tasks ∧ c.signalled = s.generating ∧
      ((s.tasks id = none ∧ c.answer = .error id) ∨
        ∃ task version, s.tasks id = some (task, version) ∧ c.answer = .ok task) := by
  unfold Handler.cancelTask
  split
  · rename_i hnone
    exact ⟨_, rfl, rfl, rfl, rfl, rfl, .inl ⟨hnone, rfl⟩⟩
  · rename_i task version hstored
    rw [if_pos (h.stored id task version hstored)]
    exact ⟨_, rfl, rfl, rfl, rfl, rfl, .inr ⟨task, version, hstored, rfl⟩⟩

variable {rt : Runtime}

/-- What is known of the store is known after every step. -/
theorem Kept.step {a : Action} (h : Kept s) (ht : s.step rt a = some t) : Kept t := by
  cases a with
  | message streaming agent id step spec =>
    cases ht
    have hstores := fun task => @executeTask_stores rt agent id spec task step
    cases streaming with
    | true => exact (h.returns id).accepts hstores fun _ => update_self ..
    | false => exact h.accepts hstores fun hlistens => by cases hlistens
  | proceed i =>
    obtain ⟨run, hrun, ht⟩ := bind_eq_some_iff.mp ht
    split at ht
    · cases ht
    · cases ht
      exact h.proceed hrun
  | closed i =>
    obtain ⟨run, hrun, rfl⟩ := map_eq_some_iff.mp ht
    exact h.setRun hrun rfl (fun hlistens => by cases hlistens) fun _ he => he
  | cancel id =>
    cases ht
    obtain ⟨c, hc, -⟩ := cancelTask_cases h id
    rw [hc]
    exact ⟨h.stored, h.stores, h.listens, h.tells⟩

/-- A caller is told of a status, and has the id from now on. -/
theorem visible_told_iff (h : Kept s) (hv : Visible s) (htasks : t.tasks = s.tasks)
    (htold : t.told = update s.told id (max (s.told id) version)) (hreturned : t.returned id = true)
    (hothers : ∀ other, other ≠ id → t.returned other = s.returned other) :
    Visible t ↔ ∃ task stored, s.tasks id = some (task, stored) ∧ version ≤ stored := by
  constructor
  · intro hvisible
    obtain ⟨task, stored, hstored, hle⟩ := hvisible id hreturned
    rw [htold, update_self] at hle
    rw [htasks] at hstored
    exact ⟨task, stored, hstored, by omega⟩
  · rintro ⟨task, stored, hstored, hle⟩ other hother
    rw [htasks, htold]
    by_cases hid : other = id
    · subst hid
      rw [update_self]
      by_cases hzero : s.told other = 0
      · exact ⟨task, stored, hstored, by omega⟩
      · obtain ⟨task', stored', hstored', hle'⟩ := hv other (h.tells other hzero)
        cases hstored.symm.trans hstored'
        exact ⟨task, stored, hstored, by omega⟩
    · rw [update_of_ne hid]
      exact hv other ((hothers other hid).symm.trans hother)

/-- A task is stored. -/
theorem visible_stored_iff {task : Task} (hv : Visible s)
    (htasks : t.tasks = update s.tasks id (some (task, version)))
    (htold : t.told = s.told) (hreturned : t.returned = s.returned) :
    Visible t ↔ (s.returned id = true → s.told id ≤ version) := by
  constructor
  · intro hvisible hid
    obtain ⟨task', stored, hstored, hle⟩ := hvisible id (hreturned ▸ hid)
    rw [htasks, update_self] at hstored
    cases hstored
    exact htold ▸ hle
  · intro hle other hother
    rw [hreturned] at hother
    rw [htasks, htold]
    by_cases hid : other = id
    · subst hid
      exact ⟨task, version, update_self .., hle hother⟩
    · rw [update_of_ne hid]
      exact hv other hother

theorem visible_congr (htasks : t.tasks = s.tasks) (htold : t.told = s.told)
    (hreturned : t.returned = s.returned) : Visible t ↔ Visible s := by
  unfold Visible
  rw [htasks, htold, hreturned]

theorem proceed_visible_iff (h : Kept s) (hv : Visible s) :
    Visible (s.proceed i run) ↔ s.Allows run := by
  have hstill : ∀ {t : Handler}, t.tasks = s.tasks → t.told = s.told → t.returned = s.returned →
      Visible t := fun htasks htold hreturned => (visible_congr htasks htold hreturned).mpr hv
  unfold Handler.proceed Handler.Allows
  cases heffects : run.effects with
  | nil =>
    dsimp only
    unfold Handler.finish
    cases hstreaming : run.streaming with
    | true => exact iff_of_true (hstill rfl rfl rfl) fun hfalse => by cases hfalse
    | false =>
      cases hresult : run.result with
      | error err =>
        refine iff_of_true (hstill rfl rfl rfl) fun _ hfalse => ?_
        obtain ⟨task, htask⟩ := hfalse
        cases htask
      | ok task =>
        dsimp only
        have hreturned : update s.returned run.id true run.id = true :=
          update_self ..
        have hothers : ∀ other, other ≠ run.id →
            update s.returned run.id true other = s.returned other :=
          fun other hid => update_of_ne hid _ _
        refine Iff.trans (visible_told_iff h hv ?_ ?_ ?_ ?_)
          ⟨fun hstored _ _ => hstored, fun hstored => hstored rfl ⟨task, rfl⟩⟩
        · rfl
        · rfl
        · exact hreturned
        · exact hothers
  | cons effect effects =>
    cases effect with
    | send event =>
      cases htargets : run.targets with
      | none =>
        dsimp only
        refine iff_of_true ?_ trivial
        unfold Handler.collect
        split <;> exact hstill rfl rfl rfl
      | some targets =>
        dsimp only
        unfold Handler.deliver
        cases htells : event.tells with
        | false =>
          refine iff_of_true (hstill rfl rfl rfl) fun hfalse => by cases hfalse
        | true =>
          cases hheard : targets.any (s.hears run.id) with
          | false => exact iff_of_true (hstill rfl rfl rfl) fun _ hfalse => by cases hfalse
          | true =>
            have hreturned := h.hears hheard
            dsimp only
            rw [Bool.true_and, if_pos rfl]
            refine Iff.trans (visible_told_iff h hv ?_ ?_ ?_ ?_)
              ⟨fun hstored _ _ => hstored, fun hstored => hstored rfl rfl⟩
            · rfl
            · rfl
            · exact hreturned
            · exact fun _ _ => rfl
    | process | requestCancel | processed => exact iff_of_true (hstill rfl rfl rfl) trivial
    | store task => exact visible_stored_iff hv rfl rfl rfl

theorem proceed_cancels : (s.proceed i run).cancels = s.cancels := by
  unfold Handler.proceed
  split
  · unfold Handler.finish
    dsimp only
    split <;> rfl
  · split
    · unfold Handler.collect
      split <;> rfl
    · unfold Handler.deliver
      dsimp only
      split <;> rfl
  · rfl
  · rfl
  · rfl
  · rfl

theorem accept_visible_iff {agent : Agent} {step : SpecStep} {spec : SpecSheet}
    (h : Kept s) (hv : Visible s) :
    Visible (s.accept rt true agent id step spec) ↔ s.tasks id ≠ none := by
  have htold : s.told = update s.told id (max (s.told id) 0) := by
    rw [Nat.max_zero, update_eq_self]
  have hvisible : Visible (s.accept rt true agent id step spec) ↔
      ∃ task stored, s.tasks id = some (task, stored) ∧ 0 ≤ stored := by
    refine visible_told_iff h hv rfl htold ?_ fun other hid => ?_
    · exact update_self ..
    · exact update_of_ne hid _ _
  rw [hvisible, ne_none_iff_exists']
  constructor
  · rintro ⟨task, stored, hstored, -⟩
    exact ⟨(task, stored), hstored⟩
  · rintro ⟨⟨task, stored⟩, hstored⟩
    exact ⟨task, stored, hstored, Nat.zero_le _⟩

theorem cancel_sound_iff (h : Kept s) (hs : Sound s) (id : String) :
    Sound (s.cancelTask id) ↔ Upholds s (.cancel id) := by
  obtain ⟨hv, hcancels⟩ := hs
  obtain ⟨c, hc, htarget, hbefore, hafter, hsignalled, hanswer⟩ := cancelTask_cases h id
  have hsound : Sound (s.cancelTask id) ↔ c.Proper := by
    rw [hc]
    constructor
    · intro hsound
      exact hsound.2 c (mem_append_right _ (mem_singleton_self c))
    · intro hproper
      refine ⟨hv, fun c' hc' => ?_⟩
      rcases mem_append.mp hc' with hc' | hc'
      · exact hcancels c' hc'
      · obtain rfl := mem_singleton.mp hc'
        exact hproper
  rw [hsound]
  constructor
  · intro hproper
    refine ⟨?_, fun other hother => htarget ▸ hproper.signals other (hsignalled ▸ hother)⟩
    rcases hanswer with ⟨hnone, -⟩ | ⟨task, version, hstored, hok⟩
    · exact hnone
    · have hterminal : ∀ task' version', c.before c.target = some (task', version') →
          isTerminal task'.status.state = true := by
        rw [hbefore, htarget]
        exact h.stored id
      obtain ⟨error, herror⟩ := hproper.refuses hterminal
      cases hok.symm.trans herror
  · rintro ⟨hnone, hsignals⟩
    refine ⟨fun other _ => by rw [hafter, hbefore], ?_, fun _ => ?_⟩
    · rw [hsignalled, htarget]
      exact hsignals
    · rcases hanswer with ⟨-, herror⟩ | ⟨task, version, hstored, -⟩
      · exact ⟨id, herror⟩
      · cases hnone.symm.trans hstored

/-- A step keeps the store sound exactly where it upholds it. -/
theorem sound_iff {a : Action} (h : Kept s) (ht : s.step rt a = some t)
    (hs : Sound s) : Sound t ↔ Upholds s a := by
  cases a with
  | message streaming agent id step spec =>
    cases ht
    cases streaming with
    | true =>
      have hvisible := @accept_visible_iff s id rt agent step spec h hs.1
      constructor
      · intro hsound _
        exact hvisible.mp hsound.1
      · intro huphold
        exact ⟨hvisible.mpr (huphold rfl), hs.2⟩
    | false => exact iff_of_true ⟨hs.1, hs.2⟩ fun hfalse => by cases hfalse
  | proceed i =>
    obtain ⟨run, hrun, ht⟩ := bind_eq_some_iff.mp ht
    split at ht
    · cases ht
    · cases ht
      constructor
      · intro hsound run' hrun'
        cases hrun.symm.trans hrun'
        exact (proceed_visible_iff h hs.1).mp hsound.1
      · intro huphold
        refine ⟨(proceed_visible_iff h hs.1).mpr (huphold run hrun), ?_⟩
        rw [proceed_cancels]
        exact hs.2
  | closed i =>
    obtain ⟨run, hrun, rfl⟩ := map_eq_some_iff.mp ht
    exact iff_of_true ⟨hs.1, hs.2⟩ trivial
  | cancel id =>
    cases ht
    exact cancel_sound_iff h hs id

end Step

theorem sound_start : Sound .start :=
  ⟨fun _ hid => (by cases hid), fun _ hc => (by cases hc)⟩

/-- Of any requests, each returned id is found with the latest status that a caller was told, and
each cancellation is of its task only, if and only if every step of the run upholds it. -/
theorem store_sound_iff {rt : Runtime} {actions : List Action} {t : Handler}
    (hrun : run (Handler.step rt) .start actions = some t) :
    Throughout (Handler.step rt) Sound .start actions ↔
      Steps (Handler.step rt) Upholds .start actions t :=
  throughout_iff_steps (fun _ _ _ ht hs => hs.step ht)
    (fun _ _ _ hk ht hs => sound_iff hk ht hs) hrun
    kept_start sound_start

section Runs

/-- An agent that says nothing. -/
def silent : Agent :=
  let summary := fun (task : Task) => ⟨task.id, "1", "", [], [], ⟨.pending, []⟩, none⟩
  ⟨[.done], .ok (), fun _ => none, fun _ => .ok default, fun _ => .ok .null,
    fun task _ _ => summary task, summary⟩

def splitStep : SpecStep := { (default : SpecStep) with constraints := [splitDirective] }

/-- Some run of these actions upholds the store. -/
def Upheld (s : Handler) (actions : List Action) : Prop :=
  ∃ t, Steps (Handler.step jsonless) Upholds s actions t

theorem proceeds {s : Handler} {run : Running} {i : Nat} {actions : List Action}
    (hrun : s.runs[i]? = some run) (hended : run.ended = false) (hallows : s.Allows run)
    (hrest : Upheld (s.proceed i run) actions) : Upheld s (.proceed i :: actions) := by
  obtain ⟨t, hrest⟩ := hrest
  refine ⟨t, .head (fun run' hrun' => ?_) ?_ hrest⟩
  · cases hrun.symm.trans hrun'
    exact hallows
  · simp [Handler.step, hrun, hended]

theorem store_sound_when_sent : ∃ t,
    run (Handler.step jsonless) .start
      (.message false silent "t" default default :: List.replicate 12 (.proceed 0)) = some t ∧
    Throughout (Handler.step jsonless) Sound .start
      (.message false silent "t" default default :: List.replicate 12 (.proceed 0)) ∧
    t.returned "t" = true := by
  have haccepted : Upheld (Handler.start.accept jsonless false silent "t" default default)
      (List.replicate 12 (.proceed 0)) := by
    refine proceeds rfl rfl trivial (proceeds rfl rfl (fun _ h => by cases h) ?_)
    refine proceeds rfl rfl trivial (proceeds rfl rfl (fun h => by cases h) ?_)
    refine proceeds rfl rfl trivial (proceeds rfl rfl trivial ?_)
    refine proceeds rfl rfl trivial (proceeds rfl rfl (fun _ h => by cases h) ?_)
    refine proceeds rfl rfl trivial (proceeds rfl rfl (fun _ h => by cases h) ?_)
    refine proceeds rfl rfl (fun h => by cases h) (proceeds rfl rfl (fun _ _ => ?_) ⟨_, .refl _⟩)
    exact ⟨_, _, rfl, Nat.le_refl _⟩
  obtain ⟨t, haccepted⟩ := haccepted
  have hsteps : Steps (Handler.step jsonless) Upholds .start
      (.message false silent "t" default default :: List.replicate 12 (.proceed 0)) t :=
    .head (fun h => by cases h) rfl haccepted
  have hreturned : (run (Handler.step jsonless) .start (.message false silent "t" default default ::
      List.replicate 12 (.proceed 0))).map (·.returned "t") = some true := rfl
  rw [hsteps.run_eq] at hreturned
  exact ⟨t, hsteps.run_eq, (store_sound_iff hsteps.run_eq).mpr hsteps, Option.some.inj hreturned⟩

/-- A split that is returned is not stored, a stream is answered before its task is stored, and a
cancellation of an unknown task reaches the one that runs. -/
theorem store_unsound :
    (∃ t, run (Handler.step jsonless) .start
        (.message false silent "t" splitStep default :: List.replicate 9 (.proceed 0)) = some t ∧
      t.returned "t" = true ∧ t.getTask "t" = .error "t" ∧ ¬ Sound t) ∧
    (∃ t, run (Handler.step jsonless) .start [.message true silent "t" default default] = some t ∧
      t.returned "t" = true ∧ t.getTask "t" = .error "t" ∧ ¬ Sound t) ∧
    ∃ t, run (Handler.step jsonless) .start
        (.message false silent "t" default default :: List.replicate 5 (.proceed 0) ++
          [.cancel "unknown"]) = some t ∧ ¬ Sound t := by
  refine ⟨⟨_, rfl, rfl, rfl, fun h => ?_⟩, ⟨_, rfl, rfl, rfl, fun h => ?_⟩, ⟨_, rfl, fun h => ?_⟩⟩
  · obtain ⟨task, stored, hstored, -⟩ := h.1 "t" rfl
    cases hstored
  · obtain ⟨task, stored, hstored, -⟩ := h.1 "t" rfl
    cases hstored
  · have hproper := h.2 _ (mem_singleton_self _)
    exact absurd (hproper.signals "t" (mem_singleton_self _)) (by decide)

end Runs

end ColossalCode.A2A
