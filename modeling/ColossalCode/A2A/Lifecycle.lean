import ColossalCode.A2A.Store

/-! The statuses that a task goes through, and the history that it keeps of them. -/
namespace ColossalCode.A2A.Lifecycle
open List Option

open Protocol (TaskState Value)

structure TaskError where
  code : Int
  message : String
  data : Option Value

structure TaskStatus (Time : Type*) where
  state : TaskState
  timestamp : Option Time
  message : Option String
  error : Option TaskError

structure TaskStatusUpdate (Time : Type*) where
  status : TaskStatus Time
  timestamp : Time

/-- The history is missing until it is enabled. -/
structure Task (Time : Type*) where
  status : TaskStatus Time
  history : Option (List (TaskStatusUpdate Time))

variable {Time : Type*} {task : Task Time}

namespace Task

/-- `recorded` is the time read for the update, `now` the one for the status. -/
def setState (task : Task Time) (recorded now : Time) (state : TaskState)
    (message : Option String) : Task Time where
  status := ⟨state, some now, message, none⟩
  history := task.history.map (· ++ [⟨task.status, recorded⟩])

def start (task : Task Time) (recorded now : Time) : Task Time :=
  task.setState recorded now .working (some "Processing...")

def complete (task : Task Time) (recorded now : Time) (message : Option String) : Task Time :=
  task.setState recorded now .completed message

/-- The status before is not put into the history. -/
def fail (task : Task Time) (now : Time) (error : TaskError) : Task Time :=
  { task with status := ⟨.failed, some now, some error.message, some error⟩ }

def cancel (task : Task Time) (recorded now : Time) : Task Time :=
  task.setState recorded now .cancelled (some "Task cancelled by user")

def requestInput (task : Task Time) (recorded now : Time) (prompt : String) : Task Time :=
  task.setState recorded now .inputRequired (some prompt)

end Task

/-- `execute_task` when it begins. -/
def beginStep (task : Task Time) (now : Time) (index : String) : Task Time :=
  { task with status := ⟨.working, some now, some s!"Processing step {index}", none⟩ }

def markSplitTask (task : Task Time) (now : Time) : Task Time :=
  { task with status := ⟨.submitted, some now, some "split", none⟩ }

/-- `execute_task` when the generation has failed. -/
def failGeneration (task : Task Time) (now : Time) (err : String) : Task Time :=
  { task with
    status := ⟨.failed, some now, some "Generation failed", some ⟨-1, err, none⟩⟩ }

/-- `execute_task` when there is a response; an error that the status has is kept. -/
def finishResponse (task : Task Time) (now : Time) : Task Time :=
  { task with
    status := ⟨.completed, some now, some "Response ready", task.status.error⟩ }

def cancelTask (task : Task Time) (now : Time) : Task Time :=
  if isTerminal task.status.state then task
  else
    { task with
      status := ⟨.cancelled, some now, some "Cancelled by requester", task.status.error⟩ }

inductive Operation where
  | setState (state : TaskState) (message : Option String)
  | start
  | complete (message : Option String)
  | fail (error : TaskError)
  | cancel
  | requestInput (prompt : String)
  | beginStep (index : String)
  | markSplitTask
  | failGeneration (err : String)
  | finishResponse
  | cancelTask

structure Action (Time : Type*) where
  operation : Operation
  recorded : Time
  now : Time

def perform (task : Task Time) (action : Action Time) : Task Time :=
  match action.operation with
  | .setState state message => task.setState action.recorded action.now state message
  | .start => task.start action.recorded action.now
  | .complete message => task.complete action.recorded action.now message
  | .fail error => task.fail action.now error
  | .cancel => task.cancel action.recorded action.now
  | .requestInput prompt => task.requestInput action.recorded action.now prompt
  | .beginStep index => beginStep task action.now index
  | .markSplitTask => markSplitTask task action.now
  | .failGeneration err => failGeneration task action.now err
  | .finishResponse => finishResponse task action.now
  | .cancelTask => cancelTask task action.now

def after (task : Task Time) (actions : List (Action Time)) : Task Time :=
  actions.foldl perform task

/-- Everything but a cancellation that is refused writes the status. -/
def Writes (task : Task Time) : Operation → Prop
  | .cancelTask => isTerminal task.status.state = false
  | _ => True

instance (task : Task Time) (operation : Operation) : Decidable (Writes task operation) := by
  cases operation <;> unfold Writes <;> infer_instance

/-- The operations that put the status before into the history. -/
def Operation.records : Operation → Bool
  | .setState .. | .start | .complete _ | .cancel | .requestInput _ => true
  | _ => false

/-- The status that the operation writes where it writes one. -/
def written (task : Task Time) (action : Action Time) : TaskStatus Time :=
  match action.operation with
  | .setState state message => ⟨state, some action.now, message, none⟩
  | .start => ⟨.working, some action.now, some "Processing...", none⟩
  | .complete message => ⟨.completed, some action.now, message, none⟩
  | .fail error => ⟨.failed, some action.now, some error.message, some error⟩
  | .cancel => ⟨.cancelled, some action.now, some "Task cancelled by user", none⟩
  | .requestInput prompt => ⟨.inputRequired, some action.now, some prompt, none⟩
  | .beginStep index => ⟨.working, some action.now, some s!"Processing step {index}", none⟩
  | .markSplitTask => ⟨.submitted, some action.now, some "split", none⟩
  | .failGeneration err => ⟨.failed, some action.now, some "Generation failed",
      some ⟨-1, err, none⟩⟩
  | .finishResponse => ⟨.completed, some action.now, some "Response ready", task.status.error⟩
  | .cancelTask => ⟨.cancelled, some action.now, some "Cancelled by requester", task.status.error⟩

/-- All statuses of the run in order, the current one last. -/
def statuses (task : Task Time) : List (Action Time) → List (TaskStatus Time)
  | [] => [task.status]
  | action :: actions =>
    if Writes task action.operation then task.status :: statuses (perform task action) actions
    else statuses (perform task action) actions

def earlier (task : Task Time) : List (TaskStatus Time) := (task.history.getD []).map (·.status)

/-- What a client reads back. -/
def told (task : Task Time) : List (TaskStatus Time) := earlier task ++ [task.status]

/-- Nothing is missing from the history, and a terminal status stays. -/
def Final (task : Task Time) (actions : List (Action Time)) : Prop :=
  ∀ reached, reached <+: actions →
    told (after task reached) = earlier task ++ statuses task reached ∧
    ∀ front, front <+: reached → isTerminal (after task front).status.state = true →
      (after task reached).status = (after task front).status

/-- A write is put into the history, and meets a terminal task only with the status it has. -/
def Sound (task : Task Time) (action : Action Time) : Prop :=
  Writes task action.operation →
    action.operation.records = true ∧
      (isTerminal task.status.state = true → written task action = task.status)

variable {action : Action Time}

theorem perform_quiet (h : ¬ Writes task action.operation) :
    perform task action = task := by
  cases hop : action.operation with
  | cancelTask =>
    rw [hop] at h
    have hterminal : isTerminal task.status.state = true := by simpa [Writes] using h
    rw [perform, hop]
    exact if_pos hterminal
  | _ =>
    rw [hop] at h
    exact absurd trivial h

/-- An operation that writes leaves what it writes, and the status before only if it records it. -/
theorem perform_writes (h : Writes task action.operation) :
    (perform task action).status = written task action ∧
      (perform task action).history = if action.operation.records = true then
        task.history.map (· ++ [⟨task.status, action.recorded⟩]) else task.history := by
  unfold perform written
  cases hop : action.operation with
  | cancelTask =>
    rw [hop] at h
    have hrunning : ¬ isTerminal task.status.state = true := Bool.eq_false_iff.mp h
    dsimp only
    rw [cancelTask, if_neg hrunning]
    exact ⟨rfl, rfl⟩
  | _ => exact ⟨rfl, rfl⟩

theorem earlier_perform (henabled : task.history.isSome) (h : Writes task action.operation) :
    earlier (perform task action) =
      if action.operation.records = true then told task else earlier task := by
  obtain ⟨history, hhistory⟩ := isSome_iff_exists.mp henabled
  rw [earlier, (perform_writes h).2]
  split
  · rw [told, earlier, hhistory, map_some, getD_some, getD_some,
      map_append]
    rfl
  · rfl

theorem enabled_perform (action : Action Time) (henabled : task.history.isSome) :
    (perform task action).history.isSome := by
  by_cases h : Writes task action.operation
  · rw [(perform_writes h).2]
    split
    · rwa [isSome_map]
    · exact henabled
  · rwa [perform_quiet h]

theorem after_snoc (task : Task Time) (front : List (Action Time)) (action : Action Time) :
    after task (front ++ [action]) = perform (after task front) action := by
  rw [after, after, foldl_append]
  rfl

theorem enabled_after (actions : List (Action Time)) (henabled : task.history.isSome) :
    (after task actions).history.isSome := by
  induction actions using List.reverseRecOn with
  | nil => exact henabled
  | append_singleton front action ih =>
    rw [after_snoc]
    exact enabled_perform action ih

theorem statuses_snoc (task : Task Time) (front : List (Action Time)) (action : Action Time) :
    statuses task (front ++ [action]) = statuses task front ++
      if Writes (after task front) action.operation then [written (after task front) action]
      else [] := by
  induction front generalizing task with
  | nil =>
    change statuses task [action] = [task.status] ++
      if Writes task action.operation then [written task action] else []
    by_cases h : Writes task action.operation
    · rw [statuses, if_pos h, if_pos h, statuses, (perform_writes h).1]
      rfl
    · rw [statuses, if_neg h, if_neg h, statuses, perform_quiet h]
      rfl
  | cons first front ih =>
    have hafter : after task (first :: front) = after (perform task first) front := rfl
    rw [cons_append, statuses, statuses, ih, hafter]
    split
    · rfl
    · rfl

theorem told_perform_iff (henabled : task.history.isSome) :
    told (perform task action) = told task ++
        (if Writes task action.operation then [written task action] else []) ↔
      (Writes task action.operation → action.operation.records = true) := by
  by_cases h : Writes task action.operation
  · rw [if_pos h, told, earlier_perform henabled h, (perform_writes h).1]
    by_cases hrecords : action.operation.records = true
    · rw [if_pos hrecords]
      exact iff_of_true rfl fun _ => hrecords
    · rw [if_neg hrecords]
      refine iff_of_false ?_ fun hall => hrecords (hall h)
      intro heq
      have hlength := congrArg List.length heq
      simp only [told, length_append, length_cons, length_nil] at hlength
      omega
  · rw [if_neg h, perform_quiet h, append_nil]
    exact iff_of_true rfl fun hwrites => absurd hwrites h

theorem status_perform (h : Sound task action) (hterminal : isTerminal task.status.state = true) :
    (perform task action).status = task.status := by
  by_cases hwrites : Writes task action.operation
  · rw [(perform_writes hwrites).1]
    exact (h hwrites).2 hterminal
  · rw [perform_quiet hwrites]

/-- In a run whose steps are all sound nothing is missing and no terminal status changes. -/
theorem final_of_sound (henabled : task.history.isSome) (actions : List (Action Time))
    (h : ∀ front action later, actions = front ++ action :: later →
      Sound (after task front) action) : Final task actions := by
  induction actions using List.reverseRecOn with
  | nil =>
    intro reached hreached
    obtain rfl := prefix_nil.mp hreached
    refine ⟨rfl, ?_⟩
    intro front hfront _
    obtain rfl := prefix_nil.mp hfront
    rfl
  | append_singleton actions action ih =>
    have hbefore : Final task actions := by
      apply ih
      rintro front earlierAction later rfl
      exact h front earlierAction (later ++ [action]) (by simp)
    have hsound := h actions action [] rfl
    intro reached hreached
    rcases prefix_concat_iff.mp hreached with rfl | hreached
    · obtain ⟨htold, hstay⟩ := hbefore actions (prefix_refl actions)
      constructor
      · have hrecorded : Writes (after task actions) action.operation →
            action.operation.records = true := fun hwrites => (hsound hwrites).1
        rw [after_snoc, (told_perform_iff (enabled_after actions henabled)).mpr hrecorded, htold,
          statuses_snoc, append_assoc]
      · intro front hfront hterminal
        rcases prefix_concat_iff.mp hfront with rfl | hfront
        · rfl
        · have hsame := hstay front hfront hterminal
          rw [after_snoc, status_perform hsound (hsame ▸ hterminal), hsame]
    · exact hbefore reached hreached

theorem sound_of_final (henabled : task.history.isSome) {actions : List (Action Time)}
    (h : Final task actions) (front : List (Action Time)) (action : Action Time)
    (later : List (Action Time)) (hactions : actions = front ++ action :: later) :
    Sound (after task front) action := by
  have hnext : front ++ [action] <+: actions := ⟨later, by rw [hactions, append_assoc]; rfl⟩
  have hfront : front <+: actions := (prefix_append front [action]).trans hnext
  obtain ⟨htold, _⟩ := h front hfront
  obtain ⟨htold', hstay⟩ := h (front ++ [action]) hnext
  intro hwrites
  constructor
  · rw [after_snoc, statuses_snoc, ← append_assoc, ← htold] at htold'
    exact (told_perform_iff (enabled_after front henabled)).mp htold' hwrites
  · intro hterminal
    have hsame := hstay front (prefix_append front [action]) hterminal
    rwa [after_snoc, (perform_writes hwrites).1] at hsame

/-- A run of a task with its history enabled misses no status and leaves terminal ones alone exactly
when every write of it is one that is recorded, and none meets a terminal task, unless with the
status that the task has. -/
theorem task_history_exact (henabled : task.history.isSome) (actions : List (Action Time)) :
    Final task actions ↔ ∀ front action later, actions = front ++ action :: later →
      Sound (after task front) action := by
  constructor
  · intro h front action later hactions
    exact sound_of_final henabled h front action later hactions
  · exact final_of_sound henabled actions

def submittedTask : Task Nat := ⟨⟨.submitted, some 0, none, none⟩, some []⟩

theorem task_history_exact_started :
    submittedTask.history.isSome ∧ Final submittedTask [⟨.start, 1, 1⟩, ⟨.cancel, 2, 2⟩] := by
  have henabled : submittedTask.history.isSome := rfl
  refine ⟨henabled, (task_history_exact henabled _).mpr ?_⟩
  intro front action later hactions
  cases front with
  | nil =>
    obtain rfl := (List.cons.inj hactions).1
    exact fun _ => ⟨rfl, fun hterminal => absurd hterminal (by decide)⟩
  | cons first front =>
    obtain ⟨rfl, hrest⟩ := List.cons.inj hactions
    cases front with
    | nil =>
      obtain rfl := (List.cons.inj hrest).1
      exact fun _ => ⟨rfl, fun hterminal => absurd hterminal (by decide)⟩
    | cons second front =>
      have hlength := congrArg List.length hrest
      simp at hlength

/-- A failure is not preceded in the history by the status before. -/
theorem task_history_lossy :
    ¬ ∀ (task : Task Nat) (actions : List (Action Nat)), task.history.isSome →
      Final task actions := by
  intro hall
  have hfinal := hall submittedTask [⟨.fail ⟨-1, "no", none⟩, 1, 1⟩] rfl
  have htold := (hfinal _ (prefix_refl _)).1
  have hlength := congrArg List.length htold
  revert hlength
  decide

end ColossalCode.A2A.Lifecycle
