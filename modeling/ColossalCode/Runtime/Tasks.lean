import ColossalCode.Scoped.Agents
import ColossalCode.Transition.Run

/-! The agent runtime: a task for every command, and all tasks on the cells of one agent. -/
namespace ColossalCode.Runtime

open ColossalCode.Agent (ThinkingTags Response Reply Message Conversation readTurn)
open Scoped (Request Family firstRequest afterTools cancelled)

inductive Command where
  | userInput (userMessage : String)
  | cancel
  | clearContext
  | injectContext (summary : String)
  | reloadModel

/-- How far a `process_message` has come: it has the lock of the conversation from when it takes the
conversation to when its request is built, and waits for it again to store the request. -/
inductive Phase where
  | spawned
  | reset
  | taken (conversation : Option Request)
  | generating (builder : Request)
  | storing (request : Request)
  | ended

/-- A message that is marked has been sent a cancel request since it started. -/
inductive Task where
  | message (userMessage : String) (phase : Phase) (marked : Bool)
  | clear (ended : Bool)
  | inject (summary : String) (rendered : Option Request) (ended : Bool)
  | reload (ended : Bool)

/-- The writer is the task that has written the conversation last. -/
structure State where
  family : Family
  conversation : Option Request
  writer : Option Nat
  cancelRequested : Bool
  commands : List Command
  tasks : List Task

/-- What the cells of the agent hold before the commands. -/
def start (family : Family) (conversation : Option Request) (commands : List Command) : State :=
  ⟨family, conversation, none, false, commands, []⟩

/-- What a backend has answered comes from outside, as do the tags it is read with, the results of
the tool calls, and the prompt that a reload renders. -/
inductive Action where
  | receive
  | start (i : Nat)
  | take (i : Nat)
  | build (i : Nat)
  | reply (i : Nat) (tags : ThinkingTags) (reply : Reply) (results : List (Except String String))
  | honour (i : Nat) (tags : ThinkingTags) (responses : List Response)
  | store (i : Nat)
  | clear (i : Nat)
  | render (i : Nat)
  | inject (i : Nat)
  | reload (i : Nat) (systemPrompt : String)

def injectSummaryContext (family : Family) (summary : String) : Request :=
  let systemMsg := "You are Nite 3, a coding agent deployed in the best TUI colossal code. " ++
    "You live inside the terminal, running lean, fast, and sharp. " ++
    "Your role is to serve as the developer's right hand."
  let fullContextMsg := family.systemPrompt ++
    "\n\nThis session is being continued from a previous conversation that ran out of context. " ++
    "The previous conversation has been summarized below:\n\n" ++ summary
  ⟨(Conversation.addMessage [] .system systemMsg).addMessage .user fullContextMsg, family.tools⟩

/-- The task that a command spawns. -/
def Command.task : Command → Option Task
  | .userInput userMessage => some (.message userMessage .spawned false)
  | .cancel => none
  | .clearContext => some (.clear false)
  | .injectContext summary => some (.inject summary none false)
  | .reloadModel => some (.reload false)

def Task.mark : Task → Task
  | .message userMessage phase _ => .message userMessage phase true
  | task => task

/-- The task has the lock of the conversation. -/
def Task.locks : Task → Bool
  | .message _ (.taken _) _ => true
  | _ => false

def Task.ended : Task → Bool
  | .message _ .ended _ => true
  | .clear ended | .inject _ _ ended | .reload ended => ended
  | _ => false

namespace State

def locked (s : State) : Bool := s.tasks.any Task.locks

/-- All commands have been received, and all tasks have ended. -/
def Ended (s : State) : Prop := s.commands = [] ∧ ∀ task ∈ s.tasks, task.ended = true

def setTask (s : State) (i : Nat) (task : Task) : State :=
  { s with tasks := s.tasks.set i task }

def write (s : State) (i : Nat) (conversation : Option Request) (task : Task) : State :=
  { s with conversation, writer := some i, tasks := s.tasks.set i task }

/-- A command is received by the loop; a cancel request is set there and then. -/
def receive (s : State) (command : Command) (commands : List Command) : State :=
  match command.task with
  | some task => { s with commands, tasks := s.tasks ++ [task] }
  | none => { s with commands, cancelRequested := true, tasks := s.tasks.map Task.mark }

end State

section Step

variable (failureYaml : String → String → String)

/-- The phase after an answer of the backend. -/
def answer (tags : ThinkingTags) (builder : Request) (results : List (Except String String)) :
    Reply → Option Phase
  | .refused _ => some .ended
  | .streamed responses =>
    if (readTurn tags responses).calls.isEmpty then some (.storing builder)
    else if (readTurn tags responses).calls.length = results.length then
      some (.generating (afterTools tags failureYaml builder responses results))
    else none

def messageStep (s : State) (i : Nat) (userMessage : String) (marked : Bool) (phase : Phase) :
    Action → Option State
  | .start _ => match phase with
    | .spawned => some (State.setTask { s with cancelRequested := false } i
        (.message userMessage .reset false))
    | _ => none
  | .take _ => match phase with
    | .reset =>
      if s.locked then none
      else some (s.write i none (.message userMessage (.taken s.conversation) marked))
    | _ => none
  | .build _ => match phase with
    | .taken conversation => some (s.setTask i (.message userMessage
        (.generating (firstRequest s.family conversation userMessage)) marked))
    | _ => none
  | .reply _ tags reply results => match phase with
    | .generating builder => (answer failureYaml tags builder results reply).map fun phase =>
        s.setTask i (.message userMessage phase marked)
    | _ => none
  | .honour _ tags responses => match phase with
    | .generating builder =>
      if s.cancelRequested then
        some (s.setTask i (.message userMessage (.storing (cancelled tags builder responses)) marked))
      else none
    | _ => none
  | .store _ => match phase with
    | .storing request =>
      if s.locked then none
      else some (s.write i (some request) (.message userMessage .ended marked))
    | _ => none
  | _ => none

def taskStep (s : State) (i : Nat) (task : Task) (action : Action) : Option State :=
  match task, action with
  | .message userMessage phase marked, action =>
    messageStep failureYaml s i userMessage marked phase action
  | .clear false, .clear _ => if s.locked then none else some (s.write i none (.clear true))
  | .inject summary none false, .render _ =>
    some (s.setTask i (.inject summary (some (injectSummaryContext s.family summary)) false))
  | .inject summary (some request) false, .inject _ =>
    if s.locked then none else some (s.write i (some request) (.inject summary (some request) true))
  | .reload false, .reload _ systemPrompt =>
    some (State.setTask { s with family := { s.family with systemPrompt } } i (.reload true))
  | _, _ => none

/-- The task that an action is a step of. -/
def Action.task : Action → Option Nat
  | .receive => none
  | .start i | .take i | .build i | .reply i .. | .honour i .. | .store i | .clear i | .render i
  | .inject i | .reload i _ => some i

def step (s : State) (action : Action) : Option State :=
  match action.task with
  | none => match s.commands with
    | [] => none
    | command :: commands => some (s.receive command commands)
  | some i => (s.tasks[i]?).bind fun task => taskStep failureYaml s i task action

inductive Does (s : State) : Action → State → Prop
  | receive {command : Command} {commands : List Command}
      (hcommands : s.commands = command :: commands) : Does s .receive (s.receive command commands)
  | start {i : Nat} {userMessage : String} {marked : Bool}
      (htask : s.tasks[i]? = some (.message userMessage .spawned marked)) :
      Does s (.start i) (State.setTask { s with cancelRequested := false } i
        (.message userMessage .reset false))
  | take {i : Nat} {userMessage : String} {marked : Bool}
      (htask : s.tasks[i]? = some (.message userMessage .reset marked)) (hfree : s.locked = false) :
      Does s (.take i) (s.write i none (.message userMessage (.taken s.conversation) marked))
  | build {i : Nat} {userMessage : String} {marked : Bool} {conversation : Option Request}
      (htask : s.tasks[i]? = some (.message userMessage (.taken conversation) marked)) :
      Does s (.build i) (s.setTask i (.message userMessage
        (.generating (firstRequest s.family conversation userMessage)) marked))
  | reply {i : Nat} {userMessage : String} {marked : Bool} {builder : Request}
      {tags : ThinkingTags} {reply : Reply} {results : List (Except String String)} {phase : Phase}
      (htask : s.tasks[i]? = some (.message userMessage (.generating builder) marked))
      (hanswer : answer failureYaml tags builder results reply = some phase) :
      Does s (.reply i tags reply results) (s.setTask i (.message userMessage phase marked))
  | honour {i : Nat} {userMessage : String} {marked : Bool} {builder : Request}
      {tags : ThinkingTags} {responses : List Response}
      (htask : s.tasks[i]? = some (.message userMessage (.generating builder) marked))
      (hcancel : s.cancelRequested = true) :
      Does s (.honour i tags responses) (s.setTask i
        (.message userMessage (.storing (cancelled tags builder responses)) marked))
  | store {i : Nat} {userMessage : String} {marked : Bool} {request : Request}
      (htask : s.tasks[i]? = some (.message userMessage (.storing request) marked))
      (hfree : s.locked = false) :
      Does s (.store i) (s.write i (some request) (.message userMessage .ended marked))
  | clear {i : Nat} (htask : s.tasks[i]? = some (.clear false)) (hfree : s.locked = false) :
      Does s (.clear i) (s.write i none (.clear true))
  | render {i : Nat} {summary : String} (htask : s.tasks[i]? = some (.inject summary none false)) :
      Does s (.render i) (s.setTask i
        (.inject summary (some (injectSummaryContext s.family summary)) false))
  | inject {i : Nat} {summary : String} {request : Request}
      (htask : s.tasks[i]? = some (.inject summary (some request) false))
      (hfree : s.locked = false) :
      Does s (.inject i) (s.write i (some request) (.inject summary (some request) true))
  | reload {i : Nat} {systemPrompt : String} (htask : s.tasks[i]? = some (.reload false)) :
      Does s (.reload i systemPrompt)
        (State.setTask { s with family := { s.family with systemPrompt } } i (.reload true))

variable {failureYaml} {s t : State} {i : Nat}

theorem does_of_messageStep {action : Action} {userMessage : String} {phase : Phase} {marked : Bool}
    (hown : action.task = some i) (htask : s.tasks[i]? = some (.message userMessage phase marked))
    (h : messageStep failureYaml s i userMessage marked phase action = some t) :
    Does failureYaml s action t := by
  cases action with
  | receive | clear | render | inject | reload => cases h
  | start j =>
    cases hown
    cases phase <;> cases h
    exact .start htask
  | take j =>
    cases hown
    cases phase <;> try cases h
    cases hfree : s.locked with
    | true => simp [messageStep, hfree] at h
    | false =>
      simp only [messageStep, hfree, Bool.false_eq_true, if_false, Option.some.injEq] at h
      exact h ▸ .take htask hfree
  | build j =>
    cases hown
    cases phase <;> cases h
    exact .build htask
  | reply j tags reply results =>
    cases hown
    cases phase <;> try cases h
    obtain ⟨phase, hanswer, rfl⟩ := Option.map_eq_some_iff.mp h
    exact .reply htask hanswer
  | honour j tags responses =>
    cases hown
    cases phase <;> try cases h
    cases hcancel : s.cancelRequested with
    | false => simp [messageStep, hcancel] at h
    | true =>
      simp only [messageStep, hcancel, if_true, Option.some.injEq] at h
      exact h ▸ .honour htask hcancel
  | store j =>
    cases hown
    cases phase <;> try cases h
    cases hfree : s.locked with
    | true => simp [messageStep, hfree] at h
    | false =>
      simp only [messageStep, hfree, Bool.false_eq_true, if_false, Option.some.injEq] at h
      exact h ▸ .store htask hfree

theorem does_of_step {action : Action} (h : step failureYaml s action = some t) :
    Does failureYaml s action t := by
  cases hown : action.task with
  | none =>
    cases action <;> try cases hown
    cases hcommands : s.commands with
    | nil => simp [step, Action.task, hcommands] at h
    | cons command commands =>
      simp only [step, Action.task, hcommands, Option.some.injEq] at h
      exact h ▸ .receive hcommands
  | some i =>
    rw [step, hown] at h
    obtain ⟨task, htask, ht⟩ := Option.bind_eq_some_iff.mp h
    unfold taskStep at ht
    split at ht
    · exact does_of_messageStep hown htask ht
    · cases hown
      split at ht
      · cases ht
      · rename_i hfree
        cases ht
        exact .clear htask (Bool.eq_false_iff.mpr hfree)
    · cases hown
      cases ht
      exact .render htask
    · cases hown
      split at ht
      · cases ht
      · rename_i hfree
        cases ht
        exact .inject htask (Bool.eq_false_iff.mpr hfree)
    · cases hown
      cases ht
      exact .reload htask
    · cases ht

end Step

end ColossalCode.Runtime
