import ColossalCode.A2A.ToolLog
import ColossalCode.Agent.Cancelled
import ColossalCode.Transition.Interference
import Mathlib.Logic.Function.Basic

/-! Tasks that are executed side by side on clones of one agent: they share the cell of the
conversation and the flag that asks for a cancel. What the tools return comes from outside. -/
namespace ColossalCode.A2A.Sharing
open Orchestrator

open Protocol Transition
open ColossalCode.Agent (Conversation Response Turn Splitter ThinkingTags ToolCallResponse
  toolResult startRequest)

/-- What the clones of an agent share. -/
structure Shared where
  conversation : Option Conversation
  cancelRequested : Bool

/-- `process_message` on its way. While a turn is read, `checks` are the states at the checks that are
still to be passed, and `turn` is what it has come to behind them. -/
inductive Generating where
  | spawned
  | reset
  | requesting (builder : Conversation)
  | reading (builder : Conversation) (turn : Turn) (checks : List Splitter)
  | calling (builder : Conversation) (text : String) (calls : List ToolCallResponse)
  | storing (builder : Conversation)
  | ended (result : Except String Unit)

/-- An execution. The requests are those made of the model; what the generation has sent includes what
the handler has not read yet; once it has stopped, it only waits for the generation to end. A cancel is
requested of this execution when its task is cancelled while the generation runs. -/
structure Execution where
  step : SpecStep
  spec : SpecSheet
  generating : Generating
  sent : List Agent.AgentMessage
  requests : List Conversation
  requested : Bool
  cancelled : Bool
  read : List AgentMessage
  stopped : Bool
  outcome : Option (List Effect × Except String Task)

/-- What an execution does next, with what comes from outside. -/
inductive Move where
  | handle (step : SpecStep) (spec : SpecSheet)
  | cancel
  | reset
  | take
  | request (refused : Option String)
  | check
  | idle
  | receive (response : Response) (first second : Nat)
  | close
  | call (outcome : Except String String)
  | store
  | read
  | conclude

/-- What is given to the agent. -/
structure Host where
  runtime : Runtime
  agent : Agent
  systemPrompt : String
  tags : ThinkingTags
  failureYaml : String → String → String

def isSplit : AgentMessage → Bool
  | .toolCallCompleted name _ => name = "request_split"
  | _ => false

/-- The message ends the loop of the handler. -/
def isLast : AgentMessage → Bool
  | .error _ => true
  | .done => true
  | message => isSplit message

namespace Execution

variable (host : Host)

/-- The messages of the generation so far. -/
def channel (e : Execution) : List AgentMessage :=
  (e.sent ++ match e.generating with
    | .reading _ _ (check :: _) => check.sent
    | .reading _ turn [] => turn.splitter.sent
    | _ => []).map relayed

/-- The agent has been asked to cancel for the sake of this task. -/
def asked (e : Execution) : Bool := e.requested || e.read.any isSplit

/-- What the execution comes to, once the generation has ended. -/
def executed (id : String) (e : Execution) (messages : List AgentMessage)
    (processed : Except String Unit) : List Effect × Except String Task :=
  executeTask host.runtime { host.agent with messages, processed } id e.step e.spec

/-- A step that is to be split needs no generation. -/
def handle (id : String) (step : SpecStep) (spec : SpecSheet) : Execution :=
  let e : Execution := ⟨step, spec, .spawned, [], [], false, false, [], false, none⟩
  if step.constraints.contains splitDirective then
    { e with
      generating := .ended (.ok ())
      stopped := true
      outcome := some (e.executed host id [] (.ok ())) }
  else e

/-- The stream of a turn has ended. -/
def finishTurn (e : Execution) (builder : Conversation) (turn : Turn) : Execution :=
  let turn := { turn with splitter := turn.splitter.flush }
  { e with
    sent := e.sent ++ turn.splitter.sent
    generating :=
      if turn.calls.isEmpty then .storing builder
      else .calling builder (String.ofList turn.splitter.accumulatedContent) turn.calls }

/-- A cancel is found at a check. -/
def cancel (e : Execution) (builder : Conversation) (check : Splitter) : Execution :=
  { e with
    sent := e.sent ++ check.sent ++ check.cancelled
    generating := .storing (check.cancelledRequest builder)
    cancelled := true }

/-- A tool call has been executed. -/
def called (e : Execution) (builder : Conversation) (text : String) (call : ToolCallResponse)
    (calls : List ToolCallResponse) (outcome : Except String String) : Execution :=
  let result := toolResult host.failureYaml call outcome
  let builder := (builder.addMessageWithToolCall .assistant text [call]).addToolMessage result call.id
  { e with
    sent := e.sent ++ [.toolCallCompleted call.function.name result]
    generating := if calls.isEmpty then .requesting builder else .calling builder text calls }

/-- The handler reads the next message; there is none once the generation has dropped its sender. -/
def readNext (e : Execution) (shared : Shared) : Option (Shared × Execution) :=
  match e.channel[e.read.length]?, e.generating with
  | some message, _ =>
    some ({ shared with cancelRequested := shared.cancelRequested || isSplit message },
      { e with read := e.read ++ [message], stopped := isLast message })
  | none, .ended _ => some (shared, { e with stopped := true })
  | none, _ => none

/-- A move, with what it does to what is shared. -/
def move (id : String) (shared : Shared) (e : Execution) : Move → Option (Shared × Execution)
  | .handle _ _ => none
  | .cancel => some ({ shared with cancelRequested := true }, { e with requested := true })
  | .reset =>
    match e.generating with
    | .spawned => some ({ shared with cancelRequested := false },
        { e with generating := .reset, requested := false })
    | _ => none
  | .take =>
    match e.generating with
    | .reset =>
      let builder := startRequest host.systemPrompt shared.conversation e.step.instructions
      some ({ shared with conversation := none }, { e with generating := .requesting builder })
    | _ => none
  | .request refused =>
    match e.generating with
    | .requesting builder =>
      let e := { e with requests := e.requests ++ [builder] }
      some (shared, { e with generating := match refused with
        | some error => .ended (.error error)
        | none => .reading builder .init [Splitter.init] })
    | _ => none
  | .check =>
    match e.generating with
    | .reading builder turn (check :: checks) =>
      some (shared, if shared.cancelRequested then e.cancel builder check
        else { e with generating := .reading builder turn checks })
    | _ => none
  | .idle =>
    match e.generating with
    | .reading builder turn [] =>
      some (shared, { e with generating := .reading builder turn [turn.splitter, turn.splitter] })
    | _ => none
  | .receive response first second =>
    match e.generating with
    | .reading builder turn [] =>
      let (more, turn, checks) := turn.receive host.tags response first second
      some (shared, if more then
          { e with generating := .reading builder turn (checks ++ [turn.splitter]) }
        else e.finishTurn builder turn)
    | _ => none
  | .close =>
    match e.generating with
    | .reading builder turn [] => some (shared, e.finishTurn builder turn)
    | _ => none
  | .call outcome =>
    match e.generating with
    | .calling builder text (call :: calls) =>
      some (shared, e.called host builder text call calls outcome)
    | _ => none
  | .store =>
    match e.generating with
    | .storing builder => some ({ shared with conversation := some builder },
        { e with sent := e.sent ++ [.done], generating := .ended (.ok ()) })
    | _ => none
  | .read => if e.stopped then none else e.readNext shared
  | .conclude =>
    match e.generating, e.outcome with
    | .ended result, none =>
      if e.stopped then
        some (shared, { e with outcome := some (e.executed host id e.read result) })
      else none
    | _, _ => none

end Execution

structure Handler where
  shared : Shared
  tasks : String → Option Execution

/-- What is done for the task with the id. -/
structure HandlerAction where
  id : String
  move : Move

/-- Tasks have different ids. -/
def Handler.step (host : Host) (s : Handler) (a : HandlerAction) : Option Handler :=
  match s.tasks a.id, a.move with
  | none, .handle step spec =>
    let e := Execution.handle host a.id step spec
    some { s with tasks := Function.update s.tasks a.id (some e) }
  | none, .cancel => some { s with shared := { s.shared with cancelRequested := true } }
  | none, _ => none
  | some e, move => (e.move host a.id s.shared move).map fun next =>
      ⟨next.1, Function.update s.tasks a.id (some next.2)⟩

/-- A handler whose agent holds a conversation, and may have been cancelled. -/
def Handler.start (shared : Shared) : Handler := ⟨shared, fun _ => none⟩

/-- Each task has come to what it would have come to alone, and only a cancel that was asked for it has
ended its generation. -/
structure Separate (host : Host) (s : Handler) (actions : List HandlerAction) (t : Handler) :
    Prop where
  alone : ∀ id, ∃ v, run (Handler.step host) s (actions.filter fun a => a.id = id) = some v ∧
    v.tasks id = t.tasks id
  cancels : ∀ id e, t.tasks id = some e → e.cancelled = true → e.asked = true

/-- The conversation has not been taken yet. -/
def Generating.early : Generating → Bool
  | .spawned | .reset => true
  | _ => false

/-- The flag has been reset for the generation, which has not ended. -/
def Generating.running : Generating → Bool
  | .spawned | .ended _ => false
  | _ => true

variable {host : Host} {id : String} {shared shared' other : Shared} {e e' : Execution} {m : Move}
  {a : HandlerAction}

/-- The flag is only read at a check, and the conversation only when it is taken. -/
theorem move_reads (h : e.move host id shared m = some (shared', e'))
    (hcell : m = .take → other.conversation = shared.conversation)
    (hflag : m = .check → other.cancelRequested = shared.cancelRequested) :
    ∃ other', e.move host id other m = some (other', e') := by
  cases m <;> simp only [Execution.move] at h ⊢
  case handle => cases h
  case take =>
    rw [hcell rfl]
    split at h
    · cases h
      exact ⟨_, rfl⟩
    · cases h
  case check =>
    rw [hflag rfl]
    split at h
    · cases h
      exact ⟨_, rfl⟩
    · cases h
  case cancel =>
    cases h
    exact ⟨_, rfl⟩
  case read =>
    split at h
    · cases h
    · rename_i hopen
      rw [if_neg hopen]
      unfold Execution.readNext at h ⊢
      split at h
      · cases h
        exact ⟨_, rfl⟩
      · cases h
        exact ⟨_, rfl⟩
      · cases h
  case conclude =>
    split at h
    · split at h
      · cases h
        rename_i hstopped
        exact ⟨_, by rw [if_pos hstopped]⟩
      · cases h
    · cases h
  all_goals
    split at h
    · cases h
      exact ⟨_, rfl⟩
    · cases h

theorem asked_append (e : Execution) (message : AgentMessage) (stopped : Bool) :
    ({ e with read := e.read ++ [message], stopped } : Execution).asked =
      (e.asked || isSplit message) := by
  simp [Execution.asked, Bool.or_assoc]

/-- Reading changes neither the generation nor what it has sent; a cancel is asked for as the flag is
set. -/
theorem readNext_frame (h : e.readNext shared = some (shared', e')) :
    e'.generating = e.generating ∧ e'.cancelled = e.cancelled ∧
      shared'.conversation = shared.conversation ∧
      ∃ split, shared'.cancelRequested = (shared.cancelRequested || split) ∧
        e'.asked = (e.asked || split) := by
  unfold Execution.readNext at h
  split at h
  · rename_i message _
    cases h
    exact ⟨rfl, rfl, rfl, isSplit message, rfl, asked_append e message _⟩
  · cases h
    exact ⟨rfl, rfl, rfl, false, (Bool.or_false _).symm, (Bool.or_false _).symm⟩
  · cases h

end ColossalCode.A2A.Sharing
