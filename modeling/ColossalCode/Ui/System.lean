import ColossalCode.Ui.Keys
import ColossalCode.Transition.Run

/-! The interface together with the turns that it starts, whose messages come back on one channel. -/
namespace ColossalCode.Ui

variable {Stats : Type*}

inductive Key where
  | type (text : String)
  | submit (survey : Bool) (blockedPath : String)
  | escape
  | ctrlC
  | up
  | down
  | rewind (selected : Nat) (preview : String)
  | panel (notices : List String)

def App.press (texts : Texts Stats) (a : App Stats) : Key → App Stats
  | .type text => { a with input := text }
  | .submit survey blockedPath => a.submitMessage texts survey blockedPath
  | .escape => a.escape
  | .ctrlC => a.ctrlC
  | .up => a.navigateHistoryBackwards
  | .down => a.navigateHistoryForwards
  | .rewind selected preview => a.rewind selected preview
  | .panel notices => a.pushNotices notices

/-- What ends an orchestration, with an error or without. -/
def App.orchestrationEnded (a : App Stats) (error : Option String) : App Stats :=
  { error.elim a fun error => a.push (.agent ("[SPEC ERROR] " ++ error)) with
    orchestrationInProgress := false }

/-- The turns are numbered as their messages have been sent. -/
def App.turns (a : App Stats) : Nat :=
  (a.told.filter fun told => match told with
    | .userInput _ => true
    | _ => false).length

/-- How far the runtime has come in its round. -/
inductive Stage where
  | keys
  | reading
  | events
  | part (part : Part)
  deriving DecidableEq

/-- A message as it has been read: whose it is, what it found and what it left. A stale one is of a
turn that has been interrupted, while a later turn waits for its end. The compaction is the turn that
has been started last to compact; it is spoilt once it has been cancelled or has failed. -/
structure Reading (Stats : Type*) where
  turn : Option Nat
  message : AgentMessage Stats
  stale : Bool
  compaction : Option Nat
  spoilt : Bool
  before : App Stats
  after : App Stats
  outcome : Outcome

/-- Running turns have still to send their `Done`; of a closed one it has been read. -/
structure State (Stats : Type*) where
  app : App Stats
  stage : Stage
  outcome : Outcome
  channel : List (Option Nat × AgentMessage Stats)
  running : List Nat
  closed : List Nat
  interrupted : List Nat
  cancelled : List Nat
  failed : List Nat
  compaction : Option Nat
  log : List (Reading Stats)

inductive Action (Stats : Type*) where
  | emit (turn : Option Nat) (message : AgentMessage Stats)
  | tick
  | read (full : Bool)
  | drained
  | orchestrated (error : Option String)
  | handled
  | part (found : Found)
  | key (key : Key)

/-- What a turn sends, and what comes from the other tasks of the agent. -/
def AgentMessage.ofTurn : AgentMessage Stats → Bool
  | .contextCleared | .contextInjected | .modelLoaded => false
  | _ => true

def AgentMessage.ofTask : AgentMessage Stats → Bool
  | .contextCleared | .contextInjected | .modelLoaded | .error _ => true
  | _ => false

def AgentMessage.isDone : AgentMessage Stats → Bool
  | .done => true
  | _ => false

def AgentMessage.isError : AgentMessage Stats → Bool
  | .error _ => true
  | _ => false

def Outcome.merge (o o' : Outcome) : Outcome where
  processQueued := o.processQueued || o'.processQueued
  processInterrupt := o'.processInterrupt <|> o.processInterrupt
  createRewind := o.createRewind || o'.createRewind
  checkAutoSummarize := o.checkAutoSummarize || o'.checkAutoSummarize
  triggerMidStreamAutoSummarize :=
    o.triggerMidStreamAutoSummarize || o'.triggerMidStreamAutoSummarize
  scheduleResumePrompt := o.scheduleResumePrompt || o'.scheduleResumePrompt

namespace State

def new (limitThinkingToFirstToken : Bool) (commandHistory : List String) : State Stats :=
  ⟨.new limitThinkingToFirstToken commandHistory, .keys, .new, [], [], [], [], [], [], none, []⟩

def outstanding (s : State Stats) (turn : Nat) : Bool :=
  decide (turn < s.app.turns) && !s.closed.contains turn

def outstandingTurns (s : State Stats) : List Nat := (List.range s.app.turns).filter s.outstanding

/-- The interface goes on, with the turns that it has started; a cancel request is for all that are
outstanding. -/
def proceed (s : State Stats) (app : App Stats) : State Stats :=
  { s with
    app
    running := s.running ++ List.range' s.app.turns (app.turns - s.app.turns)
    cancelled := if app.told.count .cancel = s.app.told.count .cancel then s.cancelled
      else s.cancelled ++ s.outstandingTurns }

def interrupt (s : State Stats) : State Stats :=
  { s with interrupted := s.interrupted ++ s.outstandingTurns }

def stale (s : State Stats) (turn : Option Nat) : Bool :=
  turn.any fun turn => s.interrupted.contains turn && s.outstandingTurns.any (turn < ·)

def spoilt (s : State Stats) : Bool :=
  s.compaction.any fun turn => s.cancelled.contains turn || s.failed.contains turn

end State

section Step

variable (texts : Texts Stats)

def doRead (s : State Stats) (full : Bool) (turn : Option Nat) (message : AgentMessage Stats)
    (channel : List (Option Nat × AgentMessage Stats)) : State Stats :=
  let (app, outcome) := s.app.handle texts full turn message
  { s with
    app
    outcome := s.outcome.merge outcome
    channel
    closed := if message.isDone then s.closed ++ turn.toList else s.closed
    failed := if message.isError then s.failed ++ turn.toList else s.failed
    log := s.log ++ [⟨turn, message, s.stale turn, s.compaction, s.spoilt, s.app, app, outcome⟩] }

def nextStage (part : Part) : Stage := part.next.elim .keys .part

def doPart (s : State Stats) (part : Part) (found : Found) : State Stats :=
  let (app, outcome) := s.app.part texts s.outcome found part
  let interrupted :=
    if part = .midStream && s.outcome.triggerMidStreamAutoSummarize then s.interrupt else s
  { interrupted.proceed app with
    outcome
    stage := nextStage part
    compaction := if part = .compaction && s.app.compactPending.isSome then some s.app.turns
      else s.compaction }

def doKey (s : State Stats) (key : Key) : State Stats :=
  let interrupted := match key with
    | .escape => if s.app.busy then s.interrupt else s
    | _ => s
  interrupted.proceed (s.app.press texts key)

def step (s : State Stats) : Action Stats → Option (State Stats)
  | .emit (some turn) message =>
    if turn ∈ s.running ∧ message.ofTurn = true then
      some { s with
        channel := s.channel ++ [(some turn, message)]
        running := if message.isDone then s.running.filter (· ≠ turn) else s.running }
    else none
  | .emit none message =>
    if message.ofTask then some { s with channel := s.channel ++ [(none, message)] } else none
  | .tick =>
    if s.stage = .keys then some { s with stage := .reading, outcome := .new } else none
  | .read full =>
    if s.stage = .reading then
      match s.channel with
      | [] => none
      | (turn, message) :: channel => some (doRead texts s full turn message channel)
    else none
  | .drained =>
    if s.stage = .reading ∧ s.channel.isEmpty then some { s with stage := .events } else none
  | .orchestrated error =>
    if s.stage = .events then some { s with app := s.app.orchestrationEnded error } else none
  | .handled => if s.stage = .events then some { s with stage := .part .interrupt } else none
  | .part found =>
    match s.stage with
    | .part part => some (doPart texts s part found)
    | _ => none
  | .key key => if s.stage = .keys then some (doKey texts s key) else none

end Step

/-- Texts in their barest form. -/
def bareTexts : Texts Unit where
  formatToolArguments _ arguments := arguments
  formatToolResult _ result _ := result
  blockedPath _ := none
  orchestrationGoal _ := none
  statsFields _ := ""
  sameStats _ _ := true
  dispatchSlashCommand command := if command = "/summarize" then .summarize none else .notice []
  buildReviewPrompt options := options
  buildCompactPrompt _ _ := "compact"

/-- A message is typed and entered. -/
def submitted (text : String) : List (Action Unit) := [.key (.type text), .key (.submit false "")]

/-- A round of the runtime, up to one of its parts. -/
def round (messages parts : Nat) : List (Action Unit) :=
  .tick :: List.replicate messages (.read false) ++ .drained :: .handled ::
    List.replicate parts (.part ⟨false, false, none, [], none⟩)

end ColossalCode.Ui
