import ColossalCode.Broadcast.Subscription
import ColossalCode.Pty.Reading
import ColossalCode.Transition.Run

/-! The output of one exec session: the task that reads the PTY, the one that waits for the process,
and the four loops that collect what is broadcast. -/
namespace ColossalCode.Output

open Broadcast Text

variable {β : Type}

/-- Where a collecting loop is: at its look at the clock, at the exit notification, at the channel,
in the time of grace after an exit, or past its end. -/
inductive Point where
  | deadline
  | exit
  | output
  | grace
  | finished
  deriving DecidableEq, Repr

/-- One collecting loop. -/
structure Consumer (β : Type) where
  /-- Where it goes on after a chunk. -/
  again : Point
  again_ne : again ≠ .finished
  /-- Whether it has a deadline. -/
  expires : Bool
  /-- Where it goes on when there is nothing to receive, by whether its deadline has passed. -/
  waits : Bool → Point
  lagged : Point
  closed : Point
  /-- Where it goes on when the exit notification never comes. -/
  unexpected : Point
  start : β
  take : β → List UInt8 → β
  exited : β → Option Int → β
  expired : β → β

/-- The places of the broadcast channel. -/
def channelCapacity : Nat := 256

/-- The buffer of one read. -/
def readSize : Nat := 8192

structure Execution (β : Type) where
  /-- What the reader task has read, and whether it has ended. -/
  sent : List (List UInt8)
  ended : Bool
  /-- Whether the session, which has a sender of its own, is still stored. -/
  stored : Bool
  /-- The exit notification: a code, or the loss of its sender. -/
  exit : Option (Option Int)
  receiver : Option (Subscription (List UInt8))
  point : Point
  got : β
  deriving DecidableEq, Repr

inductive Action where
  | read (chunk : List UInt8)
  | endOfFile
  | remove
  | exit (code : Option Int)
  | subscribe
  /-- One step of the loop; `late` is what the clock says of the deadline it has there. -/
  | turn (late : Bool)
  deriving DecidableEq, Repr

/-- The loop is spawned with the session, and starts at `point`. -/
def Consumer.begin (c : Consumer β) : Execution β := ⟨[], false, true, none, none, c.again, c.start⟩

/-- There are senders until the reader task has ended and the session is removed. -/
def Execution.isOpen (s : Execution β) : Bool := !s.ended || s.stored

def Consumer.turn (c : Consumer β) (s : Execution β) (r : Subscription (List UInt8))
    (late : Bool) : Option (Execution β) :=
  match s.point with
  | .finished => none
  | .deadline =>
    if c.expires && late then some { s with point := .finished, got := c.expired s.got }
    else some { s with point := .exit }
  | .exit =>
    match s.exit with
    | none => some { s with point := .output }
    | some (some code) => some { s with point := .grace, got := c.exited s.got (some code) }
    | some none => some { s with point := c.unexpected, got := c.exited s.got none }
  | .output =>
    match r.receive s.isOpen with
    | (.item chunk, r) =>
      some { s with receiver := some r, point := c.again, got := c.take s.got chunk }
    | (.lagged _, r) => some { s with receiver := some r, point := c.lagged }
    | (.empty, _) => some { s with point := c.waits late }
    | (.closed, _) => some { s with point := c.closed }
  | .grace =>
    if late then some { s with point := .finished }
    else
      match r.receive s.isOpen with
      | (.item chunk, r) => some { s with receiver := some r, got := c.take s.got chunk }
      | (.lagged _, r) => some { s with receiver := some r }
      | (.empty, _) | (.closed, _) => some { s with point := .finished }

/-- The reader task sends every chunk that it reads, to whoever has subscribed by then. -/
def Consumer.step (c : Consumer β) (s : Execution β) : Action → Option (Execution β)
  | .read chunk =>
    if s.ended = false ∧ chunk ≠ [] ∧ chunk.length ≤ readSize then
      some { s with
        sent := s.sent ++ [chunk]
        receiver := s.receiver.map fun r => r.send channelCapacity chunk }
    else none
  | .endOfFile => if s.ended then none else some { s with ended := true }
  | .remove => some { s with stored := false }
  | .exit code => if s.exit.isSome then none else some { s with exit := some code }
  | .subscribe => if s.receiver.isSome then none else some { s with receiver := some .new }
  | .turn late => s.receiver.bind fun r => c.turn s r late

structure Foreground where
  stdoutBuf : List UInt8
  aggregatedBuf : List UInt8
  exitCode : Option Int
  deriving DecidableEq, Repr

/-- The foreground loop of `handle_exec_command_request`. A receive that waits past the deadline
ends the loop at its head; one that is woken before polls the exit notification first. -/
def handleExecCommandRequest : Consumer Foreground where
  again := .deadline
  again_ne := nofun
  expires := true
  waits := fun late => if late then .finished else .exit
  lagged := .deadline
  closed := .deadline
  unexpected := .grace
  start := ⟨[], [], none⟩
  take := fun b chunk =>
    { b with stdoutBuf := b.stdoutBuf ++ chunk, aggregatedBuf := b.aggregatedBuf ++ chunk }
  exited := fun b code => { b with exitCode := some (code.getD (-1)) }
  expired := fun b => b

/-- The task that writes a background command's log file. It looks at nothing but the channel. -/
def backgroundLog : Consumer (List UInt8) where
  again := .output
  again_ne := nofun
  expires := false
  waits := fun _ => .output
  lagged := .finished
  closed := .finished
  unexpected := .finished
  start := []
  take := fun log chunk => log ++ chunk
  exited := fun log _ => log
  expired := fun log => log

inductive StreamEvent where
  | stdout (output : List Char)
  | exit (code : Int)
  | error (message : List Char)
  deriving DecidableEq, Repr

def stdoutMark : List Char := "STDOUT: ".toList

def streamExited (code : Option Int) : StreamEvent :=
  match code with
  | some code => .exit code
  | none => .error "Process exited unexpectedly".toList

def streamExpired : StreamEvent := .error "Command timed out".toList

/-- The events of one chunk in `stream_exec_command`. -/
def chunkEvents (chunk : List UInt8) : List StreamEvent :=
  match Pty.forward chunk with
  | none => []
  | some rawOutput => [.stdout (stdoutMark ++ rawOutput)]

/-- `stream_exec_command`, whose timeout is optional. -/
def streamExecCommand (timeoutMs : Option Nat) : Consumer (List StreamEvent) where
  again := .deadline
  again_ne := nofun
  expires := timeoutMs.isSome
  waits := fun _ => .deadline
  lagged := .deadline
  closed := .deadline
  unexpected := .finished
  start := []
  take := fun events chunk => events ++ chunkEvents chunk
  exited := fun events code => events ++ [streamExited code]
  expired := fun events => events ++ [streamExpired]

/-- The lines of a text that a newline ends, and what follows the last newline. -/
def cutLines : List Char → List (List Char) × List Char
  | [] => ([], [])
  | c :: text =>
    let (lines, rest) := cutLines text
    if c = '\n' then ([] :: lines, rest)
    else
      match lines with
      | [] => ([], c :: rest)
      | line :: lines => ((c :: line) :: lines, rest)

/-- The events of one complete line in `stream_exec_command_enhanced`. -/
def lineEvents (line : List Char) : List StreamEvent :=
  if Pty.isNoise line then [] else [.stdout (stdoutMark ++ line ++ ['\n'])]

structure LineStream where
  events : List StreamEvent
  buffer : List Char
  deriving DecidableEq, Repr

/-- `stream_exec_command_enhanced`, which sends whole lines and keeps the rest. -/
def streamExecCommandEnhanced (timeoutMs : Option Nat) : Consumer LineStream where
  again := .deadline
  again_ne := nofun
  expires := timeoutMs.isSome
  waits := fun _ => .deadline
  lagged := .deadline
  closed := .finished
  unexpected := .finished
  start := ⟨[], []⟩
  take := fun b chunk =>
    let (lines, rest) := cutLines (b.buffer ++ fromUtf8Lossy chunk)
    ⟨b.events ++ lines.flatMap lineEvents, rest⟩
  exited := fun b code => { b with events := b.events ++ [streamExited code] }
  expired := fun b => { b with events := b.events ++ [streamExpired] }

end ColossalCode.Output
