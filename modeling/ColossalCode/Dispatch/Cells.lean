import ColossalCode.Dispatch.Executed
import ColossalCode.Transition.Run
import Mathlib.Logic.Function.Basic

/-! The cells that all calls of the process share, and calls that take turns on them. What the
manager makes of a command, and where a shell stands after it, comes from outside. -/
namespace ColossalCode.Dispatch

open Sessionizer

/-- Where a shell stands. -/
structure Standing where
  cwd : String
  env : List (String × String)
  deriving DecidableEq

/-- A session of the manager; one that is gone is kept, so that its id is not used again. -/
structure ShellSession where
  sandboxPolicy : SandboxPolicy
  initialCwd : String
  standing : Standing
  alive : Bool
  deriving DecidableEq

structure Cells where
  pendingSandboxPolicy : SandboxPolicy
  effectiveSandboxPolicy : SandboxPolicy
  shellSessionId : Option SessionId
  sessionHasBackgroundProcess : Bool
  continuityState : Continuity
  sessions : SessionId → Option ShellSession

namespace Cells

/-- The manager knows the session. -/
def live (cells : Cells) (sessionId : SessionId) : Option ShellSession :=
  (cells.sessions sessionId).filter (·.alive)

def setSession (cells : Cells) (sessionId : SessionId) (session : ShellSession) : Cells :=
  { cells with sessions := Function.update cells.sessions sessionId (some session) }

@[simp] theorem setSession_self (cells : Cells) (sessionId : SessionId) (session : ShellSession) :
    (cells.setSession sessionId session).sessions sessionId = some session :=
  Function.update_self _ _ _

theorem setSession_of_ne (cells : Cells) {sessionId other : SessionId} (session : ShellSession)
    (h : other ≠ sessionId) :
    (cells.setSession sessionId session).sessions other = cells.sessions other :=
  Function.update_of_ne h _ _

/-- `terminate_session`, or the end of a session that nobody uses. -/
def terminate (cells : Cells) (sessionId : SessionId) : Cells :=
  match cells.sessions sessionId with
  | some session => cells.setSession sessionId { session with alive := false }
  | none => cells

/-- The session of the calls, as far as the manager still knows it. -/
def forgetGone (cells : Cells) : Cells :=
  match cells.shellSessionId with
  | some existing =>
    if (cells.live existing).isSome then cells
    else { cells with shellSessionId := none, sessionHasBackgroundProcess := false }
  | none => cells

end Cells

/-- What the world outside decides about a question. -/
inductive Outside where
  | quiet
  | replied (reply : Reply)
  | spawned (sessionId : SessionId) (standing : Standing)
  | failed (error : String)
  | attempted (attempt : Attempt) (standing : Standing)

def Attempt.started : Attempt → Bool
  | .ran _ => true
  | .unmanaged => false
  | .failed _ started => started

section Serve

variable (platform : Platform)

/-- A session that starts in the workspace root is moved to where its caller works. -/
def seedContinuity (state : Continuity) (seedCwd : String) : Continuity :=
  if state.currentCwd = platform.workspaceRoot then
    { state with currentCwd := seedCwd, initialCwd := seedCwd }
  else state

/-- `spawn_shell_session_with_snapshot`; replayed commands may move the new session. -/
def spawnShellSession (cells : Cells) (state : Continuity) : Outside → Option (Cells × Reply)
  | .spawned sessionId standing =>
    if cells.sessions sessionId = none ∧
        (state.replayCommands = [] → standing.cwd = state.currentCwd) then
      some ({ cells.setSession sessionId
          ⟨cells.pendingSandboxPolicy, state.currentCwd, standing, true⟩ with
        shellSessionId := some sessionId
        effectiveSandboxPolicy := cells.pendingSandboxPolicy }, .session (.ok sessionId))
    else none
  | .failed error => some (cells, .session (.error error))
  | _ => none

/-- The session lock is held throughout, and each of the other cells is read once. -/
def getOrCreateShellSession (cells : Cells) (seedCwd : String) (outside : Outside) :
    Option (Cells × Reply) :=
  let cells := cells.forgetGone
  let state := seedContinuity platform cells.continuityState seedCwd
  match cells.shellSessionId with
  | none => spawnShellSession cells state outside
  | some existing =>
    if cells.sessionHasBackgroundProcess then spawnShellSession cells state outside
    else if cells.effectiveSandboxPolicy ≠ cells.pendingSandboxPolicy then
      spawnShellSession { cells.terminate existing with shellSessionId := none } state outside
    else
      match outside with
      | .quiet => some (cells, .session (.ok existing))
      | _ => none

/-- A command in a session that the manager knows moves it, unless it is run in a fork. -/
def execInSession (cells : Cells) (sessionId : SessionId) (forked : Bool) :
    Outside → Option (Cells × Reply)
  | .attempted attempt standing =>
    match cells.live sessionId with
    | some session =>
      some (if attempt.started && !forked then
        cells.setSession sessionId { session with standing } else cells, .attempt attempt)
    | none => if attempt.started then none else some (cells, .attempt attempt)
  | _ => none

/-- `sync_continuity_state_from_session` -/
def syncContinuity (cells : Cells) (sessionId : SessionId) (replayedCommand : Option String) :
    Outside → Option (Cells × Reply)
  | .quiet =>
    (cells.live sessionId).map fun session =>
      let replayCommands :=
        if platform.shellKind = .managedNu then []
        else cells.continuityState.replayCommands ++ replayedCommand.toList
      ({ cells with continuityState := { cells.continuityState with
        initialCwd := session.initialCwd
        currentCwd := session.standing.cwd
        envVars := session.standing.env
        replayCommands } }, .synced (.ok ()))
  | .failed error => some (cells, .synced (.error error))
  | _ => none

/-- How the cells and the world outside reply to a question. -/
def serve (cells : Cells) : Query → Outside → Option (Cells × Reply)
  | .writePolicy policy, .quiet => some ({ cells with pendingSandboxPolicy := policy }, .done)
  | .readPolicy, .quiet => some (cells, .policy cells.pendingSandboxPolicy)
  | .readContinuity, .quiet => some (cells, .continuity cells.continuityState)
  | .shellSession seedCwd, outside => getOrCreateShellSession platform cells seedCwd outside
  | .forkEval sessionId _ _, outside => execInSession cells sessionId true outside
  | .execInSession sessionId _ _, outside => execInSession cells sessionId false outside
  | .syncContinuity sessionId replayedCommand, outside =>
    syncContinuity platform cells sessionId replayedCommand outside
  | .dropSession sessionId onlyCurrent, .quiet =>
    some ({ cells.terminate sessionId with
      shellSessionId :=
        if onlyCurrent ∧ cells.shellSessionId ≠ some sessionId then cells.shellSessionId
        else none }, .done)
  | .runIsolated _ _ _ _ _, .attempted attempt _ => some (cells, .attempt attempt)
  | .toolsBinary _ _ _, .replied (.binary run) => some (cells, .binary run)
  | .readBackgroundOutput _, .replied (.output contents) => some (cells, .output contents)
  | .webSearch _ _ _, .replied (.search run) => some (cells, .search run)
  | .htmlToText _ _, .replied (.page content) => some (cells, .page content)
  | .requestApproval _, .replied (.approval answer) => some (cells, .approval answer)
  | _, _ => none

end Serve

/-- The policy and the directory of what runs with a reply. -/
def ranUnder (cells : Cells) : Query → Reply → Option (SandboxPolicy × String)
  | .toolsBinary _ policy cwd, .binary run =>
    match run with
    | .notStarted _ => none
    | _ => some (policy, cwd)
  | .runIsolated _ cwd _ policy _, .attempt attempt =>
    if attempt.started then some (policy, cwd) else none
  | .forkEval sessionId _ _, .attempt attempt | .execInSession sessionId _ _, .attempt attempt =>
    if attempt.started then
      (cells.live sessionId).map fun session => (session.sandboxPolicy, session.standing.cwd)
    else none
  | _, _ => none

structure Call where
  agent : CallingAgent
  name : String
  arguments : String

/-- A command or a tools binary that has run. -/
structure Execution (κ : Type) where
  call : κ
  sandboxPolicy : SandboxPolicy
  cwd : String

structure State (κ : Type) where
  cells : Cells
  phase : κ → Phase
  executions : List (Execution κ)

inductive CellAction (κ : Type) where
  | advance (c : κ) (outside : Outside)
  | expire (sessionId : SessionId)

section Step

variable {κ : Type} [DecidableEq κ] (platform : Platform) (calls : κ → Call)

/-- A call asks its next question and goes on with the reply. -/
def advance (s : State κ) (c : κ) (outside : Outside) : Option (State κ) :=
  let call := calls c
  (query platform call.agent (s.phase c)).bind fun q =>
    (serve platform s.cells q outside).bind fun (cells, reply) =>
      (resume platform call.agent call.name call.arguments (s.phase c) reply).map fun phase =>
        { cells
          phase := Function.update s.phase c phase
          executions := s.executions ++
            ((ranUnder s.cells q reply).map fun ran => ⟨c, ran.1, ran.2⟩).toList }

def cellStep (s : State κ) : CellAction κ → Option (State κ)
  | .advance c outside => advance platform calls s c outside
  | .expire sessionId => some { s with cells := s.cells.terminate sessionId }

/-- No call has started. -/
def State.start (cells : Cells) : State κ := ⟨cells, fun _ => .called, []⟩

/-- The cells of a process before its first call. -/
def Cells.init (shellPath : String) (policy : SandboxPolicy) : Cells where
  pendingSandboxPolicy := policy
  effectiveSandboxPolicy := policy
  shellSessionId := none
  sessionHasBackgroundProcess := false
  continuityState := ⟨shellPath, platform.workspaceRoot, platform.workspaceRoot, [], []⟩
  sessions _ := none

end Step

end ColossalCode.Dispatch
