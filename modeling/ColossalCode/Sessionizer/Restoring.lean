import ColossalCode.Nu.Restore
import ColossalCode.Sessionizer.Shells

/-! Sessions that are put back from what was saved of them: what a call that fails leaves in the
tables, and where the shells stand after a call that does not. -/
namespace ColossalCode.Sessionizer

variable {σ ν : Type}

/-- A saved session with the structured state of a managed Nu runtime. -/
structure Snapshot (ν : Type) extends PersistentSessionState where
  structuredEnv : Option (Option (List (String × ν)))
  nuVars : List (String × Bool × ν)
  nuCustomCommands : List String
  nuAliases : List (String × String)
  nuReplayCommands : List Nu.ReplayCommand
  nuConfig : Option (Option ν)

def Snapshot.nu (s : Snapshot ν) : Nu.NuSnapshot ν where
  initialCwd := s.initialCwd
  currentCwd := s.currentCwd
  envVars := s.envVars
  structuredEnv := s.structuredEnv
  vars := s.nuVars
  customCommands := s.nuCustomCommands
  aliases := s.nuAliases
  replayCommands := s.nuReplayCommands
  config := s.nuConfig

/-- The directory and the environment of a shell that runs. -/
structure LiveShell where
  cwd : String
  env : List (String × String)

/-- A shell: where it comes up when it is started in a directory, and what a line makes of it. -/
structure Terminal where
  starts : String → LiveShell
  takes : LiveShell → String → LiveShell

/-- What a session meets outside when it is put back. -/
structure Outside (σ ν : Type) where
  host : Host
  builder : Nu.Builder σ ν
  terminal : Terminal

def nuAnswer {α : Type} : Except String α → Except ColossalErr Unit
  | .ok _ => .ok ()
  | .error error => .error (.io error)

/-- The host of a session that is spawned and then restored. -/
def Outside.spawning (o : Outside σ ν) (sandboxPolicy : SandboxPolicy) (s : Snapshot ν) : Host :=
  { o.host with
    opensNu := fun _ sandboxPolicy cwd => nuAnswer (o.builder.newRuntime cwd sandboxPolicy)
    restoresNu := fun _ => nuAnswer (o.builder.restored s.nu s.currentCwd sandboxPolicy) }

/-- The host of a session that is loaded: `from_snapshot` restores it before it enters a table. -/
def Outside.loading (o : Outside σ ν) (s : Snapshot ν) : Host :=
  { o.host with
    opensNu := fun _ sandboxPolicy _ => nuAnswer (o.builder.fromSnapshot s.nu sandboxPolicy) }

/-- The commands that `restore_shell_session_from_snapshot` gives to a shell. -/
inductive RestoreCommand where
  | changeDir (cwd : String)
  | setEnv (key value : String)
  | replay (command : String)

namespace RestoreCommand

def text (host : Host) : RestoreCommand → String
  | .changeDir cwd => "cd " ++ host.escape cwd
  | .setEnv key value => "export " ++ key ++ "=" ++ shellSingleQuote value
  | .replay command => command

/-- The restore fails with the command. -/
def required : RestoreCommand → Bool
  | .setEnv _ _ => false
  | _ => true

def perform (host : Host) (sessionId : SessionId) (command : RestoreCommand) : Op Unit :=
  match command with
  | .changeDir _ => do
    let _ ← execCommandInShellSession host sessionId (command.text host) (some 5000) none
  | .setEnv key value => setEnvInShellSession host sessionId key value
  | .replay _ => do
    let _ ← execCommandInShellSession host sessionId (command.text host) (some 30000) none

end RestoreCommand

def restoreCommands (state : PersistentSessionState) : List RestoreCommand :=
  (if state.currentCwd ≠ state.initialCwd then [.changeDir state.currentCwd] else []) ++
    state.envVars.map (fun entry => .setEnv entry.1 entry.2) ++ state.replayCommands.map .replay

/-- Each command meets a host of its own. -/
def performInTurn (sessionId : SessionId) : List (Host × RestoreCommand) → Op Unit
  | [] => pure ()
  | (host, command) :: rest => do
    command.perform host sessionId
    performInTurn sessionId rest

def withHosts (hosts : Nat → Host) (state : PersistentSessionState) :
    List (Host × RestoreCommand) :=
  (restoreCommands state).zipIdx.map fun entry => (hosts entry.2, entry.1)

/-- `restore_shell_session_from_snapshot` -/
def restoreInTurn (host : Host) (hosts : Nat → Host) (sessionId : SessionId)
    (state : PersistentSessionState) : Op Unit := do
  match findSession (← getManager).managedNuSessions sessionId with
  | some _ =>
    answer (host.restoresNu sessionId)
    updateSessionActivity host sessionId
  | none => performInTurn sessionId (withHosts hosts state)

def spawnShellSessionWithSnapshot (o : Outside σ ν) (hosts : Nat → Host)
    (sandboxPolicy : SandboxPolicy) (s : Snapshot ν) : Op SessionId := do
  let sessionId ← createPersistentShellSession (o.spawning sandboxPolicy s) s.shellPath
    sandboxPolicy s.currentCwd none
  restoreInTurn (o.spawning sandboxPolicy s) hosts sessionId s.toPersistentSessionState
  pure sessionId

/-- The sessions of a file, each with what it meets. -/
def loadInTurn (sandboxPolicy : SandboxPolicy) :
    List (Outside σ ν × Snapshot ν) → Op (List SessionId)
  | [] => pure []
  | (o, s) :: rest => do
    let sessionId ← loadSession (o.loading s) sandboxPolicy s.toPersistentSessionState
    let sessionIds ← loadInTurn sandboxPolicy rest
    pure (sessionId :: sessionIds)

/-- `load_session_state` -/
def loadSessionStateInTurn (sandboxPolicy : SandboxPolicy)
    (file : Except ColossalErr (List (Outside σ ν × Snapshot ν))) : Op (List SessionId) := do
  let sessions ← answer file
  loadInTurn sandboxPolicy sessions

end ColossalCode.Sessionizer
