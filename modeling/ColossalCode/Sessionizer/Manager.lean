import ColossalCode.Sessionizer.Policy

/-! The session manager: its tables, and what its operations do to them and outside. Time is counted
in milliseconds; what a command prints comes from the host. -/
namespace ColossalCode.Sessionizer

abbrev SessionId := String

/-- A process that has ended stays where it is. -/
structure ExecCommandSession where
  sandboxPolicy : SandboxPolicy
  cwd : String
  exited : Bool

structure PersistentShellSession where
  shellPath : String
  initialCwd : String
  cwd : String
  env : List (String × String)
  history : List String
  sandboxPolicy : SandboxPolicy
  exited : Bool

/-- What the manager reads of a managed Nu runtime. -/
structure ManagedNuRuntime where
  shellPath : String
  initialCwd : String
  sandboxPolicy : SandboxPolicy

structure SemanticSearchSession where
  cwd : String
  sandboxPolicy : SandboxPolicy

structure SessionMetadata where
  createdAt : Nat
  lastActivity : Nat
  timeoutDuration : Nat
  deriving DecidableEq

structure SessionManager where
  nextSessionId : Nat
  processId : Nat
  sessions : List (SessionId × ExecCommandSession)
  persistentShellSessions : List (SessionId × PersistentShellSession)
  managedNuSessions : List (SessionId × ManagedNuRuntime)
  semanticSearchSessions : List (SessionId × SemanticSearchSession)
  sessionMetadata : List (SessionId × SessionMetadata)

inductive ExitStatus where
  | completed (code : Int)
  | ongoing (sessionId : SessionId)
  | timeout
  | killed
  deriving DecidableEq, Repr

structure ExecCommandOutput where
  exitStatus : ExitStatus
  stdout : String
  stderr : String
  aggregatedOutput : String
  logFile : Option String
  deriving DecidableEq, Repr

structure ExecCommandParams where
  command : List String
  shell : Shell
  cwd : String
  env : List (String × String)
  timeoutMs : Option Nat
  sandboxPolicy : SandboxPolicy
  isBackground : Bool
  askForApproval : Option AskForApproval

/-- What an operation does outside of the manager. -/
inductive Effect where
  | spawn (command : String) (cwd : String) (sandboxPolicy : SandboxPolicy)
  | write (sessionId : SessionId) (input : String)
  | eval (sessionId : SessionId) (command : String)
  | kill (sessionId : SessionId)
  deriving DecidableEq, Repr

/-- What the manager meets outside: `shlex`, the clock, the processes it starts, the shells it
writes to. A process that cannot be started gives an error text, or no helper is found. -/
structure Host where
  split : String → Option (List String)
  tryJoin : List String → Option String
  now : Nat
  spawns : String → ExecCommandParams → Except (Option String) Unit
  collect : ExecCommandParams → ExecCommandOutput
  backgroundLogPath : SessionId → String
  becomesReady : SessionId → Bool
  accepts : SessionId → Bool
  converse : SessionId → String → Option Nat → ExecCommandOutput
  evaluates : SessionId → String → Option Nat → Except ColossalErr (Option ExecCommandOutput)
  escape : String → String
  opensShell : String → SandboxPolicy → String → Except ColossalErr Unit
  opensNu : String → SandboxPolicy → String → Except ColossalErr Unit
  restoresNu : SessionId → Except ColossalErr Unit

structure World where
  manager : SessionManager
  effects : List Effect

/-- An operation of the manager: what it has done stays done when it fails. -/
abbrev Op := ExceptT ColossalErr (StateM World)

def fail {α : Type} (error : ColossalErr) : Op α := throw error

def invalidInput {α : Type} (message : String) : Op α := fail (.io message)

def unknownSession {α : Type} (sessionId : SessionId) : Op α :=
  fail (.denied (-1) ("unknown session id " ++ sessionId))

def change (f : SessionManager → SessionManager) : Op Unit :=
  modify fun w => { w with manager := f w.manager }

def emit (effect : Effect) : Op Unit :=
  modify fun w => { w with effects := w.effects ++ [effect] }

def getManager : Op SessionManager := do return (← get).manager

def admitting (check : SafetyCheck) : Op SandboxType :=
  match check.clearance with
  | .ok sandboxType => pure sandboxType
  | .error error => fail error

/-- `iter().find(|(id, _)| *id == session_id)` -/
def findSession {α : Type} (table : List (SessionId × α)) (sessionId : SessionId) : Option α :=
  (table.find? fun entry => entry.1 == sessionId).map (·.2)

/-- The first session with an id is changed. -/
def updateSession {α : Type} (sessionId : SessionId) (f : α → α) :
    List (SessionId × α) → List (SessionId × α)
  | [] => []
  | entry :: table =>
    if entry.1 == sessionId then (entry.1, f entry.2) :: table
    else entry :: updateSession sessionId f table

def requireSession {α : Type} (table : SessionManager → List (SessionId × α))
    (sessionId : SessionId) : Op α := do
  match findSession (table (← getManager)) sessionId with
  | some session => pure session
  | none => unknownSession sessionId

def SessionManager.nextId (m : SessionManager) : SessionId :=
  toString m.processId ++ "_" ++ toString m.nextSessionId

/-- The counter is a `u32` and wraps. -/
def generateUniqueSessionId : Op SessionId := do
  let m ← getManager
  change fun m => { m with nextSessionId := (m.nextSessionId + 1) % 4294967296 }
  pure m.nextId

/-- `HashMap::insert` -/
def insertMetadata (sessionId : SessionId) (metadata : SessionMetadata)
    (table : List (SessionId × SessionMetadata)) : List (SessionId × SessionMetadata) :=
  (sessionId, metadata) :: table.filter fun entry => entry.1 != sessionId

def createSessionMetadata (host : Host) (sessionId : SessionId) (timeoutDuration : Nat) : Op Unit :=
  let metadata : SessionMetadata := ⟨host.now, host.now, timeoutDuration⟩
  change fun m =>
    { m with sessionMetadata := insertMetadata sessionId metadata m.sessionMetadata }

def updateSessionActivity (host : Host) (sessionId : SessionId) : Op Unit :=
  let touch (metadata : SessionMetadata) : SessionMetadata :=
    { metadata with lastActivity := host.now }
  change fun m => { m with sessionMetadata := updateSession sessionId touch m.sessionMetadata }

def isSessionTimedOut (host : Host) (m : SessionManager) (sessionId : SessionId) : Bool :=
  (findSession m.sessionMetadata sessionId).any fun metadata =>
    metadata.timeoutDuration < host.now - metadata.lastActivity

/-- `remove` of the first session with an id. -/
def removeSession {α : Type} (sessionId : SessionId) (table : List (SessionId × α)) :
    List (SessionId × α) := table.eraseP fun entry => entry.1 == sessionId

/-- The session is looked for in one table after the other. -/
def terminateSession (sessionId : SessionId) : Op Unit := do
  let m ← getManager
  if (findSession m.sessions sessionId).isSome then
    change fun m => { m with sessions := removeSession sessionId m.sessions }
    emit (.kill sessionId)
  else if (findSession m.persistentShellSessions sessionId).isSome then
    change fun m =>
      { m with persistentShellSessions := removeSession sessionId m.persistentShellSessions }
    emit (.kill sessionId)
  else if (findSession m.managedNuSessions sessionId).isSome then
    change fun m => { m with managedNuSessions := removeSession sessionId m.managedNuSessions }
  else if (findSession m.semanticSearchSessions sessionId).isSome then
    change fun m =>
      { m with semanticSearchSessions := removeSession sessionId m.semanticSearchSessions }
    emit (.kill sessionId)
  else unknownSession sessionId

/-- A command is put together for the shell and started. -/
def createSandboxedExecSession (host : Host) (params : ExecCommandParams) :
    Op ExecCommandSession := do
  match params.shell.formatDefaultShellInvocation host.tryJoin params.command with
  | none => invalidInput "Failed to format command for shell"
  | some formattedCommand =>
    match host.tryJoin formattedCommand with
    | none => invalidInput "Failed to join command arguments"
    | some commandStr =>
      match host.spawns commandStr params with
      | .ok () =>
        emit (.spawn commandStr params.cwd params.sandboxPolicy)
        pure ⟨params.sandboxPolicy, params.cwd, false⟩
      | .error (some message) => invalidInput message
      | .error none => fail .missingSandboxHelper

def addSession (sessionId : SessionId) (session : ExecCommandSession) : Op Unit :=
  change fun m => { m with sessions := m.sessions ++ [(sessionId, session)] }

def handleExecCommandRequest (host : Host) (params : ExecCommandParams) : Op ExecCommandOutput := do
  let _ ← admitting (assessCommandSafety params.command
    (params.askForApproval.getD yoloMode) params.sandboxPolicy [] false)
  let sessionId ← generateUniqueSessionId
  let session ← createSandboxedExecSession host params
  addSession sessionId session
  createSessionMetadata host sessionId (params.timeoutMs.getD 600000)
  let _ ← requireSession SessionManager.sessions sessionId
  if params.isBackground then
    let logFile := host.backgroundLogPath sessionId
    pure ⟨.ongoing sessionId, "", "", "Background process started. Session ID: " ++ sessionId ++
      ". Log file: " ++ logFile, some logFile⟩
  else pure (host.collect params)

/-- A stream is known by the id of its session. -/
def streamAfter (host : Host) (check : SafetyCheck)
    (params : ExecCommandParams) : Op SessionId := do
  let _ ← admitting check
  let sessionId ← generateUniqueSessionId
  let session ← createSandboxedExecSession host params
  addSession sessionId session
  let _ ← requireSession SessionManager.sessions sessionId
  pure sessionId

def streamExecCommand (host : Host) (params : ExecCommandParams) : Op SessionId :=
  streamAfter host
    (assessCommandSafety params.command yoloMode params.sandboxPolicy [] false) params

def streamExecCommandEnhanced (host : Host) (params : ExecCommandParams) : Op SessionId :=
  streamAfter host
    (assessCommandSafety params.command (params.askForApproval.getD yoloMode) params.sandboxPolicy
      [] false) params

def addToHistory (command : String) (session : PersistentShellSession) : PersistentShellSession :=
  if (Text.trim command).isEmpty then session
  else
    let history := session.history ++ [command]
    { session with history := history.drop (history.length - 1000) }

def changeShell (sessionId : SessionId) (f : PersistentShellSession → PersistentShellSession) :
    Op Unit :=
  change fun m =>
    { m with persistentShellSessions := updateSession sessionId f m.persistentShellSessions }

def setEnv (key : String) (value : Option String) (session : PersistentShellSession) :
    PersistentShellSession :=
  let others := session.env.filter fun entry => entry.1 != key
  { session with env := match value with
      | some value => (key, value) :: others
      | none => others }

/-- `char::is_control` -/
def isControl (c : Char) : Bool := c.toNat < 0x20 || (0x7F ≤ c.toNat && c.toNat < 0xA0)

/-- `shlex::split(&command).unwrap_or_else(|| vec![command.clone()])` -/
def commandParts (host : Host) (command : String) : List String :=
  (host.split command).getD [command]

/-- The check of an input: blank lines and control characters pass. -/
def checkInput (host : Host) (sessionId : SessionId) (input : String) :
    Option AskForApproval → Op Unit
  | none => pure ()
  | some approvalStrategy => do
    let session ← requireSession SessionManager.persistentShellSessions sessionId
    if !(Text.trim input).isEmpty && !input.toList.all isControl then
      let _ ← admitting (assessCommandSafety (commandParts host input) approvalStrategy
        session.sandboxPolicy [] true)

/-- The output that follows comes from the shell. -/
def sendInputToShellSession (host : Host) (sessionId : SessionId) (input : String)
    (askForApproval : Option AskForApproval) : Op Unit := do
  checkInput host sessionId input askForApproval
  let _ ← requireSession SessionManager.persistentShellSessions sessionId
  updateSessionActivity host sessionId
  if host.accepts sessionId then emit (.write sessionId (input ++ "\r"))
  else fail (.io "failed to send input to shell")

def waitUntilReady (host : Host) (sessionId : SessionId) : Op Unit :=
  if host.becomesReady sessionId then pure ()
  else fail (.io "Shell session failed to become ready within timeout")

/-- A command is entered in the history and sent once the shell is ready. -/
def sendWhenReady (host : Host) (sessionId : SessionId) (command : String) : Op Unit := do
  let _ ← requireSession SessionManager.persistentShellSessions sessionId
  waitUntilReady host sessionId
  changeShell sessionId (addToHistory command)
  let session ← requireSession SessionManager.persistentShellSessions sessionId
  sendInputToShellSession host sessionId (wrapCommandForCompletion session.shellPath command) none

def sendCommandToShellSession (host : Host) (sessionId : SessionId) (command : String) : Op Unit :=
  sendWhenReady host sessionId command

/-- A command for a managed Nu runtime: an evaluation that takes too long ends the session. -/
def execInManagedNu (host : Host) (sessionId : SessionId) (runtime : ManagedNuRuntime)
    (command : String) (timeoutMs : Option Nat) (askForApproval : Option AskForApproval) :
    Op ExecCommandOutput := do
  let _ ← admitting (assessCommandSafety (commandParts host command)
    (askForApproval.getD yoloMode) runtime.sandboxPolicy [] false)
  updateSessionActivity host sessionId
  emit (.eval sessionId command)
  match host.evaluates sessionId command timeoutMs with
  | .error error => fail error
  | .ok (some result) => pure result
  | .ok none =>
    tryCatch (terminateSession sessionId) fun _ => pure ()
    pure ⟨.timeout, "", "", "", none⟩

def execInPersistentShell (host : Host) (sessionId : SessionId) (command : String)
    (timeoutMs : Option Nat) (askForApproval : Option AskForApproval) : Op ExecCommandOutput := do
  let session ← requireSession SessionManager.persistentShellSessions sessionId
  let _ ← admitting (assessCommandSafety (commandParts host command)
    (askForApproval.getD yoloMode) session.sandboxPolicy [] true)
  sendWhenReady host sessionId command
  let updates := trackedEnvUpdatesFromCommand host.split command
  changeShell sessionId fun session =>
    updates.foldl (fun session update => setEnv update.1 update.2 session) session
  pure (host.converse sessionId command timeoutMs)

def execCommandInShellSession (host : Host) (sessionId : SessionId) (command : String)
    (timeoutMs : Option Nat) (askForApproval : Option AskForApproval) : Op ExecCommandOutput := do
  match findSession (← getManager).managedNuSessions sessionId with
  | some runtime => execInManagedNu host sessionId runtime command timeoutMs askForApproval
  | none => execInPersistentShell host sessionId command timeoutMs askForApproval

/-- The command sees a copy of the runtime; nothing where there is no such runtime. -/
def forkEvalInManagedNuSession (host : Host) (sessionId : SessionId) (command : String)
    (timeoutMs : Option Nat) (askForApproval : Option AskForApproval) :
    Op (Option ExecCommandOutput) := do
  match findSession (← getManager).managedNuSessions sessionId with
  | none => pure none
  | some runtime =>
    let _ ← admitting (assessCommandSafety (commandParts host command)
      (askForApproval.getD yoloMode) runtime.sandboxPolicy [] false)
    emit (.eval sessionId command)
    match host.evaluates sessionId command timeoutMs with
    | .error error => fail error
    | .ok result => pure result

end ColossalCode.Sessionizer
