import ColossalCode.Sandbox.MountTable

/-! The spawning of a command under a policy: the request that is built, and what becomes of it as
one program after another reads its arguments and executes the next. -/
namespace ColossalCode.Sandbox

open Sessionizer (SandboxPolicy ColossalErr)

structure SystemBwrap where
  program : String
  supportsArgv0 : Bool

inductive BubblewrapLauncher where
  | system (bwrap : SystemBwrap)
  | packaged (path : String)

def BubblewrapLauncher.program : BubblewrapLauncher → String
  | .system bwrap => bwrap.program
  | .packaged path => path

def BubblewrapLauncher.supportsArgv0 : BubblewrapLauncher → Bool
  | .system bwrap => bwrap.supportsArgv0
  | .packaged _ => true

/-- What the search for launchers finds: on the path, in `COLOSSAL_BWRAP_PATH`, beside an
executable; and the helper. -/
structure Launchers where
  systemBwrap : Option SystemBwrap
  bwrapPath : Option String
  packagedBeside : String → Option String
  sandboxHelper : Option String

def Launchers.resolvePackagedBwrap (l : Launchers) (currentExe : Option String) : Option String :=
  l.bwrapPath.or (currentExe.bind l.packagedBeside)

def Launchers.preferredBwrapLauncher (l : Launchers) (currentExe : Option String) :
    Option BubblewrapLauncher :=
  (l.systemBwrap.map .system).or ((l.resolvePackagedBwrap currentExe).map .packaged)

inductive SandboxType where
  | none
  | linuxBubblewrap
  deriving DecidableEq

structure SandboxCommand where
  program : String
  args : List String
  cwd : String

structure SandboxExecRequest where
  program : String
  args : List String
  cwd : String
  sandbox : SandboxType

/-- The JSON text of a policy, as it is written and read. -/
structure PolicyText where
  encode : SandboxPolicy → Except String String
  decode : String → Option SandboxPolicy

def noLauncher : String :=
  "Sandbox requires either bubblewrap (bwrap) or the colossal-sandbox-helper binary. " ++
  "Install bubblewrap with your package manager (e.g., \x60apt install bubblewrap\x60 or " ++
  "\x60dnf install bubblewrap\x60), or ensure colossal-sandbox-helper is in the same " ++
  "directory as the main binary. " ++
  "If building from source, install libcap-dev to enable vendored bubblewrap."

variable (h : Host) (l : Launchers) (serde : PolicyText)

/-- The arguments that the helper is given. -/
def helperArgs (cwd policy : String) (command : List String) : List String :=
  ["--cwd", cwd, "--sandbox-policy", policy] ++ "--" :: command

def prepareLinuxSandbox (command : SandboxCommand) (policy : SandboxPolicy) :
    Except ColossalErr SandboxExecRequest :=
  match l.preferredBwrapLauncher none with
  | some bwrap =>
    .ok ⟨bwrap.program, createBwrapCommandArgs h policy command.cwd command.program command.args,
      command.cwd, .linuxBubblewrap⟩
  | none =>
    match l.sandboxHelper with
    | some helper =>
      match serde.encode policy with
      | .ok json => .ok ⟨helper, helperArgs command.cwd json (command.program :: command.args),
          command.cwd, .linuxBubblewrap⟩
      | .error e => .error (.io ("failed to serialize sandbox policy: " ++ e))
    | none => .error (.io noLauncher)

def prepareSpawn (command : SandboxCommand) (policy : SandboxPolicy) :
    Except ColossalErr SandboxExecRequest :=
  if policy = .dangerFullAccess then
    .ok ⟨command.program, command.args, command.cwd, .none⟩
  else prepareLinuxSandbox h l serde command policy

def maybeRemoveBwrapNewSession (request : SandboxExecRequest) : SandboxExecRequest :=
  if request.sandbox = .linuxBubblewrap then
    { request with args := request.args.filter (· ≠ "--new-session") }
  else request

inductive SpawnPath where
  | execSession
  | persistentShell
  | toolsBinary
  | sandboxedCommand
  deriving DecidableEq

/-- The command runs in a terminal of its own. -/
def SpawnPath.isPty : SpawnPath → Bool
  | .execSession | .persistentShell => true
  | .toolsBinary | .sandboxedCommand => false

def SpawnPath.request (path : SpawnPath) (command : SandboxCommand) (policy : SandboxPolicy) :
    Except ColossalErr SandboxExecRequest :=
  (prepareSpawn h l serde command policy).map fun request =>
    if path.isPty then maybeRemoveBwrapNewSession request else request

/-- The arguments that were made for a wrapper, and those that it got after its own name. -/
structure Stage where
  generated : List String
  received : List String

/-- The command that ends the chain, its own name first, and what came before it. -/
structure Executed where
  stages : List Stage
  decoded : List (SandboxPolicy × String)
  command : List String
  cwd : String
  network : Bool

/-- What follows the end of the options of bubblewrap. -/
def readCommand : Option (String × List String) → List String → List String
  | _, [] => []
  | none, arg :: rest =>
    if arg = "--" then rest
    else if operands arg = 0 then readCommand none rest
    else readCommand (some (arg, [])) rest
  | some (option, given), arg :: rest =>
    if given.length + 1 = operands option then readCommand none rest
    else readCommand (some (option, given ++ [arg])) rest

def chdir (cwd : String) (option : String × List String) : String :=
  if option.1 = "--chdir" then option.2.headD cwd else cwd

/-- Bubblewrap executes the command in the last directory it is told to change to. -/
def runBwrap (cwd : String) (network : Bool) (args : List String) : Executed :=
  let options := readOptions none args
  ⟨[], [], readCommand none args, options.foldl chdir cwd,
    network && !decide (("--unshare-net", []) ∈ options)⟩

structure HelperArgs where
  cwd : Option String
  sandboxPolicy : Option SandboxPolicy
  applySeccompThenExec : Bool
  command : List String

/-- The loop of the helper over its arguments; it panics at one that it does not know. -/
def readHelperArgs (read : HelperArgs) : List String → Option HelperArgs
  | [] => some read
  | arg :: rest =>
    if arg = "--cwd" then
      match rest with
      | [] => some { read with cwd := none }
      | value :: rest => readHelperArgs { read with cwd := some value } rest
    else if arg = "--sandbox-policy" then
      match rest with
      | [] => some { read with sandboxPolicy := none }
      | value :: rest => readHelperArgs { read with sandboxPolicy := serde.decode value } rest
    else if arg = "--apply-seccomp-then-exec" then
      readHelperArgs { read with applySeccompThenExec := true } rest
    else if arg = "--" then some { read with command := rest }
    else none

def applyInnerCommandArgv0 (args : List String) (supportsArgv0 : Bool) (argv0 : String) :
    List String :=
  if supportsArgv0 then
    args.takeWhile (· ≠ "--") ++ ["--argv0", argv0] ++ args.dropWhile (· ≠ "--")
  else args

def buildInnerStageArgs (cwd policy : String) (command : List String) : List String :=
  ["--cwd", cwd, "--sandbox-policy", policy, "--apply-seccomp-then-exec"] ++ "--" :: command

/-- The helper, with so many stages left to run; it applies the policy and executes the command, or
executes bubblewrap to run itself again. -/
def helperMain (exe : String) : Nat → String → String → Bool → List String → Option Executed
  | 0, _, _, _, _ => none
  | stages + 1, argv0, cwd, network, args =>
    match readHelperArgs serde ⟨none, none, false, []⟩ args with
    | some ⟨some policyCwd, some policy, applySeccompThenExec, program :: arguments⟩ =>
      let command := program :: arguments
      let decoded := [(policy, policyCwd)]
      let restricted : Executed :=
        ⟨[], decoded, command, cwd, network && policy.hasFullNetworkAccess⟩
      if applySeccompThenExec || policy = .dangerFullAccess then some restricted
      else
        match l.preferredBwrapLauncher (some exe), serde.encode policy with
        | none, _ => some restricted
        | some _, .error _ => none
        | some bwrap, .ok json =>
          let inner := buildInnerStageArgs policyCwd json command
          let bwrapArgs := applyInnerCommandArgv0
            (createBwrapCommandArgs h policy policyCwd exe inner) bwrap.supportsArgv0 argv0
          -- `execvp` takes the list as the whole argument vector, the name included
          let stage : Stage := ⟨bwrapArgs, bwrapArgs.tail⟩
          let run := runBwrap cwd network stage.received
          let final :=
            if run.command.head? = some exe then
              helperMain exe stages argv0 run.cwd run.network run.command.tail
            else some run
          final.map fun run =>
            { run with stages := stage :: run.stages, decoded := decoded ++ run.decoded }
    | _ => none

/-- The request is run to the end of its chain. -/
def runRequest (policy : SandboxPolicy) (request : SandboxExecRequest) : Option Executed :=
  if policy = .dangerFullAccess then
    some ⟨[], [], request.program :: request.args, request.cwd, true⟩
  else
    match l.preferredBwrapLauncher none with
    | some _ => some { runBwrap request.cwd true request.args with
        stages := [⟨request.args, request.args⟩] }
    | none => helperMain h l serde request.program 2 request.program request.cwd true request.args

/-- A text of the command has a NUL character. -/
def SandboxCommand.hasNul (command : SandboxCommand) : Bool :=
  (command.cwd :: command.program :: command.args).any fun text =>
    text.toList.contains (Char.ofNat 0)

/-- A command that is spawned on one of the paths. No process is spawned with a NUL character in
its arguments. -/
def SpawnPath.run (path : SpawnPath) (command : SandboxCommand) (policy : SandboxPolicy) :
    Except ColossalErr (Option Executed) :=
  match path.request h l serde command policy with
  | .error e => .error e
  | .ok request =>
    if command.hasNul then .error (.io "nul byte found in provided data")
    else .ok (runRequest h l serde policy request)

end ColossalCode.Sandbox
