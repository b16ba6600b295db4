import ColossalCode.Protocol.Text

/-! Sandbox policies, and the check that a command passes before it runs. -/
namespace ColossalCode.Sessionizer

inductive NetworkAccess where
  | restricted
  | enabled
  deriving DecidableEq, Repr

structure WritableRoot where
  root : String
  recursive : Bool
  readOnlySubpaths : List String
  deriving DecidableEq, Repr

inductive SandboxPolicy where
  | readOnly
  | workspaceWrite (writableRoots : List WritableRoot) (networkAccess : NetworkAccess)
      (excludeTmpdirEnvVar excludeSlashTmp : Bool)
  | dangerFullAccess
  deriving DecidableEq, Repr

inductive SandboxType where
  | macosSeatbelt
  | linuxSeccomp
  | none
  deriving DecidableEq, Repr

inductive SafetyCheck where
  | autoApprove (sandboxType : SandboxType)
  | askUser
  | reject (reason : String)
  deriving DecidableEq, Repr

inductive AskForApproval where
  | onRequest
  | never
  deriving DecidableEq, Repr

def yoloMode : AskForApproval := .never

/-- The policy, the approved commands and the kind of terminal are not looked at; the target is
Linux. -/
def assessCommandSafety (command : List String) (askForApproval : AskForApproval)
    (_sandboxPolicy : SandboxPolicy) (_approvedCommands : List (List String)) (_isPty : Bool) :
    SafetyCheck :=
  if command.isEmpty then .reject "Empty command"
  else
    match askForApproval with
    | .onRequest => .askUser
    | .never => .autoApprove .linuxSeccomp

inductive ColossalErr where
  | io (message : String)
  | denied (code : Int) (reason : String)
  | missingSandboxHelper
  deriving DecidableEq, Repr

/-- What an entry point does with the check. -/
def SafetyCheck.clearance : SafetyCheck → Except ColossalErr SandboxType
  | .autoApprove sandboxType => .ok sandboxType
  | .askUser => .error (.denied (-1) "User approval required")
  | .reject reason => .error (.denied (-1) reason)

/-- The check lets a command run. -/
def Approved (command : List String) (askForApproval : AskForApproval) : Prop :=
  command ≠ [] ∧ askForApproval = .never

instance (command : List String) (askForApproval : AskForApproval) :
    Decidable (Approved command askForApproval) := instDecidableAnd

section Check

variable (command : List String) (askForApproval : AskForApproval) (policy : SandboxPolicy)
  (approved : List (List String)) (isPty : Bool)

theorem clearance_approved (h : Approved command askForApproval) :
    (assessCommandSafety command askForApproval policy approved isPty).clearance =
      .ok .linuxSeccomp := by
  obtain ⟨hcommand, hask⟩ := h
  unfold assessCommandSafety
  rw [if_neg (by simpa using hcommand), hask]
  rfl

theorem clearance_denied (h : ¬ Approved command askForApproval) :
    ∃ reason, (assessCommandSafety command askForApproval policy approved isPty).clearance =
      .error (.denied (-1) reason) := by
  unfold assessCommandSafety
  split
  · exact ⟨_, rfl⟩
  · rename_i hcommand
    cases askForApproval with
    | onRequest => exact ⟨_, rfl⟩
    | never => exact absurd ⟨by simpa using hcommand, rfl⟩ h

end Check

end ColossalCode.Sessionizer

/-! Shells and the text they are given to run. -/
namespace ColossalCode.Sessionizer

inductive ShellKind where
  | posix
  | managedNu
  deriving DecidableEq, Repr

structure Shell where
  path : String
  kind : ShellKind
  deriving DecidableEq, Repr

/-- The characters between slashes. -/
def components (path : String) : List String :=
  ((path.toList.splitOn '/').map String.ofList).filter fun part => part ≠ "" && part ≠ "."

/-- `Path::file_name` -/
def fileName (path : String) : Option String :=
  (components path).getLast?.filter (· ≠ "..")

def shellKindFromPath (path : String) : ShellKind :=
  let name := Text.toAsciiLowercase ((fileName path).getD path)
  if name = "nu" || name = "nu.exe" || Text.contains name "nushell" then .managedNu else .posix

def isManagedNuShell (path : String) : Bool := shellKindFromPath path = .managedNu

/-- `format_default_shell_invocation` of a shell that is not a login shell; `tryJoin` stands for
`shlex::try_join`. -/
def Shell.formatDefaultShellInvocation (tryJoin : List String → Option String) (shell : Shell)
    (command : List String) : Option (List String) :=
  let cmd := if command.length = 1 then command.head? else tryJoin command
  cmd.map fun cmd => [shell.path, "-c", cmd]

def shellHasPromptOsc133 (shellPath : String) : Bool :=
  (fileName shellPath).any fun name => Text.toAsciiLowercase name = "bash"

def wrapCommandForCompletion (shellPath command : String) : String :=
  if shellHasPromptOsc133 shellPath then command
  else
    "\x7b " ++ command ++ "; __nite_cmd_status=$?; " ++
      "printf '\\033]133;D;%s\\007\\033]133;A\\007\\033]133;B\\007' \"$__nite_cmd_status\"; " ++
      "unset __nite_cmd_status; \x7d"

def isValidEnvVarName (name : String) : Bool :=
  let word (c : Char) : Bool := c = '_' || c.isAlpha
  name.toList.head?.any word && name.toList.all fun c => word c || c.isDigit

inductive TrackingMode where
  | none
  | exporting
  | unsetting

/-- `token.split_once('=')` -/
def splitOnce (token : String) : Option (String × String) :=
  let rest := token.toList.dropWhile (· ≠ '=')
  if rest.isEmpty then none
  else some (String.ofList (token.toList.takeWhile (· ≠ '=')), String.ofList (rest.drop 1))

/-- What `export` and `unset` do to the environment, word by word. -/
def trackedEnvUpdates : TrackingMode → List String → List (String × Option String)
  | _, [] => []
  | mode, token :: tokens =>
    if token = "export" then trackedEnvUpdates .exporting tokens
    else if token = "unset" then trackedEnvUpdates .unsetting tokens
    else if token ∈ [";", "&&", "||", "|"] then trackedEnvUpdates .none tokens
    else
      let updates := match mode with
        | .none => []
        | .exporting =>
          match splitOnce token with
          | some (key, value) => if isValidEnvVarName key then [(key, some value)] else []
          | none => []
        | .unsetting => if isValidEnvVarName token then [(token, none)] else []
      updates ++ trackedEnvUpdates mode tokens

def trackedEnvUpdatesFromCommand (split : String → Option (List String)) (command : String) :
    List (String × Option String) :=
  trackedEnvUpdates .none ((split command).getD [])

example : wrapCommandForCompletion "/usr/bin/Bash" "ls" = "ls" := by decide

end ColossalCode.Sessionizer
