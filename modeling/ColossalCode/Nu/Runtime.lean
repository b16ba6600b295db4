import ColossalCode.Nu.Registry
import ColossalCode.Nu.Segments
import ColossalCode.Sessionizer.Policy

/-! The managed Nu runtime: a command is evaluated segment by segment, in the runtime itself or in a
copy of its engine that is thrown away. -/
namespace ColossalCode.Nu
open Text

/-- The engine and the outside world; `σ` is the state of both, `ν` a value. -/
structure Engine (σ ν : Type) where
  evalStringOnce : σ → String → Except String String × σ
  evalValue : σ → String → Except String ν × σ
  asRecord : ν → Option (List (String × ν))
  coerceStr : ν → Option String
  string : String → ν
  getEnvVar : σ → String → Option ν
  addEnvVar : σ → String → ν → σ
  removeEnvVar : σ → String → σ
  cwd : σ → Option String
  sessionVariables : σ → List (String × Bool × ν)
  home : σ → Option String
  canonicalize : σ → String → Except String String
  isDir : σ → String → Bool
  sha256 : σ → String → Except String String
  split : String → Option (List String)

variable {σ ν : Type}

def stripText (start text : String) : Option String :=
  (stripPrefix start.toList text.toList).map String.ofList

def stripEnd (mark : Char) (text : List Char) : Option (List Char) :=
  if text.getLast? = some mark then some text.dropLast else none

/-- The text between two marks that surround it. -/
def stripMarks (mark : Char) (text : String) : Option String :=
  ((stripPrefix [mark] text.toList).bind (stripEnd mark)).map String.ofList

/-- Surrounding quotes are dropped. -/
def unquoted (text : String) : String :=
  ((stripMarks Quote.double.mark text).or (stripMarks Quote.single.mark text)).getD text

namespace Engine

variable (e : Engine σ ν)

def externalCommandsNotSupported (error : String) : Bool :=
  contains error "Running external commands not supported"

def shouldRetryWithRunExternal (source : String) : Bool :=
  trimStart source ≠ "" && !startsWith (trimStart source) "^" &&
    !startsWith (trimStart source) "run-external " &&
      !startsWith (trimStart source) "run-external\n"

def caretPrefixExternal (source : String) : String :=
  String.ofList (source.toList.takeWhile isWhitespace) ++ "^" ++ trimStart source

/-- `eval_string_with_external_fallback`. -/
def evalString (s : σ) (source : String) : Except String String × σ :=
  match e.evalStringOnce s source with
  | (.ok output, s') => (.ok output, s')
  | (.error error, s') =>
    if externalCommandsNotSupported error && shouldRetryWithRunExternal source then
      e.evalStringOnce s' (caretPrefixExternal source)
    else (.error error, s')

end Engine

structure ReplayFile where
  path : String
  sha256 : String

structure ReplayCommand where
  command : String
  cwd : String
  files : List ReplayFile

structure Runtime (σ ν : Type) where
  engine : σ
  currentCwd : String
  sandboxPolicy : Sessionizer.SandboxPolicy
  history : List String
  customCommands : List String
  aliases : List (String × String)
  vars : List (String × Bool × ν)
  replayCommands : List ReplayCommand

def isAbsolute (path : String) : Bool := startsWith path "/"

/-- `Path::join`. -/
def joinPath (base path : String) : String :=
  if isAbsolute path || base = "" then path
  else if base.toList.getLast? = some '/' then base ++ path
  else base ++ "/" ++ path

def extractAliasParts (source : String) : Option (String × String) :=
  ((stripText "export alias " source).or (stripText "alias " source)).bind fun rest =>
    match rest.toList.dropWhile (· ≠ '=') with
    | [] => none
    | _ :: expansion => some (trim (String.ofList (rest.toList.takeWhile (· ≠ '='))),
        trim (String.ofList expansion))

def isReplayJournalSegment (trimmed : String) : Bool :=
  ["overlay ", "module ", "use ", "source ", "source-env ", "export use ", "export module ",
      "export extern ", "export const ", "const "].any (startsWith trimmed) ||
    trimmed = "hide-env PWD" || trimmed = "hide-env 'PWD'" || trimmed = "hide-env \"PWD\""

def replayDependencyCandidates (split : String → Option (List String)) (trimmed : String) :
    List String :=
  let candidate : Option String :=
    match (split trimmed).getD [] with
    | [] => none
    | first :: rest =>
      if first = "source" ∨ first = "source-env" ∨ first = "use" then rest.head?
      else if first = "export" ∨ first = "overlay" then
        if rest.head? = some "use" then rest.tail.head? else none
      else none
  (candidate.filter fun path => path.toList.contains '/' || path.endsWith ".nu" ||
    startsWith path ".").toList

namespace Runtime

variable (e : Engine σ ν)

def resolveReplayFile (rt : Runtime σ ν) (path : String) : String :=
  if isAbsolute path then path else joinPath rt.currentCwd path

/-- `record_replay_segment`: the files that the segment reads are fingerprinted. -/
def recordReplaySegment (rt : Runtime σ ν) (trimmed : String) :
    Except String Unit × Runtime σ ν :=
  if isReplayJournalSegment trimmed then
    let files := (replayDependencyCandidates e.split trimmed).mapM fun candidate =>
      let path := rt.resolveReplayFile candidate
      match e.sha256 rt.engine path with
      | .ok sha256 => Except.ok (⟨path, sha256⟩ : ReplayFile)
      | .error error =>
        .error ("failed to read managed Nu replay dependency " ++ path ++ ": " ++ error)
    match files with
    | .ok files => (.ok (), { rt with
        replayCommands := rt.replayCommands ++ [⟨trimmed, rt.currentCwd, files⟩] })
    | .error error => (.error error, rt)
  else (.ok (), rt)

/-- `sync_persistent_variables_from_runtime`. -/
def syncPersistentVariables (rt : Runtime σ ν) : Runtime σ ν :=
  { rt with vars := e.sessionVariables rt.engine }

/-- The directory that is adopted for the engine's `PWD`. -/
def adoptedCwd (s : σ) (currentCwd path : String) : String :=
  if e.isDir s path then
    match e.canonicalize s path with
    | .ok canonical => canonical
    | .error _ => path
  else currentCwd

def syncCwdFromStack (rt : Runtime σ ν) : Runtime σ ν :=
  match (e.getEnvVar rt.engine "PWD").bind e.coerceStr with
  | some path =>
    if path = rt.currentCwd then rt
    else { rt with currentCwd := adoptedCwd e rt.engine rt.currentCwd path }
  | none => rt

def updateCwd (rt : Runtime σ ν) (cwd : String) : Runtime σ ν :=
  { rt with engine := e.addEnvVar rt.engine "PWD" (e.string cwd), currentCwd := cwd }

def resolveCdTarget (rt : Runtime σ ν) (path : String) : String :=
  let home := (e.home rt.engine).getD "/"
  if path = "" || path = "~" then home
  else
    match stripText "~/" path with
    | some rest => joinPath home rest
    | none => if isAbsolute path then path else joinPath rt.currentCwd path

def runCd (rt : Runtime σ ν) (trimmed : String) : Except String String × Runtime σ ν :=
  let path := unquoted (trim ((stripText "cd" trimmed).getD ""))
  let resolved := rt.resolveCdTarget e path
  match e.canonicalize rt.engine resolved with
  | .ok canonical => (.ok "", rt.updateCwd e canonical)
  | .error error => (.error ("cd failed for " ++ resolved ++ ": " ++ error), rt)

/-- One field of the record that `load-env` is given. -/
def loadField (rt : Runtime σ ν) (key : String) (value : ν) : Runtime σ ν :=
  let cwd :=
    if key = "PWD" then
      match e.coerceStr value with
      | some path => adoptedCwd e rt.engine rt.currentCwd path
      | none => rt.currentCwd
    else rt.currentCwd
  { rt with engine := e.addEnvVar rt.engine key value, currentCwd := cwd }

def runLoadEnv (rt : Runtime σ ν) (expr : String) : Except String String × Runtime σ ν :=
  match e.evalValue rt.engine (trim expr) with
  | (.error error, s) => (.error error, { rt with engine := s })
  | (.ok value, s) =>
    match e.asRecord value with
    | some fields => (.ok "", fields.foldl (fun rt field => rt.loadField e field.1 field.2)
        { rt with engine := s })
    | none => (.error "load-env requires a record value", { rt with engine := s })

def runHideEnv (rt : Runtime σ ν) (trimmed name : String) :
    Except String String × Runtime σ ν :=
  let name := unquoted (trim name)
  let hidden := { rt with engine := e.removeEnvVar rt.engine name }
  if name = "PWD" then
    match hidden.recordReplaySegment e trimmed with
    | (.ok (), rt) => (.ok "", rt)
    | (.error error, rt) => (.error error, rt)
  else (.ok "", hidden)

def registerAlias (rt : Runtime σ ν) (name expansion : String) : Runtime σ ν :=
  { rt with
    aliases := (rt.aliases.filter fun existing => existing.1 ≠ name) ++ [(name, expansion)] }

/-- A source that the engine evaluates, with what is noted when it has been. -/
def runEval (rt : Runtime σ ν) (trimmed : String)
    (after : Runtime σ ν → Except String Unit × Runtime σ ν) :
    Except String String × Runtime σ ν :=
  match e.evalString rt.engine trimmed with
  | (.error error, s) => (.error error, { rt with engine := s })
  | (.ok output, s) =>
    match after { rt with engine := s } with
    | (.error error, rt) => (.error error, rt)
    | (.ok (), rt) => (.ok output, rt)

def runGeneral (rt : Runtime σ ν) (trimmed : String) : Except String String × Runtime σ ν :=
  rt.runEval e trimmed fun rt =>
    match rt.recordReplaySegment e trimmed with
    | (.error error, rt) => (.error error, rt)
    | (.ok (), rt) => (.ok (), (rt.syncCwdFromStack e).syncPersistentVariables e)

/-- The part of `run_segment` for the segments that the engine evaluates. -/
def runSource (rt : Runtime σ ν) (trimmed : String) : Except String String × Runtime σ ν :=
  if startsWith trimmed "def " || startsWith trimmed "export def " then
    rt.runEval e trimmed fun rt =>
      (.ok (), { rt with customCommands := registerDef rt.customCommands trimmed })
  else
    match (if startsWith trimmed "alias " || startsWith trimmed "export alias " then
        extractAliasParts trimmed else none) with
    | some found => rt.runEval e trimmed fun rt => (.ok (), rt.registerAlias found.1 found.2)
    | none => rt.runGeneral e trimmed

def runSegment (rt : Runtime σ ν) (segment : String) : Except String String × Runtime σ ν :=
  let trimmed := trim segment
  if trimmed = "" then (.ok "", rt)
  else if trimmed = "pwd" then (.ok rt.currentCwd, rt)
  else if trimmed = "cd" || startsWith trimmed "cd " then rt.runCd e trimmed
  else if startsWith trimmed "load-env " then
    rt.runLoadEnv e ((stripText "load-env " trimmed).getD "")
  else if startsWith trimmed "hide-env " then
    rt.runHideEnv e trimmed ((stripText "hide-env " trimmed).getD "")
  else rt.runSource e trimmed

end Runtime

structure Output where
  exitCode : Int
  stdout : String
  stderr : String
  aggregatedOutput : String
deriving DecidableEq

namespace Runtime

variable (e : Engine σ ν)

/-- The loop of `exec_command` over the segments. -/
def runSegments (rt : Runtime σ ν) (collected : String) : List String → Output × Runtime σ ν
  | [] => (⟨0, collected, "", collected⟩, rt)
  | segment :: rest =>
    match rt.runSegment e segment with
    | (.ok output, rt') => runSegments rt' (collected ++ output) rest
    | (.error error, rt') =>
      (⟨1, collected, error,
        (if collected = "" then collected else collected ++ "\n") ++ error⟩, rt')

/-- The last thousand commands are kept. -/
def noted (rt : Runtime σ ν) (command : String) : Runtime σ ν :=
  { rt with history := (rt.history ++ [command]).drop ((rt.history ++ [command]).length - 1000) }

def execCommand (rt : Runtime σ ν) (command : String) : Output × Runtime σ ν :=
  (rt.noted command).runSegments e "" (splitTopLevelSegments command)

/-- The closure of `fork_eval` over the segments, on the copy of the engine. -/
def forkSegments (currentCwd : String) (s : σ) (collected : String) :
    List String → Except String String
  | [] => .ok collected
  | segment :: rest =>
    let trimmed := trim segment
    if trimmed = "" then forkSegments currentCwd s collected rest
    else if trimmed = "pwd" then
      forkSegments currentCwd s (collected ++ (e.cwd s).getD currentCwd) rest
    else
      match e.evalString s trimmed with
      | (.ok output, s') => forkSegments currentCwd s' (collected ++ output) rest
      | (.error error, _) => .error error

def forkOutput : Except String String → Output
  | .ok collected => ⟨0, collected, "", collected⟩
  | .error error => ⟨1, "", error, error⟩

/-- `fork_eval`: what it evaluates in is a copy, and the runtime itself is only read. -/
def forkEval (rt : Runtime σ ν) (command : String) : Output :=
  forkOutput (forkSegments e rt.currentCwd (e.addEnvVar rt.engine "PWD" (e.string rt.currentCwd)) ""
    (splitTopLevelSegments command))

end Runtime

/-- An engine that knows a failing source, and echoes the others. -/
def echoEngine : Engine Unit Unit where
  evalStringOnce := fun s source => (if source = "fail" then .error "failed" else .ok source, s)
  evalValue := fun s _ => (.ok (), s)
  asRecord := fun _ => none
  coerceStr := fun _ => none
  string := fun _ => ()
  getEnvVar := fun _ _ => none
  addEnvVar := fun s _ _ => s
  removeEnvVar := fun s _ => s
  cwd := fun _ => some "/"
  sessionVariables := fun _ => []
  home := fun _ => none
  canonicalize := fun _ path => .ok path
  isDir := fun _ _ => false
  sha256 := fun _ _ => .ok ""
  split := fun _ => none

def echoRuntime : Runtime Unit Unit :=
  ⟨(), "/", .dangerFullAccess, [], [], [], [], []⟩

example : (echoRuntime.execCommand echoEngine "a; pwd; fail; b").1 =
    ⟨1, "a/", "failed", "a/\nfailed"⟩ := by decide

end ColossalCode.Nu
