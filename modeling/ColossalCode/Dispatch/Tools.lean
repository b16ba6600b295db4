import ColossalCode.Sessionizer.Policy

/-! The tools an agent offers and the modes it works in. Of a tool only its name is kept. -/
namespace ColossalCode.Dispatch

open Sessionizer

inductive ToolName where
  | execCommand
  | readOutput
  | deletePath
  | deleteMany
  | getFiles
  | getFilesRecursive
  | searchFilesWithRegex
  | readFile
  | editFile
  | semanticSearch
  | webSearch
  | htmlToText
  | todoWrite
  | requestSplit
  | orchestrateTask
  | submitVerification
  deriving DecidableEq, Repr

structure Tool where
  name : String
  deriving DecidableEq, Repr

def buildTool : ToolName → Tool
  | .execCommand => ⟨"exec_command"⟩
  | .readOutput => ⟨"read_output"⟩
  | .deletePath => ⟨"delete_path"⟩
  | .deleteMany => ⟨"delete_many"⟩
  | .getFiles => ⟨"get_files"⟩
  | .getFilesRecursive => ⟨"get_files_recursive"⟩
  | .searchFilesWithRegex => ⟨"search_files_with_regex"⟩
  | .readFile => ⟨"read_file"⟩
  | .editFile => ⟨"edit_file"⟩
  | .semanticSearch => ⟨"semantic_search"⟩
  | .webSearch => ⟨"web_search"⟩
  | .htmlToText => ⟨"html_to_text"⟩
  | .todoWrite => ⟨"todo_write"⟩
  | .requestSplit => ⟨"request_split"⟩
  | .orchestrateTask => ⟨"orchestrate_task"⟩
  | .submitVerification => ⟨"submit_verification"⟩

def buildTools (toolNames : List ToolName) : List Tool := toolNames.map buildTool

def getAllTools : List Tool :=
  buildTools [.execCommand, .readOutput, .deletePath, .deleteMany, .getFiles, .getFilesRecursive,
    .searchFilesWithRegex, .readFile, .editFile, .semanticSearch, .webSearch, .htmlToText,
    .todoWrite, .requestSplit, .orchestrateTask]

def getReadonlyTools : List Tool :=
  buildTools [.execCommand, .readOutput, .getFiles, .getFilesRecursive, .searchFilesWithRegex,
    .readFile, .semanticSearch, .webSearch, .htmlToText, .todoWrite, .requestSplit]

def getVerifierTools : List Tool := getReadonlyTools ++ [buildTool .submitVerification]

inductive SafetyMode where
  | yolo
  | regular
  | readOnly
  deriving DecidableEq, Repr

structure SafetyConfig where
  mode : SafetyMode
  askPermission : Bool
  sandboxEnabled : Bool
  deriving DecidableEq, Repr

namespace SafetyConfig

def fromMode : SafetyMode → SafetyConfig
  | .yolo => ⟨.yolo, false, false⟩
  | .regular => ⟨.regular, true, true⟩
  | .readOnly => ⟨.readOnly, false, true⟩

def isToolAllowed (config : SafetyConfig) (toolName : String) : Bool :=
  config.mode != .readOnly ||
    ["read_file", "get_files", "get_files_recursive", "search_files_with_regex",
      "semantic_search", "web_search", "html_to_text", "todo_write",
      "request_split"].contains toolName

/-- The tools that go with a mode, as `update_safety_config` sets them. -/
def tools (config : SafetyConfig) : List Tool :=
  if config.mode = .readOnly then getReadonlyTools else getAllTools

end SafetyConfig

/-- What a policy reads of the process: the directories of the executable and of the tools binary,
`SANDBOX_EXTRA_ROOTS` as far as its paths exist, and whether `SAFE_MODE` is set. -/
structure ProcessEnv where
  exeRoot : Option String
  toolsRoot : Option String
  extraRoots : List String
  safeMode : Bool

def pushWritableRootUnique (writableRoots : List WritableRoot) (root : String) :
    List WritableRoot :=
  if writableRoots.any (·.root == root) then writableRoots
  else writableRoots ++ [⟨root, true, []⟩]

def sandboxPolicyFromConfigWithWorkspace (env : ProcessEnv) (safetyConfig : SafetyConfig)
    (workspacePath : String) : SandboxPolicy :=
  let writableRoots := pushWritableRootUnique [] workspacePath
  let writableRoots := (env.exeRoot.map (pushWritableRootUnique writableRoots)).getD writableRoots
  let writableRoots :=
    (env.toolsRoot.map (pushWritableRootUnique writableRoots)).getD writableRoots
  let writableRoots := writableRoots ++ env.extraRoots.map fun root => ⟨root, true, []⟩
  match safetyConfig.mode with
  | .readOnly => .readOnly
  | .regular =>
    if safetyConfig.sandboxEnabled || env.safeMode then
      .workspaceWrite writableRoots .enabled false false
    else .dangerFullAccess
  | .yolo => .dangerFullAccess

/-- Agents in different directories have different policies, where the sandbox is on. -/
theorem policy_workspace_injective {env : ProcessEnv} {config : SafetyConfig} {path path' : String}
    (hmode : config.mode = .regular) (henabled : config.sandboxEnabled = true)
    (h : sandboxPolicyFromConfigWithWorkspace env config path =
      sandboxPolicyFromConfigWithWorkspace env config path') : path = path' := by
  have hhead : ∀ path, ∃ rest, sandboxPolicyFromConfigWithWorkspace env config path =
      .workspaceWrite (⟨path, true, []⟩ :: rest) .enabled false false := by
    intro path
    have hpush : ∀ (rest : List WritableRoot) (root : Option String), ∃ rest',
        (root.map (pushWritableRootUnique (⟨path, true, []⟩ :: rest))).getD
          (⟨path, true, []⟩ :: rest) = ⟨path, true, []⟩ :: rest' := by
      intro rest root
      cases root with
      | none => exact ⟨rest, rfl⟩
      | some root =>
        simp only [Option.map_some, Option.getD_some, pushWritableRootUnique]
        split
        · exact ⟨rest, rfl⟩
        · exact ⟨rest ++ [⟨root, true, []⟩], rfl⟩
    obtain ⟨exe, hexe⟩ := hpush [] env.exeRoot
    obtain ⟨tools, htools⟩ := hpush exe env.toolsRoot
    refine ⟨tools ++ env.extraRoots.map fun root => ⟨root, true, []⟩, ?_⟩
    have hfirst : pushWritableRootUnique [] path = [⟨path, true, []⟩] := rfl
    simp only [sandboxPolicyFromConfigWithWorkspace, hmode, henabled, hfirst, hexe, htools,
      Bool.true_or, if_true, List.cons_append]
  obtain ⟨rest, hpath⟩ := hhead path
  obtain ⟨rest', hpath'⟩ := hhead path'
  rw [hpath, hpath'] at h
  simp only [SandboxPolicy.workspaceWrite.injEq, List.cons.injEq, WritableRoot.mk.injEq] at h
  exact h.1.1.1

end ColossalCode.Dispatch
