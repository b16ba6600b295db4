import ColossalCode.Mounts.Table
import ColossalCode.Sessionizer.Policy
import Mathlib.Data.List.SplitOn

/-! The arguments that a command is run with under bubblewrap. -/
namespace ColossalCode.Sandbox
open List

def IsName (name : String) : Prop := name ≠ "" ∧ '/' ∉ name.toList

instance (name : String) : Decidable (IsName name) := instDecidableAnd

/-- A place in the file system, links resolved: the names from the root down. -/
structure Place where
  names : List String
  valid : ∀ name ∈ names, IsName name

def pathText (names : List String) : String :=
  String.ofList ('/' :: ['/'].intercalate (names.map String.toList))

def Place.text (place : Place) : String := pathText place.names

/-- The file system of the host, and the variable that its environment may hold. -/
structure Host where
  pathExists : String → Bool
  canonicalize : String → Option Place
  tmpdir : Option String

/-- The place of a path that exists. -/
def Host.place (h : Host) (path : String) : Option Place :=
  if h.pathExists path then h.canonicalize path else none

def isAbsolute (path : String) : Bool := path.toList.head? = some '/'

/-- `Path::join`. -/
def joinPath (base path : String) : String :=
  if isAbsolute path || base = "" then path
  else if base.toList.getLast? = some '/' then base ++ path
  else base ++ "/" ++ path

inductive Component where
  | parentDir
  | normal (name : String)
  deriving DecidableEq

def component (piece : List Char) : Option Component :=
  if piece = [] ∨ piece = ['.'] then none
  else if piece = ['.', '.'] then some .parentDir
  else some (.normal (String.ofList piece))

/-- `Path::components` of an absolute path, after the root. -/
def components (path : String) : List Component :=
  (path.toList.splitOn '/').filterMap component

end ColossalCode.Sandbox

namespace ColossalCode.Sessionizer.SandboxPolicy
open List

open Sandbox

def hasFullDiskWriteAccess : SandboxPolicy → Bool
  | .dangerFullAccess => true
  | _ => false

def hasFullDiskReadAccess : SandboxPolicy → Bool
  | .dangerFullAccess => true
  | _ => false

def hasFullNetworkAccess : SandboxPolicy → Bool
  | .readOnly => false
  | .workspaceWrite _ networkAccess _ _ => networkAccess = .enabled
  | .dangerFullAccess => true

/-- The temporary directories that a policy lets a command write to. -/
def temporaryRoots (h : Host) (excludeTmpdirEnvVar excludeSlashTmp : Bool) : List String :=
  (if excludeSlashTmp then [] else ["/tmp"]) ++
    (if excludeTmpdirEnvVar then [] else h.tmpdir.toList)

/-- `get_writable_roots_with_cwd`. -/
def writableRootsWithCwd (h : Host) (cwd : String) : SandboxPolicy → List WritableRoot
  | .workspaceWrite writableRoots _ excludeTmpdirEnvVar excludeSlashTmp =>
    writableRoots ++ [⟨cwd, true, [joinPath cwd ".git"]⟩] ++
      (temporaryRoots h excludeTmpdirEnvVar excludeSlashTmp).map fun root => ⟨root, true, []⟩
  | _ => []

end ColossalCode.Sessionizer.SandboxPolicy

namespace ColossalCode.Sandbox
open List

open Sessionizer (WritableRoot SandboxPolicy)

def systemPaths : List String :=
  ["/usr", "/bin", "/sbin", "/lib", "/lib64", "/etc", "/nix/store", "/run/current-system/sw"]

def devices : List String := ["/dev/null", "/dev/zero", "/dev/urandom", "/dev/random", "/dev/tty"]

/-- A system path lies at the directory, above it or below it. -/
def besideSystemPath (current : List Component) : Bool :=
  systemPaths.any fun path =>
    (components path).isPrefixOf current || current.isPrefixOf (components path)

variable (h : Host)

def addReadOnlyBind (path : String) : List String :=
  match h.place path with
  | some place => ["--ro-bind", place.text, place.text]
  | none => []

def addReadWriteBind (path : String) : List String :=
  match h.place path with
  | some place => ["--bind", place.text, place.text]
  | none => []

/-- The loop of `ensure_path_parents_visible` over the components after those in `current`. -/
def visibleParents (lockDown : Bool) (path : List Component) :
    List String → List Component → List String
  | _, [] => []
  | current, .parentDir :: rest => visibleParents lockDown path current rest
  | current, .normal name :: rest =>
    let current := current ++ [name]
    if current.map .normal = path then []
    else if besideSystemPath (current.map .normal) then visibleParents lockDown path current rest
    else ["--dir", pathText current] ++
      (if lockDown then ["--chmod", "0555", pathText current] else []) ++
      visibleParents lockDown path current rest

def ensurePathParentsVisible (path : String) (lockDown : Bool) : List String :=
  if isAbsolute path then visibleParents lockDown (components path) [] (components path) else []

/-- The arguments before those of the policy's own directories. -/
def commonArgs (policy : SandboxPolicy) (program : String) : List String :=
  ["--die-with-parent", "--new-session", "--unshare-user", "--unshare-pid", "--unshare-ipc"] ++
  (if policy.hasFullNetworkAccess then [] else ["--unshare-net"]) ++
  (if policy.hasFullDiskReadAccess then ["--ro-bind", "/", "/"] else ["--tmpfs", "/"]) ++
  (if policy = .readOnly then
    devices.flatMap fun dev => if h.pathExists dev then ["--dev-bind", dev, dev] else []
  else ["--dev", "/dev"]) ++
  ["--proc", "/proc"] ++
  (systemPaths.flatMap fun path => if h.pathExists path then ["--ro-bind", path, path] else []) ++
  addReadOnlyBind h program ++ ensurePathParentsVisible program false

/-- The options of `create_bwrap_command_args`. -/
def createBwrapOptions (policy : SandboxPolicy) (cwd program : String) : List String :=
  match policy with
  | .dangerFullAccess =>
    ["--die-with-parent", "--new-session", "--bind", "/", "/", "--unshare-user", "--unshare-pid",
      "--proc", "/proc"]
  | .readOnly =>
    commonArgs h policy program ++ ensurePathParentsVisible cwd true ++ addReadOnlyBind h cwd ++
      ["--remount-ro", "/"]
  | .workspaceWrite writableRoots _ excludeTmpdirEnvVar excludeSlashTmp =>
    commonArgs h policy program ++ addReadWriteBind h cwd ++
      (writableRoots.flatMap fun root =>
        addReadWriteBind h root.root ++ root.readOnlySubpaths.flatMap (addReadOnlyBind h)) ++
      (SandboxPolicy.temporaryRoots h excludeTmpdirEnvVar excludeSlashTmp).flatMap
        (addReadWriteBind h)

/-- `create_bwrap_command_args`. Its command is never empty: the first element is indexed. -/
def createBwrapCommandArgs (policy : SandboxPolicy) (cwd program : String)
    (arguments : List String) : List String :=
  createBwrapOptions h policy cwd program ++ ["--chdir", cwd] ++ ["--"] ++ program :: arguments

end ColossalCode.Sandbox

/-! The mount table that bubblewrap builds from its arguments. Its options are read in order, up to
the one that ends them; each mount covers the earlier ones at its target and below. -/
namespace ColossalCode.Sandbox
open List

open Sessionizer (WritableRoot SandboxPolicy)
open Mounts (Mount)

/-- How many operands follow an option. -/
def operands (option : String) : Nat :=
  if option ∈ ["--bind", "--ro-bind", "--dev-bind", "--chmod"] then 2
  else if option ∈ ["--tmpfs", "--dev", "--proc", "--dir", "--remount-ro", "--chdir", "--argv0"] then
    1
  else 0

/-- The options with their operands; the first argument may be the option that waits for some. -/
def readOptions : Option (String × List String) → List String → List (String × List String)
  | _, [] => []
  | none, arg :: rest =>
    if arg = "--" then []
    else if operands arg = 0 then (arg, []) :: readOptions none rest
    else readOptions (some (arg, [])) rest
  | some (option, given), arg :: rest =>
    if given.length + 1 = operands option then (option, given ++ [arg]) :: readOptions none rest
    else readOptions (some (option, given ++ [arg])) rest

/-- What a mount shows: an empty tree in memory, devices or processes, or a part of the host. -/
inductive Origin where
  | memory
  | kernel
  | host
  deriving DecidableEq

structure Kind where
  origin : Origin
  readOnly : Bool
  deriving DecidableEq

abbrev Table := List (Mount String Kind)

/-- The names in the text of a path. -/
def namesOf (path : String) : List String :=
  ((path.toList.splitOn '/').filter (· ≠ [])).map String.ofList

/-- The last mount on the target is made read-only. -/
def remountReadOnly (target : List String) : Table → Table
  | [] => []
  | mount :: later =>
    if mount.target = target ∧ ∀ m ∈ later, m.target ≠ target then
      ⟨target, { mount.kind with readOnly := true }⟩ :: later
    else mount :: remountReadOnly target later

def applyOption (table : Table) (option : String × List String) : Table :=
  match option.2 with
  | [_, target] =>
    if option.1 = "--bind" then table ++ [⟨namesOf target, .host, false⟩]
    else if option.1 = "--ro-bind" then table ++ [⟨namesOf target, .host, true⟩]
    else if option.1 = "--dev-bind" then table ++ [⟨namesOf target, .kernel, false⟩]
    else table
  | [target] =>
    if option.1 = "--tmpfs" then table ++ [⟨namesOf target, .memory, false⟩]
    else if option.1 = "--dev" ∨ option.1 = "--proc" then
      table ++ [⟨namesOf target, .kernel, false⟩]
    else if option.1 = "--remount-ro" then remountReadOnly (namesOf target) table
    else table
  | _ => table

/-- The table after further arguments. -/
def mountFrom (table : Table) (args : List String) : Table :=
  (readOptions none args).foldl applyOption table

def mountTable (args : List String) : Table := mountFrom [] args

section Options

variable (table : Table) (source target : String) (rest : List String)

theorem mountFrom_bind : mountFrom table ("--bind" :: source :: target :: rest) =
    mountFrom (table ++ [⟨namesOf target, .host, false⟩]) rest := rfl

theorem mountFrom_roBind : mountFrom table ("--ro-bind" :: source :: target :: rest) =
    mountFrom (table ++ [⟨namesOf target, .host, true⟩]) rest := rfl

theorem mountFrom_tmpfs : mountFrom table ("--tmpfs" :: target :: rest) =
    mountFrom (table ++ [⟨namesOf target, .memory, false⟩]) rest := rfl

theorem mountFrom_dev : mountFrom table ("--dev" :: target :: rest) =
    mountFrom (table ++ [⟨namesOf target, .kernel, false⟩]) rest := rfl

theorem mountFrom_proc : mountFrom table ("--proc" :: target :: rest) =
    mountFrom (table ++ [⟨namesOf target, .kernel, false⟩]) rest := rfl

theorem mountFrom_dir : mountFrom table ("--dir" :: target :: rest) = mountFrom table rest := rfl

theorem mountFrom_chmod : mountFrom table ("--chmod" :: source :: target :: rest) =
    mountFrom table rest := rfl

end Options

/-- The arguments add these mounts to any table, whatever follows them. -/
def Adds (args : List String) (added : Table) : Prop :=
  ∀ table rest, mountFrom table (args ++ rest) = mountFrom (table ++ added) rest

variable {args more : List String} {added further : Table}

theorem Adds.nil : Adds [] [] := by
  intro table rest
  rw [nil_append, append_nil]

theorem Adds.append (h : Adds args added) (hmore : Adds more further) :
    Adds (args ++ more) (added ++ further) := by
  intro table rest
  rw [append_assoc, h, hmore, append_assoc]

theorem Adds.flatMap {α : Type} {items : List α} {argsOf : α → List String} {addedOf : α → Table}
    (h : ∀ item, Adds (argsOf item) (addedOf item)) :
    Adds (items.flatMap argsOf) (items.flatMap addedOf) := by
  induction items with
  | nil => exact .nil
  | cons item items ih =>
    rw [flatMap_cons, flatMap_cons]
    exact (h item).append ih

theorem Adds.ite {c : Prop} [Decidable c] (h : c → Adds args added)
    (hmore : ¬ c → Adds more further) :
    Adds (if c then args else more) (if c then added else further) := by
  by_cases hc : c
  · rw [if_pos hc, if_pos hc]
    exact h hc
  · rw [if_neg hc, if_neg hc]
    exact hmore hc

theorem namesOf_pathText {names : List String} (h : ∀ name ∈ names, IsName name) :
    namesOf (pathText names) = names := by
  have hslash : ∀ piece ∈ [] :: names.map String.toList, '/' ∉ piece := by
    intro piece hpiece
    rcases mem_cons.mp hpiece with rfl | hmem
    · exact not_mem_nil
    · obtain ⟨name, hname, rfl⟩ := mem_map.mp hmem
      exact (h name hname).2
  have hkept : (names.map String.toList).filter (· ≠ []) = names.map String.toList := by
    apply filter_eq_self.mpr
    intro piece hpiece
    obtain ⟨name, hname, rfl⟩ := mem_map.mp hpiece
    have hne : name.toList ≠ [] := fun hnil => (h name hname).1 (String.toList_eq_nil_iff.mp hnil)
    exact decide_eq_true hne
  have htext : (pathText names).toList.splitOn '/' = [] :: names.map String.toList ∨
      names = [] := by
    cases names with
    | nil => exact .inr rfl
    | cons name names =>
      left
      rw [pathText, String.toList_ofList, ← splitOn_intercalate '/' hslash (by simp)]
      rfl
  rcases htext with htext | rfl
  · rw [namesOf, htext, filter_cons_of_neg (by simp), hkept, map_map]
    simp
  · decide

theorem Place.namesOf_text (place : Place) : namesOf place.text = place.names :=
  namesOf_pathText place.valid

variable (h : Host)

/-- The mount of a path of the host that exists. -/
def bound (readOnly : Bool) (path : String) : Table :=
  match h.place path with
  | some place => [⟨place.names, .host, readOnly⟩]
  | none => []

variable (path : String) (writableRoots : List WritableRoot)

theorem addReadOnlyBind_adds : Adds (addReadOnlyBind h path) (bound h true path) := by
  intro table rest
  unfold addReadOnlyBind bound
  cases h.place path with
  | none => rw [nil_append, append_nil]
  | some place =>
    dsimp only
    rw [← place.namesOf_text]
    exact mountFrom_roBind table place.text place.text rest

theorem addReadWriteBind_adds :
    Adds (addReadWriteBind h path) (bound h false path) := by
  intro table rest
  unfold addReadWriteBind bound
  cases h.place path with
  | none => rw [nil_append, append_nil]
  | some place =>
    dsimp only
    rw [← place.namesOf_text]
    exact mountFrom_bind table place.text place.text rest

theorem visibleParents_adds (lockDown : Bool) (path : List Component) (current : List String)
    (rest : List Component) : Adds (visibleParents lockDown path current rest) [] := by
  fun_induction visibleParents lockDown path current rest with
  | case1 => exact .nil
  | case2 current rest ih => exact ih
  | case3 => exact .nil
  | case4 current name rest next hpath hbeside ih => exact ih
  | case5 current name rest next hpath hbeside ih =>
    have hdir : Adds ["--dir", pathText next] [] := by
      intro table rest
      rw [append_nil]
      exact mountFrom_dir table _ rest
    have hchmod : Adds (if lockDown then ["--chmod", "0555", pathText next] else []) [] := by
      split
      · intro table rest
        rw [append_nil]
        exact mountFrom_chmod table _ _ rest
      · exact .nil
    exact (hdir.append hchmod).append ih

theorem ensurePathParentsVisible_adds (lockDown : Bool) :
    Adds (ensurePathParentsVisible path lockDown) [] := by
  unfold ensurePathParentsVisible
  split
  · exact visibleParents_adds lockDown _ _ _
  · exact .nil

/-- The mounts of the system paths that exist, and of the program. -/
def programs (program : String) : Table :=
  (systemPaths.flatMap fun path =>
    if h.pathExists path then [⟨namesOf path, .host, true⟩] else []) ++ bound h true program

/-- The mounts before those of the directories that a policy lets a command write to. -/
def base (program : String) : Table :=
  [⟨[], .memory, false⟩, ⟨["dev"], .kernel, false⟩, ⟨["proc"], .kernel, false⟩] ++
    programs h program

/-- The mounts of the working directory, the writable roots with their read-only subpaths, and the
temporary directories. -/
def directories (writableRoots : List WritableRoot) (cwd : String)
    (excludeTmpdirEnvVar excludeSlashTmp : Bool) : Table :=
  bound h false cwd ++
    (writableRoots.flatMap fun root =>
      bound h false root.root ++ root.readOnlySubpaths.flatMap (bound h true)) ++
    (SandboxPolicy.temporaryRoots h excludeTmpdirEnvVar excludeSlashTmp).flatMap (bound h false)

theorem systemPaths_adds : Adds
    (systemPaths.flatMap fun path => if h.pathExists path then ["--ro-bind", path, path] else [])
    (systemPaths.flatMap fun path =>
      if h.pathExists path then [⟨namesOf path, .host, true⟩] else []) := by
  apply Adds.flatMap
  intro path
  apply Adds.ite
  · intro _ table rest
    exact mountFrom_roBind table path path rest
  · intro _
    exact .nil

theorem commonArgs_adds
    (networkAccess : Sessionizer.NetworkAccess) (excludeTmpdirEnvVar excludeSlashTmp : Bool)
    (program : String) : Adds (commonArgs h
      (.workspaceWrite writableRoots networkAccess excludeTmpdirEnvVar excludeSlashTmp) program)
      (base h program) := by
  have hflags : Adds ["--die-with-parent", "--new-session", "--unshare-user", "--unshare-pid",
      "--unshare-ipc"] [] := by
    intro table rest
    rw [append_nil]
    rfl
  have hnetwork (c : Bool) : Adds (if c then [] else ["--unshare-net"]) [] := by
    intro table rest
    rw [append_nil]
    cases c <;> rfl
  have hkernel : Adds ["--tmpfs", "/"] [⟨[], .memory, false⟩] := fun table rest =>
    mountFrom_tmpfs table "/" rest
  have hdev : Adds ["--dev", "/dev"] [⟨["dev"], .kernel, false⟩] := fun table rest =>
    mountFrom_dev table "/dev" rest
  have hproc : Adds ["--proc", "/proc"] [⟨["proc"], .kernel, false⟩] := fun table rest =>
    mountFrom_proc table "/proc" rest
  have hall := ((((((hflags.append (hnetwork (networkAccess = .enabled))).append hkernel).append hdev).append hproc).append
    (systemPaths_adds h)).append (addReadOnlyBind_adds h program)).append
    (ensurePathParentsVisible_adds program false)
  unfold base programs
  rw [append_nil] at hall
  rw [← append_assoc]
  exact hall

theorem mountTable_workspaceWrite
    (networkAccess : Sessionizer.NetworkAccess) (excludeTmpdirEnvVar excludeSlashTmp : Bool)
    (cwd program : String) (arguments : List String) :
    mountTable (createBwrapCommandArgs h
      (.workspaceWrite writableRoots networkAccess excludeTmpdirEnvVar excludeSlashTmp) cwd program
      arguments) =
      base h program ++ directories h writableRoots cwd excludeTmpdirEnvVar excludeSlashTmp := by
  have hroots : Adds
      (writableRoots.flatMap fun root =>
        addReadWriteBind h root.root ++ root.readOnlySubpaths.flatMap (addReadOnlyBind h))
      (writableRoots.flatMap fun root =>
        bound h false root.root ++ root.readOnlySubpaths.flatMap (bound h true)) :=
    .flatMap fun root => (addReadWriteBind_adds h root.root).append
      (.flatMap (addReadOnlyBind_adds h))
  have htemporary : Adds
      ((SandboxPolicy.temporaryRoots h excludeTmpdirEnvVar excludeSlashTmp).flatMap
        (addReadWriteBind h))
      ((SandboxPolicy.temporaryRoots h excludeTmpdirEnvVar excludeSlashTmp).flatMap
        (bound h false)) := .flatMap (addReadWriteBind_adds h)
  have hall := (((commonArgs_adds h writableRoots networkAccess excludeTmpdirEnvVar excludeSlashTmp
    program).append (addReadWriteBind_adds h cwd)).append hroots).append htemporary
  have htable := hall [] (["--chdir", cwd] ++ ["--"] ++ program :: arguments)
  rw [nil_append, append_assoc, append_assoc] at htable
  rw [mountTable, createBwrapCommandArgs, createBwrapOptions, directories]
  simp only [append_assoc] at htable ⊢
  exact htable

end ColossalCode.Sandbox
