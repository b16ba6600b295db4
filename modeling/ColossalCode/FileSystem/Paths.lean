import Mathlib.Data.List.Basic
import Mathlib.Data.List.Infix

/-! File systems of directories, files and symbolic links, and the resolution of paths in them.
Every operation succeeds that names and kinds allow: permissions are left out, as are files with
more than one name. -/
namespace FileSystem

/-- A component of a path; what `Path::components` and the kernel both see. A slash at the end
counts as a `curDir`. -/
inductive Component where
  | curDir
  | parentDir
  | normal (name : String)
  deriving DecidableEq, Repr

structure Path where
  absolute : Bool
  components : List Component
  deriving DecidableEq, Repr

/-- A place in the tree: the names from the root down, through directories only. -/
abbrev RealPath := List String

/-- What stands in a place; the content of files is of any type. -/
inductive Node (α : Type) where
  | dir
  | file (content : α)
  | link (target : Path)
  deriving DecidableEq

def Node.isLink {α : Type} : Node α → Bool
  | .link _ => true
  | _ => false

/-- The entries of a tree other than its root. -/
structure Tree (α : Type) where
  entries : List (RealPath × Node α)
  deriving DecidableEq

inductive Errno where
  | notFound
  | notADirectory
  | isADirectory
  | directoryNotEmpty
  | alreadyExists
  | busy
  | tooManyLinks
  deriving DecidableEq, Repr

namespace Tree

variable {α : Type} (fs : Tree α)

def lookup (path : RealPath) : Option (Node α) :=
  if path = [] then some .dir else (fs.entries.find? (·.1 = path)).map (·.2)

inductive Resolution where
  | found (path : RealPath)
  | missing (dir : RealPath) (name : String)
  | failed (e : Errno)
  deriving DecidableEq

inductive Scan where
  | found (path : RealPath)
  | missing (dir : RealPath) (name : String)
  | failed (e : Errno)
  | link (dir : RealPath) (target : Path) (rest : List Component)

/-- From a directory along a path up to the first link that is to be followed; one at the end is,
where `follow` says so. -/
def scan (follow : Bool) : RealPath → List Component → Scan
  | cur, [] => .found cur
  | cur, .curDir :: rest => scan follow cur rest
  | cur, .parentDir :: rest => scan follow cur.dropLast rest
  | cur, .normal name :: rest =>
    match fs.lookup (cur ++ [name]) with
    | none => if rest = [] then .missing cur name else .failed .notFound
    | some .dir => scan follow (cur ++ [name]) rest
    | some (.file _) => if rest = [] then .found (cur ++ [name]) else .failed .notADirectory
    | some (.link target) =>
      if rest = [] ∧ follow = false then .found (cur ++ [name]) else .link cur target rest

/-- Resolution from a directory, through so many links at most. -/
def walk (follow : Bool) : Nat → RealPath → List Component → Resolution
  | links, cur, components =>
    match fs.scan follow cur components with
    | .found path => .found path
    | .missing dir name => .missing dir name
    | .failed e => .failed e
    | .link dir target rest =>
      match links with
      | 0 => .failed .tooManyLinks
      | links + 1 =>
        walk follow links (if target.absolute then [] else dir) (target.components ++ rest)

/-- How many links the kernel follows in one resolution. -/
def maxLinks : Nat := 40

def resolve (follow : Bool) (components : List Component) : Resolution :=
  fs.walk follow maxLinks [] components

end Tree

/-- A real path as it is handed to the kernel. -/
def RealPath.components (path : RealPath) : List Component := path.map .normal

namespace Tree

variable {α : Type} (fs : Tree α)

/-- The real path and the node that a path leads to, links followed. -/
def stat (path : RealPath) : Except Errno (RealPath × Node α) :=
  match fs.resolve true path.components with
  | .found found => ((fs.lookup found).map fun node => (found, node)).elim (.error .notFound) .ok
  | .missing _ _ => .error .notFound
  | .failed e => .error e

/-- `Path::exists`. -/
def pathExists (path : RealPath) : Bool := (fs.stat path).isOk

/-- `Path::is_file`. -/
def isFile (path : RealPath) : Bool :=
  match fs.stat path with
  | .ok (_, .file _) => true
  | _ => false

/-- `Path::is_dir`. -/
def isDir (path : RealPath) : Bool :=
  match fs.stat path with
  | .ok (_, .dir) => true
  | _ => false

/-- `fs::canonicalize`, on the components of an absolute path. -/
def canonicalize (components : List Component) : Except Errno RealPath :=
  match fs.resolve true components with
  | .found path => .ok path
  | .missing _ _ => .error .notFound
  | .failed e => .error e

/-- The names in a directory, in the order of the tree's entries. -/
def names (dir : RealPath) : List String :=
  fs.entries.filterMap fun entry =>
    if entry.1.dropLast = dir then entry.1.getLast? else none

/-- `fs::read_dir`. -/
def readDir (path : RealPath) : Except Errno (List String) :=
  match fs.stat path with
  | .ok (found, .dir) => .ok (fs.names found)
  | .ok _ => .error .notADirectory
  | .error e => .error e

/-- `fs::read`. -/
def read (path : RealPath) : Except Errno α :=
  match fs.stat path with
  | .ok (_, .file content) => .ok content
  | .ok _ => .error .isADirectory
  | .error e => .error e

def remove (path : RealPath) : Tree α :=
  { entries := fs.entries.filter fun entry => entry.1 ≠ path }

def put (path : RealPath) (node : Node α) : Tree α :=
  { entries := (fs.remove path).entries ++ [(path, node)] }

/-- `fs::remove_file`: a link is removed, not followed. -/
def removeFile (path : RealPath) : Tree α × Except Errno Unit :=
  match fs.resolve false path.components with
  | .found found =>
    match fs.lookup found with
    | some .dir => (fs, .error .isADirectory)
    | _ => (fs.remove found, .ok ())
  | .missing _ _ => (fs, .error .notFound)
  | .failed e => (fs, .error e)

/-- `fs::remove_dir`: an empty directory, no link to one. -/
def removeDir (path : RealPath) : Tree α × Except Errno Unit :=
  match fs.resolve false path.components with
  | .found found =>
    match fs.lookup found with
    | some .dir =>
      if found = [] then (fs, .error .busy)
      else if fs.names found = [] then (fs.remove found, .ok ())
      else (fs, .error .directoryNotEmpty)
    | _ => (fs, .error .notADirectory)
  | .missing _ _ => (fs, .error .notFound)
  | .failed e => (fs, .error e)

/-- `fs::write`: links are followed, also to a file that is not there yet. -/
def write (path : RealPath) (content : α) : Tree α × Except Errno Unit :=
  match fs.resolve true path.components with
  | .found found =>
    match fs.lookup found with
    | some .dir => (fs, .error .isADirectory)
    | _ => (fs.put found (.file content), .ok ())
  | .missing dir name => (fs.put (dir ++ [name]) (.file content), .ok ())
  | .failed e => (fs, .error e)

/-- `fs::create_dir`: a link in the place is in the way, whatever it leads to. -/
def createDir (path : RealPath) : Tree α × Except Errno Unit :=
  match fs.resolve false path.components with
  | .found _ => (fs, .error .alreadyExists)
  | .missing dir name => (fs.put (dir ++ [name]) .dir, .ok ())
  | .failed e => (fs, .error e)

/-- `fs::create_dir_all`: the directories on the way that are not there, the upper ones first. -/
def createDirAll (path : RealPath) : Tree α × Except Errno Unit :=
  path.inits.foldl
    (fun state dir =>
      match state with
      | (fs, .error e) => (fs, .error e)
      | (fs, .ok ()) => if fs.isDir dir then (fs, .ok ()) else fs.createDir dir)
    (fs, .ok ())

end Tree

end FileSystem
