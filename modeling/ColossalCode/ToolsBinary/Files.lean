import ColossalCode.FileSystem.Paths
import ColossalCode.ToolsBinary.CommandLine
import ColossalCode.Backend.Utf8

/-! What the operations of the tools binary that change files do to the file system. -/
namespace ColossalCode.ToolsBinary.Files

open FileSystem

abbrev FileTree := FileSystem.Tree (List UInt8)

def pieces (path : String) : List (List Char) := path.toList.splitOn '/'

def isAbsolute (path : String) : Bool := path.toList.head? = some '/'

def component : List Char → Option Component
  | [] => none
  | ['.'] => some .curDir
  | ['.', '.'] => some .parentDir
  | name => some (.normal (String.ofList name))

/-- The components that the kernel sees. A slash at the end asks for a directory as a dot does. -/
def components (path : String) : List Component :=
  (pieces path).filterMap component ++
    if (pieces path).getLast? = some [] then [.curDir] else []

def display (path : RealPath) : String := "/" ++ "/".intercalate path

/-- `root.join(path)`, for a relative path. -/
def join (root : RealPath) (path : String) : String :=
  if root = [] then "/" ++ path else display root ++ "/" ++ path

def isDropped (piece : List Char) : Bool := piece = [] || piece = ['.']

/-- The pieces from the last component of an absolute path back to its start. -/
def backwards (path : String) : List (List Char) := (pieces path).reverse.dropWhile isDropped

def parent (path : String) : Option String :=
  match backwards path with
  | [] => none
  | _ :: before =>
    match before.dropWhile isDropped with
    | [] => some "/"
    | before => some (String.ofList (['/'].intercalate before.reverse))

def fileName (path : String) : Option String :=
  match backwards path with
  | [] => none
  | last :: _ => if last = ['.', '.'] then none else some (String.ofList last)

def errorText : Errno → String
  | .notFound => "No such file or directory (os error 2)"
  | .notADirectory => "Not a directory (os error 20)"
  | .isADirectory => "Is a directory (os error 21)"
  | .directoryNotEmpty => "Directory not empty (os error 39)"
  | .alreadyExists => "File exists (os error 17)"
  | .busy => "Device or resource busy (os error 16)"
  | .tooManyLinks => "Too many levels of symbolic links (os error 40)"

variable (fs : FileTree) (root : RealPath)

/-- The path that the check looks at: relative ones start at the workspace root. -/
def absolutePath (path : String) : String := if isAbsolute path then path else join root path

def resolvedPath (absolute : String) (mustExist : Bool) : Except String RealPath :=
  if mustExist then
    match fs.canonicalize (components absolute) with
    | .ok resolved => .ok resolved
    | .error e => .error ("Failed to resolve path " ++ absolute ++ ": " ++ errorText e)
  else
    match parent absolute with
    | some parent =>
      match fs.canonicalize (components parent) with
      | .ok parentResolved =>
        match fileName absolute with
        | some name => .ok (parentResolved ++ [name])
        | none => .ok parentResolved
      | .error e => .error ("Failed to resolve parent " ++ parent ++ ": " ++ errorText e)
    | none => .ok []

def checkedPath (path : String) (mustExist : Bool) : Except String RealPath :=
  match resolvedPath fs (absolutePath root path) mustExist with
  | .ok resolved =>
    -- the policy of the sandbox is left to bound absolute paths
    if isAbsolute path = true ∨ root <+: resolved then .ok resolved
    else .error ("Path " ++ display resolved ++ " is outside workspace root " ++ display root)
  | .error e => .error e

inductive DeleteStatus where
  | success
  | failure
  deriving DecidableEq

structure DeleteResult where
  path : String
  status : DeleteStatus
  message : Option String
  deriving DecidableEq

def deleteEntries (delete : FileTree → RealPath → FileTree × Except Errno Unit)
    (path : RealPath) : FileTree → List String → FileTree × Except Errno Unit
  | fs, [] => (fs, .ok ())
  | fs, name :: names =>
    match delete fs (path ++ [name]) with
    | (fs, .error e) => (fs, .error e)
    | (fs, .ok ()) => deleteEntries delete path fs names

/-- `delete_all`, cut off so many entries deep. -/
def deleteAll : Nat → FileTree → RealPath → FileTree × Except Errno Unit
  | 0, fs, _ => (fs, .error .tooManyLinks)
  | depth + 1, fs, path =>
    if fs.isFile path then fs.removeFile path
    else
      match fs.readDir path with
      | .error e => (fs, .error e)
      | .ok names =>
        match deleteEntries (deleteAll depth) path fs names with
        | (fs, .error e) => (fs, .error e)
        | (fs, .ok ()) => fs.removeDir path

def deleteResult (path : RealPath) : Except Errno Unit → DeleteResult
  | .ok () => ⟨display path, .success, none⟩
  | .error e => ⟨display path, .failure, some (errorText e)⟩

def deletePath (depth : Nat) (fs : FileTree) (path : RealPath) : FileTree × DeleteResult :=
  if fs.pathExists path then
    let (fs, res) := if fs.isFile path then fs.removeFile path else deleteAll depth fs path
    (fs, deleteResult path res)
  else (fs, ⟨display path, .failure, some "Path does not exist"⟩)

def deleteMany (depth : Nat) : FileTree → List RealPath → FileTree × List DeleteResult
  | fs, [] => (fs, [])
  | fs, path :: paths =>
    let (fs, result) := deletePath depth fs path
    let (fs, results) := deleteMany depth fs paths
    (fs, result :: results)

inductive EditStatus where
  | success
  | failure
  deriving DecidableEq

structure EditResult where
  path : String
  status : EditStatus
  message : Option String
  deriving DecidableEq

/-- How often `content.match_indices(old_string)` finds a text that is not empty, so many
characters further on. -/
def matchIndices (oldString : List Char) : Nat → List Char → Nat
  | _, [] => 0
  | skip + 1, _ :: content => matchIndices oldString skip content
  | 0, c :: content =>
    if oldString.isPrefixOf (c :: content) then
      1 + matchIndices oldString (oldString.length - 1) content
    else matchIndices oldString 0 content

/-- `content.replacen(old_string, new_string, 1)`. -/
def replaceFirst (oldString newString : List Char) : List Char → List Char
  | [] => []
  | c :: content =>
    if oldString.isPrefixOf (c :: content) then
      newString ++ (c :: content).drop oldString.length
    else c :: replaceFirst oldString newString content

/-- The content after the edit of a file that is there. -/
def edited (oldString newString content : String) : Except String String :=
  if oldString = "" then
    if Text.trim content = "" then .ok newString
    else .error "file already has content; provide old_string to replace specific text"
  else
    let occurrences := matchIndices oldString.toList 0 content.toList
    if occurrences = 0 then .error "old_string not found in file"
    else if occurrences > 1 then
      .error "more than one occurrence of old_string; provide unique context"
    else .ok (String.ofList (replaceFirst oldString.toList newString.toList content.toList))

/-- `fs::read_to_string`. -/
def readToString (path : RealPath) : Except String String :=
  match fs.read path with
  | .ok bytes =>
    match String.fromUTF8? ⟨bytes.toArray⟩ with
    | some content => .ok content
    | none => .error "stream did not contain valid UTF-8"
  | .error e => .error (errorText e)

/-- The directory of the file is made where it is missing. -/
def ensureParent (targetFile : RealPath) : FileTree × Except Errno Unit :=
  if targetFile = [] then (fs, .ok ())
  else if fs.pathExists targetFile.dropLast then (fs, .ok ())
  else fs.createDirAll targetFile.dropLast

def editFile (targetFile : RealPath) (oldString newString : String) : FileTree × EditResult :=
  let failed (message : String) : EditResult := ⟨display targetFile, .failure, some message⟩
  if fs.pathExists targetFile then
    if fs.isDir targetFile then (fs, failed "Target path is a directory, not a file")
    else
      match readToString fs targetFile with
      | .error e => (fs, failed ("Failed to read file: " ++ e))
      | .ok content =>
        match edited oldString newString content with
        | .error message => (fs, failed message)
        | .ok newContent =>
          match fs.write targetFile (Text.utf8 newContent.toList) with
          | (fs, .ok ()) => (fs, ⟨display targetFile, .success, none⟩)
          | (fs, .error e) => (fs, failed ("Failed to write file: " ++ errorText e))
  else if oldString = "" then
    match ensureParent fs targetFile with
    | (fs, .error e) => (fs, failed ("Failed to create parent directories: " ++ errorText e))
    | (fs, .ok ()) =>
      match fs.write targetFile (Text.utf8 newString.toList) with
      | (fs, .ok ()) => (fs, ⟨display targetFile, .success, some "File created"⟩)
      | (fs, .error e) => (fs, failed ("Failed to create file: " ++ errorText e))
  else (fs, failed "File does not exist (use empty old_string to create new file)")

inductive Printed where
  | edit (result : EditResult)
  | delete (result : DeleteResult)
  | deletes (results : List DeleteResult)
  deriving DecidableEq

/-- The arguments of `delete_many`, all checked before the first deletion. -/
def checkedPaths : List String → List RealPath × List DeleteResult
  | [] => ([], [])
  | path :: paths =>
    let (validPaths, results) := checkedPaths paths
    match checkedPath fs root path true with
    | .ok valid => (valid :: validPaths, results)
    | .error e => (validPaths, ⟨path, .failure, some e⟩ :: results)

/-- The arms of `main` that change files, and what they print. -/
def run (depth : Nat) : Operation → FileTree × Option Printed
  | .editFile path oldString newString =>
    match checkedPath fs root path false with
    | .error e => (fs, some (.edit ⟨path, .failure, some e⟩))
    | .ok target =>
      let (fs, result) := editFile fs target oldString newString
      (fs, some (.edit result))
  | .deletePath path =>
    match checkedPath fs root path true with
    | .error e => (fs, some (.delete ⟨path, .failure, some e⟩))
    | .ok target =>
      let (fs, result) := deletePath depth fs target
      (fs, some (.delete result))
  | .deleteMany paths =>
    let (validPaths, failures) := checkedPaths fs root paths
    let (fs, results) := deleteMany depth fs validPaths
    (fs, some (.deletes (failures ++ results)))
  | _ => (fs, none)

end ColossalCode.ToolsBinary.Files
