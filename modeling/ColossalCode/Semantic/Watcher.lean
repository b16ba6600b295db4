import ColossalCode.Backend.Utf8
import Mathlib.Logic.Function.Basic

/-! Chunks of source files, and the part of a file that a change affects. What the chunkers make of
a content comes from outside. -/
namespace ColossalCode.Semantic

/-- A `Chunk` of the file it is found with. -/
structure Chunk where
  kind : String
  startByte : Nat
  endByte : Nat
  sourceCode : String
  deriving DecidableEq, Repr

/-- `Path::extension` -/
def extension (path : String) : Option String :=
  let fileName := path.toList.reverse.takeWhile (· != '/')
  match fileName.span (· != '.') with
  | (_, []) | (_, ['.']) => none
  | (ext, _) => some (String.ofList ext.reverse)

/-- `ChunkerFactory::is_supported` -/
def isSupported (path : String) : Bool :=
  (extension path).any fun ext => ["py", "rs", "js", "jsx", "ts", "tsx"].contains ext

/-- What the ingestion leaves out. -/
def isIgnored (path : String) : Bool :=
  ["/target/", ".git", "/node_modules/", "/venv/", "/__pycache__/", "annotations", "logs"].any
    fun part => Text.contains path part

section Chunker

variable (chunker : String → String → Except String (List Chunk))

/-- `chunk_file`, on a file that has this text, if any. -/
def chunkFile (path : String) : Option String → Except String (List Chunk)
  | none => .error "Failed to read file"
  | some content =>
    if isSupported path then chunker path content else .error "Unsupported file type"

/-- The chunks of a file. -/
def chunksOf (path : String) (content : Option String) : List Chunk :=
  match chunkFile chunker path content with
  | .ok chunks => chunks
  | .error _ => []

end Chunker

def bytes (content : String) : List UInt8 := Text.utf8 content.toList

/-- The first differing byte. -/
def firstDiff : List UInt8 → List UInt8 → Nat
  | old :: olds, new :: news => if old = new then firstDiff olds news + 1 else 0
  | _, _ => 0

/-- The last differing byte of either, from behind. -/
def lastDiff (old new : List UInt8) (startDiff : Nat) : Nat → Nat → Nat × Nat
  | endOld + 1, endNew + 1 =>
    if startDiff < endOld + 1 ∧ startDiff < endNew + 1 then
      if old[endOld]? ≠ new[endNew]? then (endOld + 1, endNew + 1)
      else lastDiff old new startDiff endOld endNew
    else (endOld + 1, endNew + 1)
  | endOld, endNew => (endOld, endNew)

def calculateChangeRange (oldContent newContent : String) : Option (Nat × Nat) :=
  let old := bytes oldContent
  let new := bytes newContent
  let startDiff := firstDiff old new
  if startDiff = old.length ∧ startDiff = new.length then none
  else
    let (endOld, endNew) := lastDiff old new startDiff old.length new.length
    if endOld = startDiff ∨ endNew = startDiff then some (startDiff, max old.length new.length)
    else some (startDiff, max endOld endNew)

/-- `str::is_char_boundary` -/
def isCharBoundary (content : List UInt8) (i : Nat) : Bool :=
  i == 0 || i == content.length || (content[i]?).any fun b => b < 0x80 || 0xC0 ≤ b

/-- The text that has changed can be sliced. -/
def sliceable (content : String) (startByte endByte : Nat) : Bool :=
  let content := bytes content
  isCharBoundary content startByte && isCharBoundary content (min endByte content.length) &&
    decide (startByte ≤ min endByte content.length)

/-- The condition of `find_affected_chunks`; `start_byte - 1` wraps around. -/
def Chunk.affected (startByte endByte : Nat) (chunk : Chunk) : Bool :=
  decide (chunk.startByte < endByte + 1) &&
    decide ((startByte + 18446744073709551615) % 18446744073709551616 < chunk.endByte)

example : calculateChangeRange "fn a() {}\nfn b() {}" "fn a() {}\nfn bc() {}" = some (14, 20) := by
  decide

end ColossalCode.Semantic

/-! The file watcher of a `SemanticSearchSession`: the events of files, and what it makes of them in
the index. The index, which stores and finds exactly, is a list of points. -/
namespace ColossalCode.Semantic

/-- Points of the ingestion are numbered; a later one keeps its id, a UUID, in its payload too. -/
inductive PointId where
  | num (i : Nat)
  | uuid (i : Nat)
  deriving DecidableEq

structure Point where
  id : PointId
  fileName : String
  chunk : Chunk
  deriving DecidableEq

/-- `point_id` of the payload. -/
def Point.pointId (point : Point) : Option PointId :=
  match point.id with
  | .num _ => none
  | .uuid i => some (.uuid i)

/-- Points for chunks of files, with ids from a number on. -/
def numbered (id : Nat → PointId) : Nat → List (String × Chunk) → List Point
  | _, [] => []
  | i, (fileName, chunk) :: entries => ⟨id i, fileName, chunk⟩ :: numbered id (i + 1) entries

inductive EventKind where
  | create
  | modify
  | remove
  deriving DecidableEq

/-- What happens to a file. -/
inductive Change where
  | create (path content : String)
  | modify (path content : String)
  | remove (path : String)
  | rename (source target : String)

/-- Where the handling of an event stands: before the file is read for `index_file` or for
`update_file_index`, and before it is chunked for them. -/
inductive Phase where
  | idle
  | indexing (path : String)
  | chunking (path : String)
  | updating (path : String)
  | rechunking (path : String)
  deriving DecidableEq

/-- The file that is handled. -/
def Phase.path : Phase → Option String
  | .idle => none
  | .indexing path | .chunking path | .updating path | .rechunking path => some path

/-- The texts of the files that can be read, the events that wait, and the watcher. `indexed` is the
text of a file that the index was last made of. -/
structure State where
  now : Nat
  files : String → Option String
  queue : List (EventKind × String)
  alive : Bool
  phase : Phase
  debounceMap : String → Option Nat
  fileContentCache : String → Option String
  index : List Point
  nextUuid : Nat
  indexed : String → Option String

/-- For `update`, the points that the search finds are given. -/
inductive Action where
  | tick (milliseconds : Nat)
  | change (c : Change)
  | report (kind : EventKind) (path : String)
  | take
  | index
  | update (found : List Point)
  | chunk

def debounceDelay : Nat := 1000

/-- How many points a search returns. -/
def searchLimit : Nat := 100

namespace State

variable (s : State)

def setFile (path : String) (content : Option String) : State :=
  { s with files := Function.update s.files path content }

def notify (events : List (EventKind × String)) : State := { s with queue := s.queue ++ events }

/-- The file changes and the watcher is told; a rename modifies the names of both paths. -/
def apply : Change → State
  | .create path content => (s.setFile path (some content)).notify [(.create, path)]
  | .modify path content => (s.setFile path (some content)).notify [(.modify, path)]
  | .remove path => (s.setFile path none).notify [(.remove, path)]
  | .rename source target =>
    ((s.setFile target (s.files source)).setFile source none).notify
      [(.modify, source), (.modify, target)]

/-- An event of the file has been seen within the delay. -/
def debounced (path : String) : Bool :=
  (s.debounceMap path).any fun lastModified => s.now - lastModified < debounceDelay

def stamp (path : String) : State :=
  { s with debounceMap := Function.update s.debounceMap path (some s.now) }

def cache (path : String) (content : Option String) : State :=
  { s with fileContentCache := Function.update s.fileContentCache path content }

def setIndexed (path : String) (content : Option String) : State :=
  { s with indexed := Function.update s.indexed path content }

def removeFileFromIndex (path : String) : State :=
  { (s.cache path none).setIndexed path none with
    index := s.index.filter fun point => point.fileName != path }

/-- The chunks of a file are upserted under new ids. -/
def addChunks (path : String) (chunks : List Chunk) : State :=
  { s.setIndexed path (s.files path) with
    index := s.index ++ numbered .uuid s.nextUuid (chunks.map fun chunk => (path, chunk))
    nextUuid := s.nextUuid + chunks.length }

/-- The points that the search of `find_affected_chunks` matches. -/
def matching (path : String) (startByte endByte : Nat) : List Point :=
  s.index.filter fun point =>
    point.fileName == path && point.chunk.affected startByte endByte

/-- The search returns all that match, or as many of them as its limit allows. -/
def Finds (path : String) (startByte endByte : Nat) (found : List Point) : Prop :=
  found.Nodup ∧ (∀ point ∈ found, point ∈ s.matching path startByte endByte) ∧
    found.length = min searchLimit (s.matching path startByte endByte).length

instance (path : String) (startByte endByte : Nat) (found : List Point) :
    Decidable (s.Finds path startByte endByte found) :=
  inferInstanceAs (Decidable (_ ∧ _ ∧ _))

/-- Deletion of points by their ids. -/
def deletePoints (ids : List PointId) : State :=
  { s with index := s.index.filter fun point => !ids.contains point.id }

/-- The task of the watcher ends in a panic. -/
def panics : State := { s with alive := false, phase := .idle }

end State

section Step

variable (chunker : String → String → Except String (List Chunk)) (overflowChecks : Bool)

/-- `process_file_event` for one path of an event, up to where the file is read. -/
def take (s : State) (kind : EventKind) (path : String) : State :=
  if isSupported path then
    match kind with
    | .remove => s.removeFileFromIndex path
    | .create =>
      if s.debounced path then s.stamp path else { s.stamp path with phase := .indexing path }
    | .modify =>
      if s.debounced path then s.stamp path else { s.stamp path with phase := .updating path }
  else s

/-- `index_file` reads the file. -/
def index (s : State) (path : String) : State :=
  match s.files path with
  | none => { s with phase := .idle }
  | some content => { s.cache path (some content) with phase := .chunking path }

/-- `update_file_index` up to the deletion of the affected chunks. -/
def update (s : State) (path : String) (found : List Point) : Option State :=
  match s.files path with
  | none => some { s with phase := .idle }
  | some newContent =>
    let oldContent := (s.fileContentCache path).getD ""
    let s := s.cache path (some newContent)
    match calculateChangeRange oldContent newContent with
    | none => some { s with phase := .idle }
    | some (startByte, endByte) =>
      if !sliceable newContent startByte endByte || (overflowChecks && startByte == 0) then
        some s.panics
      else if s.Finds path startByte endByte found then
        some { s.deletePoints (found.filterMap (·.pointId)) with phase := .rechunking path }
      else none

/-- The file is chunked; a file that cannot be is removed and indexed anew when it is updated. -/
def chunk (s : State) : Phase → Option State
  | .chunking path =>
    match chunkFile chunker path (s.files path) with
    | .ok chunks => some { s.addChunks path chunks with phase := .idle }
    | .error _ => some { s with phase := .idle }
  | .rechunking path =>
    match chunkFile chunker path (s.files path) with
    | .ok chunks => some { s.addChunks path chunks with phase := .idle }
    | .error _ => some { s.removeFileFromIndex path with phase := .indexing path }
  | _ => none

def step (s : State) : Action → Option State
  | .tick milliseconds => some { s with now := s.now + milliseconds }
  | .change c => some (s.apply c)
  | .report kind path => some (s.notify [(kind, path)])
  | .take =>
    match s.queue, s.phase with
    | (kind, path) :: queue, .idle =>
      if s.alive then some (take { s with queue } kind path) else none
    | _, _ => none
  | .index =>
    match s.phase with
    | .indexing path => some (index s path)
    | _ => none
  | .update found =>
    match s.phase with
    | .updating path => update overflowChecks s path found
    | _ => none
  | .chunk => chunk chunker s s.phase

/-- The points that `index_codebase` makes of the files there are. -/
def indexCodebase (files : List (String × String)) : List Point :=
  numbered .num 0 ((files.filter fun file => !isIgnored file.1).flatMap fun file =>
    (chunksOf chunker file.1 (some file.2)).map fun chunk => (file.1, chunk))

/-- The ingestion is over, and no event has come yet. -/
def State.start (files : List (String × String)) : State where
  now := 0
  files path := (files.find? fun file => file.1 == path).map (·.2)
  queue := []
  alive := true
  phase := .idle
  debounceMap _ := none
  fileContentCache _ := none
  index := indexCodebase chunker files
  nextUuid := 0
  indexed path := (files.find? fun file => file.1 == path && !isIgnored path).map (·.2)

end Step

end ColossalCode.Semantic
