import ColossalCode.Protocol.Spec
import ColossalCode.Pty.Lines
import ColossalCode.Sessionizer.Policy
import ColossalCode.Transition.Run

/-! The file changes that a rewind point records, and the edits that were made. -/
namespace ColossalCode.Ui.FileChanges
open List Option
open Protocol (Value)
open Transition

structure FileChange where
  path : String
  insertions : Nat
  deletions : Nat
  deriving DecidableEq

/-- The JSON parser, and which results are those of a success. -/
structure Texts where
  json : String → Option Value
  succeeded : String → Bool

/-- A call with its own arguments, which its completion does not repeat. -/
structure Call where
  toolName : String
  arguments : String
  result : String

def isWrite (toolName : String) : Bool := ["Write", "write_file"].contains toolName

def isEdit (toolName : String) : Bool := ["Edit", "edit_file"].contains toolName

def strAt (json : Value) (key : String) : Option String := (json.get key).bind Value.asStr

def lineCount (json : Value) (key : String) : Nat :=
  ((strAt json key).map fun text => (Text.lines text.toList).length).getD 0

/-- The change that a call makes to the file at the path. -/
def change (toolName : String) (json : Value) (path : String) : FileChange :=
  if isEdit toolName then
    let oldLines := lineCount json "old_string"
    let newLines := lineCount json "new_string"
    if oldLines < newLines then ⟨path, newLines - oldLines, 0⟩ else ⟨path, 0, oldLines - newLines⟩
  else ⟨path, lineCount json "content", 0⟩

def add (c : FileChange) : List FileChange → List FileChange
  | [] => [c]
  | fc :: changes =>
    if fc.path = c.path then
      { fc with
        insertions := fc.insertions + c.insertions
        deletions := fc.deletions + c.deletions } :: changes
    else fc :: add c changes

variable (texts : Texts)

def trackFileChange (toolName arguments : String) (changes : List FileChange) : List FileChange :=
  if isWrite toolName || isEdit toolName then
    match (texts.json arguments).bind fun json => (strAt json "file_path").map fun filePath =>
      change toolName json ((Sessionizer.fileName filePath).getD filePath) with
    | some c => add c changes
    | none => changes
  else changes

/-- What a call has edited: the tools know the file by `path`. -/
def Call.edited (call : Call) : Option FileChange :=
  if (isWrite call.toolName || isEdit call.toolName) && texts.succeeded call.result then
    (texts.json call.arguments).bind fun json =>
      (strAt json "path").map fun path => change call.toolName json path
  else none

structure State where
  lastToolArgs : Option (String × String)
  /-- That of the outcome of the batch. -/
  pendingFileChange : Option (String × String)
  currentFileChanges : List FileChange
  /-- The edits since the last rewind point. -/
  edits : List FileChange
  /-- The file changes of the rewind points, with the edits between them. -/
  rewindPoints : List (List FileChange × List FileChange)

def new : State := ⟨none, none, [], [], []⟩

inductive Action where
  | toolCallStarted (toolName arguments : String)
  | toolCallCompleted (call : Call)
  /-- A compaction is done. -/
  | compacted
  /-- The end of a batch of messages. -/
  | processPendingActions (createRewind : Bool)

def State.createRewindPoint (s : State) : State :=
  let rewindPoints := s.rewindPoints ++ [(s.currentFileChanges, s.edits)]
  { s with
    rewindPoints := if 50 < rewindPoints.length then rewindPoints.drop 1 else rewindPoints
    currentFileChanges := []
    edits := [] }

/-- The changes as they are when nothing is pending. -/
def State.settled (s : State) : List FileChange :=
  match s.pendingFileChange with
  | some (toolName, arguments) => trackFileChange texts toolName arguments s.currentFileChanges
  | none => s.currentFileChanges

def step (s : State) : Action → Option State
  | .toolCallStarted toolName arguments =>
    some { s with lastToolArgs := some (toolName, arguments) }
  | .toolCallCompleted call =>
    some { s with
      pendingFileChange :=
        match s.lastToolArgs with
        | some (storedTool, storedArgs) =>
          if storedTool = call.toolName then some (call.toolName, storedArgs)
          else s.pendingFileChange
        | none => s.pendingFileChange
      edits := s.edits ++ (call.edited texts).toList }
  | .compacted => some s.createRewindPoint
  | .processPendingActions createRewind =>
    let s := { s with currentFileChanges := s.settled texts, pendingFileChange := none }
    some (if createRewind then s.createRewindPoint else s)

/-- Under the path of a file stands how much was edited there. -/
def total (count : FileChange → Nat) (path : String) : List FileChange → Nat
  | [] => 0
  | c :: edits => (if c.path = path then count c else 0) + total count path edits

structure Accounts (changes edits : List FileChange) : Prop where
  nodup : (changes.map FileChange.path).Nodup
  paths : ∀ path, path ∈ changes.map FileChange.path ↔ path ∈ edits.map FileChange.path
  insertions : ∀ fc ∈ changes, fc.insertions = total FileChange.insertions fc.path edits
  deletions : ∀ fc ∈ changes, fc.deletions = total FileChange.deletions fc.path edits

/-- Every rewind point accounts for the edits before it. -/
def Exact (s : State) : Prop := ∀ point ∈ s.rewindPoints, Accounts point.1 point.2

def Call.argument (call : Call) (key : String) : Option String :=
  (texts.json call.arguments).bind fun json => strAt json key

/-- A write or an edit names its file, a bare name, as `file_path` too, and so only if it succeeds. -/
structure Call.Named (call : Call) : Prop where
  filePath : call.argument texts "file_path" =
    if texts.succeeded call.result then call.argument texts "path" else none
  bare : ∀ path, call.argument texts "path" = some path →
    (Sessionizer.fileName path).getD path = path

/-- A call completes after its own start, and no other is pending. -/
def Tracked (s : State) : Action → Prop
  | .toolCallCompleted call => s.pendingFileChange = none ∧
      s.lastToolArgs = some (call.toolName, call.arguments) ∧
      ((isWrite call.toolName || isEdit call.toolName) = true → call.Named texts)
  | .compacted => s.pendingFileChange = none
  | _ => True

variable {texts} {s t : State} {action : Action} {actions : List Action}
  {changes edits : List FileChange} {c : FileChange}

theorem total_append (count : FileChange → Nat) (path : String) (edits : List FileChange)
    (c : FileChange) : total count path (edits ++ [c]) =
      total count path edits + if c.path = path then count c else 0 := by
  induction edits with
  | nil => simp [total]
  | cons e edits ih =>
    rw [cons_append, total, ih, total]
    omega

theorem total_eq_zero {count : FileChange → Nat} {path : String}
    (h : path ∉ edits.map FileChange.path) : total count path edits = 0 := by
  induction edits with
  | nil => rfl
  | cons e edits ih =>
    rw [map_cons, mem_cons, not_or] at h
    rw [total, if_neg (Ne.symm h.1), ih h.2]

theorem paths_add (c : FileChange) (changes : List FileChange) :
    (add c changes).map FileChange.path =
      if c.path ∈ changes.map FileChange.path then changes.map FileChange.path
      else changes.map FileChange.path ++ [c.path] := by
  induction changes with
  | nil => simp [add]
  | cons fc changes ih =>
    rw [add]
    split
    · simp_all
    · rename_i hne
      simp only [map_cons, ih, mem_cons, Ne.symm hne, false_or]
      split <;> rfl

theorem mem_add {fc : FileChange} (hnodup : (changes.map FileChange.path).Nodup)
    (h : fc ∈ add c changes) : (fc ∈ changes ∧ fc.path ≠ c.path) ∨
      (c.path ∉ changes.map FileChange.path ∧ fc = c) ∨
      ∃ old ∈ changes, old.path = c.path ∧
        fc = ⟨old.path, old.insertions + c.insertions, old.deletions + c.deletions⟩ := by
  induction changes with
  | nil => exact .inr (.inl ⟨by simp, mem_singleton.mp h⟩)
  | cons first changes ih =>
    obtain ⟨hnew, hnodup⟩ := nodup_cons.mp hnodup
    rw [add] at h
    split at h
    · rename_i heq
      rcases mem_cons.mp h with rfl | h
      · exact .inr (.inr ⟨first, mem_cons_self, heq, rfl⟩)
      · exact .inl ⟨mem_cons_of_mem _ h, fun hpath => hnew (heq ▸ hpath ▸ mem_map_of_mem h)⟩
    · rename_i hne
      rcases mem_cons.mp h with rfl | h
      · exact .inl ⟨mem_cons_self, hne⟩
      · rcases ih hnodup h with ⟨hmem, hpath⟩ | ⟨hmem, rfl⟩ | ⟨old, hold, hpath, rfl⟩
        · exact .inl ⟨mem_cons_of_mem _ hmem, hpath⟩
        · exact .inr (.inl ⟨by simpa [Ne.symm hne] using hmem, rfl⟩)
        · exact .inr (.inr ⟨old, mem_cons_of_mem _ hold, hpath, rfl⟩)

theorem Accounts.add (h : Accounts changes edits) (c : FileChange) :
    Accounts (add c changes) (edits ++ [c]) := by
  have hzero (count : FileChange → Nat) (hnew : c.path ∉ changes.map FileChange.path) :
      total count c.path edits = 0 := total_eq_zero fun hmem => hnew ((h.paths _).mpr hmem)
  refine ⟨?_, fun path => ?_, fun fc hfc => ?_, fun fc hfc => ?_⟩
  · rw [paths_add]
    split
    · exact h.nodup
    · rename_i hnew
      refine nodup_append.mpr ⟨h.nodup, by simp, fun path hpath other hother heq => hnew ?_⟩
      rwa [← mem_singleton.mp hother, ← heq]
  · rw [paths_add, map_append, mem_append, ← h.paths]
    split <;> simp_all
  · rw [total_append]
    rcases mem_add h.nodup hfc with ⟨hmem, hpath⟩ | ⟨hnew, rfl⟩ | ⟨old, hold, hpath, rfl⟩
    · rw [if_neg (Ne.symm hpath), h.insertions fc hmem, Nat.add_zero]
    · rw [if_pos rfl, hzero _ hnew, Nat.zero_add]
    · rw [if_pos hpath.symm, ← h.insertions old hold]
  · rw [total_append]
    rcases mem_add h.nodup hfc with ⟨hmem, hpath⟩ | ⟨hnew, rfl⟩ | ⟨old, hold, hpath, rfl⟩
    · rw [if_neg (Ne.symm hpath), h.deletions fc hmem, Nat.add_zero]
    · rw [if_pos rfl, hzero _ hnew, Nat.zero_add]
    · rw [if_pos hpath.symm, ← h.deletions old hold]

theorem accounts_nil : Accounts [] [] := ⟨.nil, by simp, by simp, by simp⟩

/-- A call that is named well is tracked as what it has edited. -/
theorem track_named {call : Call}
    (h : (isWrite call.toolName || isEdit call.toolName) = true → call.Named texts) :
    trackFileChange texts call.toolName call.arguments changes =
      (call.edited texts).elim changes (FileChanges.add · changes) := by
  unfold trackFileChange Call.edited
  by_cases hwrites : (isWrite call.toolName || isEdit call.toolName) = true
  · obtain ⟨hfilePath, hbare⟩ := h hwrites
    unfold Call.argument at hfilePath hbare
    rw [if_pos hwrites, hwrites, Bool.true_and]
    cases hjson : texts.json call.arguments with
    | none => simp
    | some json =>
      simp only [hjson, bind_some] at hfilePath hbare ⊢
      rw [hfilePath]
      cases texts.succeeded call.result with
      | false => simp
      | true =>
        cases hpath : strAt json "path" with
        | none => simp
        | some path => simp [hbare path hpath]
  · simp [hwrites]

structure Kept (texts : Texts) (s : State) : Prop where
  settled : Accounts (s.settled texts) s.edits
  exact : Exact s

theorem kept_createRewindPoint (h : Kept texts s) (hpending : s.pendingFileChange = none) :
    Kept texts s.createRewindPoint := by
  have hsettled : s.settled texts = s.currentFileChanges := by simp [State.settled, hpending]
  refine ⟨by simpa [State.settled, State.createRewindPoint, hpending] using accounts_nil, ?_⟩
  intro point hpoint
  have hmem : point ∈ s.rewindPoints ++ [(s.currentFileChanges, s.edits)] := by
    simp only [State.createRewindPoint] at hpoint
    split at hpoint
    · exact mem_of_mem_drop hpoint
    · exact hpoint
  rcases mem_append.mp hmem with hold | hnew
  · exact h.exact point hold
  · obtain rfl := mem_singleton.mp hnew
    exact hsettled ▸ h.settled

theorem kept_step (hok : Tracked texts s action) (hs : step texts s action = some t)
    (h : Kept texts s) : Kept texts t := by
  cases action with
  | toolCallStarted toolName arguments =>
    obtain rfl := Option.some.inj hs
    exact ⟨h.settled, h.exact⟩
  | toolCallCompleted call =>
    obtain ⟨hpending, hlast, hnamed⟩ := hok
    obtain rfl := Option.some.inj hs
    refine ⟨?_, h.exact⟩
    have hsettled := h.settled
    simp only [State.settled, hpending] at hsettled
    simp only [State.settled, hlast, if_true, track_named hnamed]
    cases call.edited texts with
    | none => simpa using hsettled
    | some c => exact hsettled.add c
  | compacted =>
    obtain rfl := Option.some.inj hs
    exact kept_createRewindPoint h hok
  | processPendingActions createRewind =>
    obtain rfl := Option.some.inj hs
    have hkept : Kept texts
        { s with currentFileChanges := s.settled texts, pendingFileChange := none } :=
      ⟨h.settled, h.exact⟩
    cases createRewind with
    | false => exact hkept
    | true => exact kept_createRewindPoint hkept rfl

def sampleTexts : Texts :=
  ⟨fun _ => some (.object [("path", .string "a"), ("file_path", .string "a")]), fun _ => true⟩

end ColossalCode.Ui.FileChanges
