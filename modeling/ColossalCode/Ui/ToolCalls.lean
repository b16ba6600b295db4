import ColossalCode.Ui.App
import ColossalCode.Transition.Run
import Mathlib.Logic.Function.Basic

/-! The tool calls that the interface shows: rows of the transcript, and a list for each step. -/
namespace ColossalCode.Ui
open Function List Option

open Text (startsWith contains)

variable {Stats : Type*}

/-- What is shown of a row that is about a tool call. -/
inductive ToolRow where
  | started (toolName args : String)
  | completed (toolName args result : String) (rawArguments : Option String)
  deriving DecidableEq

/-- `str::splitn`, for so many parts. -/
def splitn (separator : Char) : Nat → List Char → List (List Char)
  | 0, _ => []
  | 1, chars => [chars]
  | n + 2, chars =>
    match chars.dropWhile (· != separator) with
    | [] => [chars]
    | _ :: rest => chars.takeWhile (· != separator) :: splitn separator (n + 1) rest

/-- `UiMessageEvent::parse` where it reads a completed tool call. -/
def parseToolCallCompleted (message : String) : Option ToolRow :=
  let chars := trimStartMatches "[TOOL_CALL_COMPLETED:".toList message.length message.toList
  let inner := (chars.reverse.dropWhile (· == ']')).reverse
  match (splitn '|' 4 inner).map fun part => unescapeField (String.ofList part) with
  | toolName :: args :: result :: raw => some (.completed toolName args result raw.head?)
  | _ => none

def readToolCall (message : String) : Option ToolRow :=
  if startsWith message "[TOOL_CALL_COMPLETED:" then parseToolCallCompleted message
  else (parseToolCallStarted message).map fun call => .started call.1 call.2

def toolRows (rows : List Row) : List ToolRow := rows.filterMap fun row => readToolCall row.text

def ToolRow.isStarted (toolName : String) : ToolRow → Bool
  | .started tool _ => tool = toolName
  | .completed .. => false

inductive ToolCallStatus where
  | started
  | completed
  | error
  deriving DecidableEq

structure StepToolCallEntry where
  id : Nat
  label : String
  status : ToolCallStatus
  deriving DecidableEq

/-- The current spec only counts for whether there is one. -/
structure StepList where
  currentSpec : Bool
  activeStepPrefix : Option String
  stepLabelOverrides : String → Option String
  stepToolCalls : String → List StepToolCallEntry
  activeToolCall : Option (String × Nat)
  nextToolCallId : Nat

def u64Max : Nat := 18446744073709551615

def isToolErrorResult (result : String) : Bool :=
  startsWith result "Error:" || startsWith result "error:" || startsWith result "Failed:" ||
    startsWith result "failed:" || startsWith result "Permission denied" ||
    startsWith result "No such file" || startsWith result "Command failed" ||
    (decide (result.utf8ByteSize < 500) && contains result "\"error\"") ||
    (decide (result.utf8ByteSize < 500) && contains result "\"is_error\": true") ||
    contains result "status: Failure"

def statusFor (isError : Bool) : ToolCallStatus := if isError then .error else .completed

/-- A planned label is only looked for under a step of a child spec. -/
def toolCallLabel (describeToolCall : String → String → String)
    (stepLabelOverrides : String → Option String) (step toolName arguments : String) : String :=
  (if step.toList.contains '.' then stepLabelOverrides step else none).getD
    (describeToolCall toolName arguments)

/-- The first entry with the number gets the status. -/
def settleEntry (id : Nat) (status : ToolCallStatus) :
    List StepToolCallEntry → List StepToolCallEntry
  | [] => []
  | entry :: entries =>
    if entry.id = id then { entry with status } :: entries
    else entry :: settleEntry id status entries

namespace StepList

variable (describeToolCall : String → String → String)

/-- The step whose list the agent's own calls are put in. -/
def shownStep (l : StepList) : Option String := if l.currentSpec then l.activeStepPrefix else none

def handleToolCallStarted (l : StepList) (step toolName arguments : String) : StepList :=
  { l with
    nextToolCallId := min (l.nextToolCallId + 1) u64Max
    stepToolCalls := update l.stepToolCalls step (l.stepToolCalls step ++
      [⟨l.nextToolCallId,
        toolCallLabel describeToolCall l.stepLabelOverrides step toolName arguments, .started⟩])
    activeToolCall := some (step, l.nextToolCallId) }

def settle (l : StepList) (place : String × Nat) (isError : Bool) : StepList :=
  { l with
    stepToolCalls := update l.stepToolCalls place.1
      (settleEntry place.2 (statusFor isError) (l.stepToolCalls place.1)) }

/-- The active call is given up whatever step has completed one. -/
def handleToolCallCompleted (l : StepList) (step : String) (isError : Bool) : StepList :=
  let taken := { l with activeToolCall := none }
  match l.activeToolCall with
  | some place => if place.1 = step then taken.settle place isError else taken
  | none => taken

/-- The agent's own call is put in the list of the active step, if there is one. -/
def agentToolStarted (l : StepList) (toolName arguments : String) : StepList :=
  match l.shownStep with
  | some step => l.handleToolCallStarted describeToolCall step toolName arguments
  | none => l

/-- The agent's own calls do not say which step they were for. -/
def agentToolCompleted (l : StepList) (result : String) : StepList :=
  let taken := { l with activeToolCall := none }
  match l.activeToolCall with
  | some place => taken.settle place (isToolErrorResult result)
  | none => taken

end StepList

structure View (Stats : Type*) where
  app : App Stats
  list : StepList

/-- The messages of the agent and of the orchestrator; the number of the call is not sent. -/
inductive ToolMessage where
  | toolCallStarted (call : Nat) (toolName arguments : String)
  | toolCallCompleted (call : Nat) (toolName result : String)
  | stepToolCallStarted (call : Nat) (step toolName arguments : String)
  | stepToolCallCompleted (call : Nat) (step toolName result : String) (isError : Bool)

variable (texts : Texts Stats) (describeToolCall : String → String → String)

def View.handle (v : View Stats) : ToolMessage → Option (View Stats)
  | .toolCallStarted _ toolName arguments =>
    some ⟨v.app.toolStarted texts toolName arguments,
      v.list.agentToolStarted describeToolCall toolName arguments⟩
  | .toolCallCompleted _ toolName result =>
    some ⟨v.app.toolCompleted texts toolName result, v.list.agentToolCompleted result⟩
  | .stepToolCallStarted _ step toolName arguments =>
    some ⟨v.app, v.list.handleToolCallStarted describeToolCall step toolName arguments⟩
  | .stepToolCallCompleted _ step _ _ isError =>
    some ⟨v.app, v.list.handleToolCallCompleted step isError⟩

/-- A call of the agent is shown in the transcript; one with a place is shown in the list of a step,
under the number of its entry. The outcome is the result, and whether that is an error. -/
structure Call where
  id : Nat
  ofAgent : Bool
  place : Option (String × Nat)
  toolName : String
  arguments : String
  outcome : Option (String × Bool)
  deriving DecidableEq

def Call.settled (call : Call) (result : String) (isError : Bool) : Call :=
  { call with outcome := some (result, isError) }

def Call.announced (call : Call) (arguments : String) : Call := { call with arguments }

/-- The call with the number is changed. -/
def changeCall (id : Nat) (change : Call → Call) (calls : List Call) : List Call :=
  calls.map fun call => if call.id = id then change call else call

/-- What a message tells of the calls, whatever is shown of it. -/
def noteCalls (calls : List Call) (v : View Stats) : ToolMessage → List Call
  | .toolCallStarted id toolName arguments =>
    if calls.any fun call => call.id == id then
      changeCall id (fun call => call.announced arguments) calls
    else calls ++ [⟨id, true, v.list.shownStep.map fun step => (step, v.list.nextToolCallId),
      toolName, arguments, none⟩]
  | .toolCallCompleted id _ result =>
    changeCall id (fun call => call.settled result (isToolErrorResult result)) calls
  | .stepToolCallStarted id step toolName arguments =>
    if calls.any fun call => call.id == id then
      changeCall id (fun call => call.announced arguments) calls
    else calls ++ [⟨id, false, some (step, v.list.nextToolCallId), toolName, arguments, none⟩]
  | .stepToolCallCompleted id _ _ result isError =>
    changeCall id (fun call => call.settled result isError) calls

/-- A message of a call that has not completed: of a new one if it is a start. -/
def Produced (calls : List Call) : ToolMessage → Prop
  | .toolCallStarted id toolName _ => ∀ call ∈ calls, call.id = id →
      call.ofAgent = true ∧ call.toolName = toolName ∧ call.outcome = none
  | .toolCallCompleted id toolName _ => ∃ call ∈ calls, call.id = id ∧
      call.ofAgent = true ∧ call.toolName = toolName ∧ call.outcome = none
  | .stepToolCallStarted id step toolName _ => ∀ call ∈ calls, call.id = id →
      call.ofAgent = false ∧ call.place.map (·.1) = some step ∧ call.toolName = toolName ∧
        call.outcome = none
  | .stepToolCallCompleted id step toolName _ _ => ∃ call ∈ calls, call.id = id ∧
      call.ofAgent = false ∧ call.place.map (·.1) = some step ∧ call.toolName = toolName ∧
        call.outcome = none

instance decidableProduced (calls : List Call) (m : ToolMessage) : Decidable (Produced calls m) :=
  match m with
  | .toolCallStarted id toolName _ => inferInstanceAs (Decidable (∀ call ∈ calls, call.id = id →
      call.ofAgent = true ∧ call.toolName = toolName ∧ call.outcome = none))
  | .toolCallCompleted id toolName _ => inferInstanceAs (Decidable (∃ call ∈ calls, call.id = id ∧
      call.ofAgent = true ∧ call.toolName = toolName ∧ call.outcome = none))
  | .stepToolCallStarted id step toolName _ => inferInstanceAs (Decidable
      (∀ call ∈ calls, call.id = id → call.ofAgent = false ∧ call.place.map (·.1) = some step ∧
        call.toolName = toolName ∧ call.outcome = none))
  | .stepToolCallCompleted id step toolName _ _ => inferInstanceAs (Decidable
      (∃ call ∈ calls, call.id = id ∧ call.ofAgent = false ∧ call.place.map (·.1) = some step ∧
        call.toolName = toolName ∧ call.outcome = none))

/-- The row of a call, with its own arguments and its own result. -/
def Call.row (call : Call) : ToolRow :=
  let args := texts.formatToolArguments call.toolName call.arguments
  match call.outcome with
  | none => .started call.toolName args
  | some (result, _) => .completed call.toolName args
      (texts.formatToolResult call.toolName result (some call.arguments)) (some call.arguments)

def Call.transcriptRow (call : Call) : Option ToolRow :=
  if call.ofAgent then some (call.row texts) else none

def Call.status (call : Call) : ToolCallStatus :=
  match call.outcome with
  | none => .started
  | some (_, isError) => statusFor isError

/-- The entry of a call in the list of the step, if that is where it is shown. -/
def Call.entry (stepLabelOverrides : String → Option String) (step : String) (call : Call) :
    Option StepToolCallEntry :=
  (call.place.filter fun place => place.1 = step).map fun place =>
    ⟨place.2, toolCallLabel describeToolCall stepLabelOverrides step call.toolName call.arguments,
      call.status⟩

/-- Each call has its one row and its one entry, in the order of the starts and after what was there
before, and none of them has only been started. -/
structure ShowsCalls (before v : View Stats) (calls : List Call) : Prop where
  rows : toolRows v.app.rows =
    toolRows before.app.rows ++ calls.filterMap (Call.transcriptRow texts)
  entries : ∀ step, v.list.stepToolCalls step = before.list.stepToolCalls step ++
    calls.filterMap (Call.entry describeToolCall v.list.stepLabelOverrides step)
  settled : ∀ call ∈ calls, call.status ≠ .started ∧
    ∀ tool, (call.row texts).isStarted tool = false

variable {texts} {describeToolCall} {rows : List Row} {a : App Stats}
  {message : String} {reads : String → Option String}

theorem not_startsWith_both {start other : String} (h : startsWith message start = true)
    (hlength : start.toList.length ≤ other.toList.length)
    (hdiffer : ¬ start.toList <+: other.toList) : startsWith message other = false := by
  rw [Bool.eq_false_iff]
  intro hother
  exact hdiffer (prefix_of_prefix_length_le (List.isPrefixOf_iff_prefix.mp h)
    (List.isPrefixOf_iff_prefix.mp hother) hlength)

theorem readToolCall_started {toolName args : String} :
    readToolCall message = some (.started toolName args) ↔
      parseToolCallStarted message = some (toolName, args) := by
  unfold readToolCall
  split
  · rename_i hcompleted
    have hnone : parseToolCallStarted message = none := by
      have hnot : startsWith message "[TOOL_CALL_STARTED:" = false := by
        rw [Bool.eq_false_iff]
        intro hstarted
        have hlater := not_startsWith_both hstarted
          (show _ ≤ "[TOOL_CALL_COMPLETED:".toList.length by decide) (by decide)
        simp [hlater] at hcompleted
      simp [parseToolCallStarted, hnot]
    constructor
    · intro h
      unfold parseToolCallCompleted at h
      dsimp only at h
      split at h <;> cases h
    · intro h
      simp [hnone] at h
  · simp

theorem readToolCall_none (hc : startsWith message "[TOOL_CALL_COMPLETED:" = false)
    (hs : startsWith message "[TOOL_CALL_STARTED:" = false) : readToolCall message = none := by
  simp [readToolCall, parseToolCallStarted, hc, hs]

@[simp] theorem toolRows_append (rows more : List Row) :
    toolRows (rows ++ more) = toolRows rows ++ toolRows more :=
  filterMap_append

@[simp] theorem toolRows_placeholder : toolRows [placeholder] = [] := by decide

theorem toolRows_removePlaceholder (rows : List Row) :
    toolRows (removeThinkingAnimationPlaceholder rows) = toolRows rows := by
  have herase (rows : List Row) : toolRows (rows.eraseP Row.isPlaceholder) = toolRows rows := by
    induction rows with
    | nil => rfl
    | cons row rows ih =>
      by_cases hrow : row.isPlaceholder = true
      · have htext : row.text = thinkingAnimation := by simpa [Row.isPlaceholder] using hrow
        have hnone : readToolCall row.text = none := by
          rw [htext]
          decide
        simp [toolRows, hrow, hnone]
      · simp only [toolRows, eraseP_cons_of_neg hrow, filterMap_cons] at ih ⊢
        rw [ih]
  have h := congrArg List.reverse (herase rows.reverse)
  simpa [toolRows, removeThinkingAnimationPlaceholder, removeLast, filterMap_reverse] using h

theorem toolRows_ensurePlaceholder (rows : List Row) (active : Bool) :
    toolRows (ensureThinkingAnimationPlaceholder rows active) = toolRows rows := by
  unfold ensureThinkingAnimationPlaceholder
  split <;> simp

theorem readToolCall_treeLine (summary : String) (isFinal : Bool) :
    readToolCall (formatThinkingTreeLine summary isFinal) = none := by
  apply readToolCall_none <;> cases isFinal <;>
    simp [startsWith, formatThinkingTreeLine, String.toList_append, List.isPrefixOf]

theorem toolRows_flushSummary (a : App Stats) (isFinal : Bool) :
    toolRows (a.flushSummary isFinal).rows = toolRows a.rows := by
  unfold App.flushSummary
  split
  · simp [App.push, toolRows, Row.agent, readToolCall_treeLine]
  · rfl

theorem toolRows_cons (row : Row) (rows : List Row) :
    toolRows (row :: rows) = (readToolCall row.text).toList ++ toolRows rows := by
  simp only [toolRows, filterMap_cons]
  cases readToolCall row.text <;> rfl

theorem any_reads {wanted : ToolRow → Bool}
    (hreads : ∀ row ∈ rows, (reads row.text).isSome = (readToolCall row.text).any wanted) :
    rows.any (fun row => (reads row.text).isSome) = (toolRows rows).any wanted := by
  induction rows with
  | nil => rfl
  | cons row rows ih =>
    rw [any_cons, hreads row mem_cons_self,
      ih fun row hrow => hreads row (mem_cons_of_mem _ hrow), toolRows_cons, any_append]
    cases readToolCall row.text <;> simp

/-- The last row about a started call of the kind gives way to the new row. -/
theorem toolRows_rewriteLast (wanted : ToolRow → Bool) {x x' : ToolRow} {front back : List ToolRow}
    (hreads : ∀ row ∈ rows, (reads row.text).isSome = (readToolCall row.text).any wanted)
    (hnew : ∀ row ∈ rows, ∀ new, readToolCall row.text = some x → reads row.text = some new →
      readToolCall new = some x')
    (hx : wanted x = true) (hback : ∀ y ∈ back, wanted y = false)
    (h : toolRows rows = front ++ x :: back) :
    toolRows (rewriteLast reads rows) = front ++ x' :: back := by
  induction rows generalizing front with
  | nil => simp [toolRows] at h
  | cons row rows ih =>
    have hlaterReads := fun row hrow => hreads row (mem_cons_of_mem _ hrow)
    have hrest (front : List ToolRow) (h : toolRows rows = front ++ x :: back) :=
      ih hlaterReads (fun row hrow => hnew row (mem_cons_of_mem _ hrow)) h
    rw [toolRows_cons] at h
    unfold rewriteLast
    rw [any_reads hlaterReads]
    split
    · -- a later row is rewritten, so this one is not the one sought
      rename_i hlater
      rw [toolRows_cons]
      cases hread : readToolCall row.text with
      | none => simpa using hrest front (by simpa [hread] using h)
      | some y =>
        rw [hread] at h
        cases front with
        | nil =>
          obtain ⟨-, hrows⟩ := List.cons.inj h
          rw [show toolRows rows = back from hrows] at hlater
          obtain ⟨z, hz, hwanted⟩ := any_eq_true.mp hlater
          rw [hback z hz] at hwanted
          cases hwanted
        | cons z front =>
          obtain ⟨rfl, hrows⟩ := List.cons.inj h
          simpa using hrest front hrows
    · -- no later row is sought, so this is the one
      rename_i hlater
      have hnone : ∀ y ∈ toolRows rows, wanted y = false := by
        intro y hy
        by_contra hne
        exact hlater (any_eq_true.mpr ⟨y, hy, by simpa using hne⟩)
      have hread : readToolCall row.text = some x ∧ front = [] ∧ toolRows rows = back := by
        cases hread : readToolCall row.text with
        | none =>
          rw [hread] at h
          have hmem : x ∈ toolRows rows := by
            rw [show toolRows rows = front ++ x :: back by simpa using h]
            simp
          simp [hnone x hmem] at hx
        | some y =>
          rw [hread] at h
          cases front with
          | nil =>
            obtain ⟨rfl, hrows⟩ := List.cons.inj h
            exact ⟨rfl, rfl, hrows⟩
          | cons z front =>
            obtain ⟨-, hrows⟩ := List.cons.inj h
            have hmem : x ∈ toolRows rows := by
              rw [show toolRows rows = front ++ x :: back from hrows]
              simp
            simp [hnone x hmem] at hx
      obtain ⟨hread, rfl, hrows⟩ := hread
      have hsome := hreads row mem_cons_self
      rw [hread, any_some, hx] at hsome
      obtain ⟨new, hnewText⟩ := isSome_iff_exists.mp hsome
      have hlast := hnew row mem_cons_self new hread hnewText
      have hrewritten : ((reads row.text).elim row row.rewrite).text = new := by
        simp only [hnewText, elim_some, Row.rewrite]
        split
        · rename_i hsame
          exact hsame.symm
        · rfl
      rw [toolRows_cons, hrewritten, hlast, hrows]
      rfl

end ColossalCode.Ui
