import ColossalCode.A2A.Execution
import Mathlib.Data.List.TakeWhile

/-! The text that is left of a step or a task, and what its model has said in its final turn. -/
namespace ColossalCode.A2A
open List Option Orchestrator Text

open Protocol
open Orchestrator (AgentMessage Arrival Collected handleAgentMessage collect)

/-- The chunks of text in the messages of an agent, and those of them that come after the last tool
call. -/
structure Said where
  chunks : List String
  finalTurn : List String
  deriving DecidableEq

def Said.hear (said : Said) : AgentMessage → Said
  | .agentResponse content => ⟨said.chunks ++ [content], said.finalTurn ++ [content]⟩
  | .toolCallCompleted _ _ => { said with finalTurn := [] }
  | _ => said

def said (messages : List AgentMessage) : Said := messages.foldl Said.hear ⟨[], []⟩

def Said.last (s : Said) : String := s.chunks.getLast?.getD ""

def Said.text (s : Said) : String := String.join s.finalTurn

/-- The last chunk of the final turn is all of its text. -/
def Said.Whole (s : Said) : Prop := s.finalTurn ≠ [] ∧ ∀ chunk ∈ s.finalTurn.dropLast, chunk = ""

theorem foldl_hear_suffix {s : Said} (h : s.finalTurn <:+ s.chunks) (messages : List AgentMessage) :
    (messages.foldl Said.hear s).finalTurn <:+ (messages.foldl Said.hear s).chunks := by
  induction messages generalizing s with
  | nil => exact h
  | cons message messages ih =>
    apply ih
    cases message with
    | agentResponse content =>
      obtain ⟨before, hbefore⟩ := h
      exact ⟨before, by rw [Said.hear, ← append_assoc, hbefore]⟩
    | toolCallCompleted name result => exact nil_suffix
    | _ => exact h

theorem said_suffix (messages : List AgentMessage) :
    (said messages).finalTurn <:+ (said messages).chunks :=
  foldl_hear_suffix (suffix_refl []) messages

theorem join_eq_empty_iff (chunks : List String) :
    String.join chunks = "" ↔ ∀ chunk ∈ chunks, chunk = "" := by
  induction chunks with
  | nil => simp
  | cons chunk chunks ih =>
    rw [String.join_cons, forall_mem_cons, ← ih, String.append_eq_empty_iff]

theorem last_of_turn {s : Said} (h : s.finalTurn <:+ s.chunks) {init : List String} {chunk : String}
    (hturn : s.finalTurn = init ++ [chunk]) : s.last = chunk := by
  obtain ⟨before, hbefore⟩ := h
  rw [Said.last, ← hbefore, hturn, ← append_assoc, List.getLast?_concat]
  rfl

/-- The last chunk is the text of the final turn where it is all of it, or where both are empty. -/
theorem last_eq_text_iff {s : Said} (h : s.finalTurn <:+ s.chunks) :
    s.last = s.text ↔ s.Whole ∨ s.finalTurn = [] ∧ s.last = "" := by
  rcases eq_nil_or_concat s.finalTurn with hnil | ⟨init, chunk, hturn⟩
  · rw [Said.text, Said.Whole, hnil]
    simp
  · rw [concat_eq_append] at hturn
    rw [last_of_turn h hturn, Said.text, Said.Whole, hturn, String.join_append,
      dropLast_concat, ← join_eq_empty_iff]
    have hone : String.join [chunk] = chunk := by rw [String.join_cons, String.join_nil]; simp
    rw [hone]
    constructor
    · intro heq
      refine .inl ⟨by simp, ?_⟩
      have hlength := congrArg String.length heq
      rw [String.length_append] at hlength
      exact String.length_eq_zero_iff.mp (by omega)
    · rintro (⟨-, hempty⟩ | ⟨hnil, -⟩)
      · rw [hempty, String.empty_append]
      · simp at hnil

/-- Whether the loop of `execute_step` ends with a message. -/
def endsStep : AgentMessage → Bool
  | .error _ => true
  | .done => true
  | _ => false

/-- The messages that the loop of `execute_step` handles. -/
def heardByStep : List Arrival → List AgentMessage
  | [] => []
  | .message agentMsg :: rest => agentMsg :: if endsStep agentMsg then [] else heardByStep rest
  | .messagesClosed :: _ => []
  | .signal :: rest => heardByStep rest
  | .cancelClosed :: rest => heardByStep rest

/-- Whether the loop of `execute_task` ends with a message. -/
def endsTask : AgentMessage → Bool
  | .toolCallCompleted name _ => name = "request_split"
  | message => endsStep message

/-- The messages that the loop of `execute_task` reads. -/
def heardByTask : List AgentMessage → List AgentMessage
  | [] => []
  | agentMsg :: rest => agentMsg :: if endsTask agentMsg then [] else heardByTask rest

section Loops

variable {stepPrefix : String} {listening requested cancelled : Bool} {c d : Collected}
  {arrivals : List Arrival} {s : Said}

theorem hear_last (s : Said) (message : AgentMessage) : (s.hear message).last =
    match message with
    | .agentResponse content => content
    | _ => s.last := by
  cases message with
  | agentResponse content => simp [Said.hear, Said.last]
  | _ => rfl

theorem handleAgentMessage_latest (stepPrefix : String) (message : AgentMessage)
    (h : c.latestResponse = s.last) :
    (handleAgentMessage stepPrefix c message).1.latestResponse = (s.hear message).last ∧
      (handleAgentMessage stepPrefix c message).2 = endsStep message := by
  rw [hear_last]
  cases message <;> exact ⟨by first | exact h | rfl, rfl⟩

theorem collect_latest (h : c.latestResponse = s.last)
    (hcollect : collect stepPrefix listening requested c arrivals = some (d, cancelled)) :
    d.latestResponse = ((heardByStep arrivals).foldl Said.hear s).last := by
  induction arrivals generalizing c s listening requested with
  | nil => cases hcollect
  | cons arrival arrivals ih =>
    cases arrival with
    | message agentMsg =>
      obtain ⟨hlatest, hlast⟩ := handleAgentMessage_latest stepPrefix agentMsg h
      rw [collect] at hcollect
      dsimp only at hcollect
      rw [hlast] at hcollect
      rw [heardByStep, foldl_cons]
      by_cases hends : endsStep agentMsg = true
      · rw [if_pos hends] at hcollect ⊢
        cases hcollect
        exact hlatest
      · rw [if_neg hends] at hcollect ⊢
        exact ih hlatest hcollect
    | messagesClosed =>
      cases hcollect
      exact h
    | signal =>
      rw [collect] at hcollect
      split at hcollect
      · exact ih h hcollect
      · exact ih h hcollect
    | cancelClosed => exact ih h hcollect

variable {agent : Agent} {r : Reading}

theorem readMessage_latest (agent : Agent) (message : AgentMessage)
    (h : r.latestResponse = s.last) :
    (readMessage agent r message).1.latestResponse = (s.hear message).last ∧
      (readMessage agent r message).2 = endsTask message := by
  rw [hear_last]
  cases message with
  | toolCallCompleted name result =>
    rw [readMessage, endsTask]
    dsimp only
    split
    · rename_i hsplit
      exact ⟨h, by simp [hsplit]⟩
    · rename_i hsplit
      exact ⟨h, by simp [hsplit]⟩
  | _ => exact ⟨by first | exact h | rfl, rfl⟩

theorem readMessages_latest (h : r.latestResponse = s.last) (messages : List AgentMessage) :
    (readMessages agent r messages).latestResponse =
      ((heardByTask messages).foldl Said.hear s).last := by
  induction messages generalizing r s with
  | nil => exact h
  | cons message messages ih =>
    obtain ⟨hlatest, hlast⟩ := readMessage_latest agent message h
    rw [readMessages]
    dsimp only
    rw [hlast, heardByTask, foldl_cons]
    by_cases hends : endsTask message = true
    · rw [if_pos hends, if_pos hends]
      exact hlatest
    · rw [if_neg hends, if_neg hends]
      exact ih hlatest

end Loops

section Steps

variable {rt : Runtime} {x : Execution} {step : SpecStep} {spec : SpecSheet}
  {stepPrefix : String} {listening : Bool} {events : List OrchestratorEvent}
  {task : Task}

/-- The text of a step whose model has said nothing last. -/
def fallbackText (step : SpecStep) : String := s!"Step {step.index} completed: {step.title}"

def stepText (step : SpecStep) (latestResponse : String) : String :=
  if latestResponse = "" then fallbackText step else latestResponse

/-- The summary of a step that is completed has the text of the latest response. -/
theorem step_summary (h : x.executeStep rt step spec stepPrefix listening = some (events, .ok task))
    (hcompleted : task.status.state = .completed) :
    ∃ summary value, rt.valueOfSummary summary = .ok value ∧
      task.metadata.bind (·.summary) = some value ∧
      summary.summaryText = stepText step (said (heardByStep x.arrivals)).last := by
  obtain ⟨⟨c, wasCancelled⟩, hcollect, hx⟩ := map_eq_some_iff.mp h
  have hlatest : c.latestResponse = (said (heardByStep x.arrivals)).last :=
    collect_latest rfl hcollect
  simp only [Prod.mk.injEq] at hx
  obtain ⟨-, hx⟩ := hx
  unfold Execution.finish at hx
  cases wasCancelled with
  | true =>
    obtain rfl : _ = task := by simpa using hx
    cases hcompleted
  | false =>
    simp only [Bool.false_eq_true, if_false] at hx
    split at hx
    · obtain rfl := Except.ok.inj hx
      cases hcompleted
    · split at hx
      · simp at hx
      · rename_i value hvalue
        obtain rfl := Except.ok.inj hx
        refine ⟨_, value, hvalue, rfl, ?_⟩
        rw [stepText, ← hlatest]
        simp [String.isEmpty_iff, fallbackText]

/-- The text is the final turn's where the last chunk is all of it, or where the last chunk is empty
and the text is that of the fallback. -/
def StepWhole (step : SpecStep) (s : Said) : Prop :=
  if s.last = "" then s.text = fallbackText step else s.Whole

theorem stepText_eq_iff {s : Said} (h : s.finalTurn <:+ s.chunks) :
    stepText step s.last = s.text ↔ StepWhole step s := by
  rw [stepText, StepWhole]
  split
  · exact eq_comm
  · rename_i hlast
    rw [last_eq_text_iff h]
    simp [hlast]

end Steps

def sentMessage : Effect → Option String
  | .send (.message content) => some content
  | _ => none

/-- The messages that an execution sends once the agent is done. It pushes the same onto the messages
of its task. -/
def replies : List Effect → List String
  | [] => []
  | .processed :: effects => effects.filterMap sentMessage
  | _ :: effects => replies effects

/-- The messages of a text: one, unless it is blank. -/
def messagesOf (text : String) : List String := if (trim text).isEmpty then [] else [text]

section Tasks

variable {rt : Runtime} {agent : Agent} {id : String} {step : SpecStep} {spec : SpecSheet}
  {effects : List Effect} {task : Task} {r : Reading}

theorem readMessage_unprocessed (agent : Agent) (r : Reading) (message : AgentMessage)
    (h : ∀ later, replies (r.effects ++ later) = replies later) (later : List Effect) :
    replies ((readMessage agent r message).1.effects ++ later) = replies later := by
  cases message with
  | agentResponse content =>
    rw [readMessage]
    dsimp only
    rw [append_assoc, h]
    rfl
  | toolCallCompleted name result =>
    rw [readMessage]
    dsimp only
    split
    · dsimp only
      rw [append_assoc, h]
      rfl
    · exact h later
  | _ => exact h later

theorem readMessages_unprocessed (r : Reading) (messages : List AgentMessage)
    (h : ∀ later, replies (r.effects ++ later) = replies later) (later : List Effect) :
    replies ((readMessages agent r messages).effects ++ later) = replies later := by
  induction messages generalizing r with
  | nil => exact h later
  | cons message messages ih =>
    have hone := readMessage_unprocessed agent r message h
    rw [readMessages]
    dsimp only
    split
    · exact hone later
    · exact ih _ hone

theorem handleSplitTask_submitted {before : List Effect} {start : Task} {reason : Option String}
    (h : handleSplitTask rt agent before start step spec reason = (effects, .ok task)) :
    task.status.state = .submitted := by
  unfold handleSplitTask at h
  split at h
  · cases h
  · dsimp only at h
    split at h
    · cases h
    · cases h
    · cases h
      rfl

/-- The text that a completed task is left with is that of the latest response. -/
theorem task_replies (h : executeTask rt agent id step spec = (effects, .ok task))
    (hcompleted : task.status.state = .completed) :
    replies effects = messagesOf (said (heardByTask agent.messages)).last := by
  have hlatest : (readMessages agent .init agent.messages).latestResponse =
      (said (heardByTask agent.messages)).last := readMessages_latest rfl agent.messages
  have hunprocessed : ∀ later, replies ((readMessages agent .init agent.messages).effects ++ later) =
      replies later := readMessages_unprocessed .init agent.messages fun _ => rfl
  unfold executeTask at h
  dsimp only at h
  split at h
  · rw [handleSplitTask_submitted h] at hcompleted
    cases hcompleted
  · split at h
    · rw [handleSplitTask_submitted h] at hcompleted
      cases hcompleted
    · cases h
    · unfold completeTask at h
      dsimp only at h
      split at h
      · cases h
      · cases h
        rw [← hlatest, messagesOf]
        simp only [append_assoc, cons_append, nil_append, replies, hunprocessed]
        split <;> rfl

theorem trim_eq_empty_iff (text : String) :
    (trim text).isEmpty = true ↔ ∀ c ∈ text.toList, isWhitespace c = true := by
  rw [trim, trimEnd, trimStart, String.isEmpty_iff, ← String.toList_inj]
  simp only [String.toList_ofList, String.toList_empty, reverse_eq_nil_iff,
    dropWhile_eq_nil_iff, mem_reverse]
  constructor
  · intro h
    have hall : ∀ c ∈ text.toList.dropWhile isWhitespace, isWhitespace c = true := h
    have hnil : text.toList.dropWhile isWhitespace = [] := by
      by_contra hne
      have hhead := head_dropWhile_not isWhitespace hne
      rw [hall _ (head_mem hne)] at hhead
      cases hhead
    exact dropWhile_eq_nil_iff.mp hnil
  · intro h c hc
    exact h c ((dropWhile_sublist isWhitespace).subset hc)

def Blank (text : String) : Prop := ∀ c ∈ text.toList, isWhitespace c = true

theorem blank_text_iff (s : Said) : Blank s.text ↔ ∀ chunk ∈ s.finalTurn, Blank chunk := by
  simp only [Blank, Said.text, String.toList_join, mem_flatMap]
  constructor
  · intro h chunk hchunk c hc
    exact h c ⟨chunk, hchunk, hc⟩
  · rintro h c ⟨chunk, hchunk, hc⟩
    exact h chunk hchunk c hc

/-- The messages are those of the final turn's text where the last chunk is all of it, or where both
are blank. -/
def TaskWhole (s : Said) : Prop :=
  s.Whole ∨ Blank s.last ∧ ∀ chunk ∈ s.finalTurn, Blank chunk

theorem messagesOf_eq_iff {s : Said} (h : s.finalTurn <:+ s.chunks) :
    messagesOf s.last = messagesOf s.text ↔ TaskWhole s := by
  have hlast := last_eq_text_iff h
  rw [TaskWhole, ← blank_text_iff, messagesOf, messagesOf, Blank, Blank, ← trim_eq_empty_iff,
    ← trim_eq_empty_iff]
  by_cases hl : (trim s.last).isEmpty = true
  · by_cases ht : (trim s.text).isEmpty = true
    · rw [if_pos hl, if_pos ht]
      exact iff_of_true rfl (.inr ⟨hl, ht⟩)
    · rw [if_pos hl, if_neg ht]
      refine iff_of_false (by simp) ?_
      rintro (hwhole | ⟨-, hblank⟩)
      · rw [hlast.mpr (.inl hwhole)] at hl
        exact ht hl
      · exact ht hblank
  · have hempty : s.last ≠ "" := by
      intro hempty
      rw [hempty] at hl
      exact hl (by decide)
    rw [if_neg hl]
    simp only [hempty, and_false, or_false] at hlast
    rw [← hlast]
    by_cases ht : (trim s.text).isEmpty = true
    · rw [if_pos ht]
      refine iff_of_false (by simp) ?_
      rintro (heq | ⟨hblank, -⟩)
      · rw [heq] at hl
        exact hl ht
      · exact hl hblank
    · rw [if_neg ht]
      simp [hl]

end Tasks

/-- The text of a completed step is that of its final turn just where `StepWhole` holds of what its
model said, and the message of a completed task just where `TaskWhole` does. -/
theorem texts_complete_iff {rt : Runtime}
    (hread : ∀ summary value read, rt.valueOfSummary summary = .ok value →
      rt.summaryOfValue value = some read → read.summaryText = summary.summaryText) :
    (∀ (x : Execution) (step : SpecStep) (spec : SpecSheet) (stepPrefix : String)
        (listening : Bool) (events : List OrchestratorEvent) (task : Task)
        (summary : TaskSummary),
      x.executeStep rt step spec stepPrefix listening = some (events, .ok task) →
      task.status.state = .completed → extractSummary rt task = .ok summary →
      (summary.summaryText = (said (heardByStep x.arrivals)).text ↔
        StepWhole step (said (heardByStep x.arrivals)))) ∧
    ∀ (agent : Agent) (id : String) (step : SpecStep) (spec : SpecSheet) (effects : List Effect)
        (task : Task),
      executeTask rt agent id step spec = (effects, .ok task) → task.status.state = .completed →
      (replies effects = messagesOf (said (heardByTask agent.messages)).text ↔
        TaskWhole (said (heardByTask agent.messages))) := by
  constructor
  · intro x step spec stepPrefix listening events task summary h hcompleted hextract
    obtain ⟨written, value, hvalue, hmetadata, htext⟩ := step_summary h hcompleted
    obtain ⟨metadata, htask, hsummary⟩ := bind_eq_some_iff.mp hmetadata
    rw [extractSummary, htask] at hextract
    dsimp only at hextract
    rw [hsummary] at hextract
    dsimp only at hextract
    split at hextract
    · cases hextract
    · rename_i read hreads
      cases hextract
      rw [hread written value _ hvalue hreads, htext]
      exact stepText_eq_iff (said_suffix _)
  · intro agent id step spec effects task h hcompleted
    rw [task_replies h hcompleted]
    exact messagesOf_eq_iff (said_suffix _)

/-- A model says "Hello." in two chunks. -/
def twoChunks : List AgentMessage := [.agentResponse "Hel", .agentResponse "lo.", .done]

def twoChunksStep : Execution :=
  ⟨none, "task-1", "task-2", twoChunks.map .message, .ok ()⟩

def twoChunksAgent : Agent where
  messages := twoChunks
  processed := .ok ()
  extractSplitReason _ := none
  requestSplit _ := .error "no split"
  valueOfSpec _ := .error "no spec"
  synthesizeSplitSummary _ _ _ := ⟨"", "", "", [], [], ⟨.pending, []⟩, none⟩
  collectSummary _ := ⟨"task-1", "1", "done", [], [], ⟨.pending, []⟩, none⟩

theorem sampleRuntime_reads (summary : TaskSummary) (value : Value) (read : TaskSummary)
    (hvalue : sampleRuntime.valueOfSummary summary = .ok value)
    (hread : sampleRuntime.summaryOfValue value = some read) :
    read.summaryText = summary.summaryText := by
  cases hvalue
  cases hread
  rfl

theorem texts_complete_iff_sample :
    ("lo." = (said (heardByStep twoChunksStep.arrivals)).text ↔
      StepWhole (sampleStep "1") (said (heardByStep twoChunksStep.arrivals))) ∧
    (["lo."] = messagesOf (said (heardByTask twoChunksAgent.messages)).text ↔
      TaskWhole (said (heardByTask twoChunksAgent.messages))) :=
  ⟨(texts_complete_iff sampleRuntime_reads).1 twoChunksStep (sampleStep "1")
      (sampleSheet "root" [sampleStep "1"]) "" false _ _
      ⟨"task-1", "1", "lo.", [], [], ⟨.pending, []⟩, none⟩ rfl rfl rfl,
    (texts_complete_iff sampleRuntime_reads).2 twoChunksAgent "task-1"
      (sampleStep "1")
      (sampleSheet "root" [sampleStep "1"]) _ _ rfl rfl⟩

/-- Of an answer in two chunks only the second one is left. -/
theorem first_chunk_lost : ¬ ∀ (x : Execution) (step : SpecStep) (spec : SpecSheet)
    (events : List OrchestratorEvent) (task : Task) (summary : TaskSummary),
    x.executeStep sampleRuntime step spec "" false = some (events, .ok task) →
    task.status.state = .completed →
    extractSummary sampleRuntime task = .ok summary →
    summary.summaryText = (said (heardByStep x.arrivals)).text := by
  intro hall
  have htext := hall twoChunksStep (sampleStep "1")
    (sampleSheet "root" [sampleStep "1"]) _ _
    ⟨"task-1", "1", "lo.", [], [], ⟨.pending, []⟩, none⟩ rfl rfl rfl
  revert htext
  decide

end ColossalCode.A2A
