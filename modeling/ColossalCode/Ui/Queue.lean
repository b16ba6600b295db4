import ColossalCode.Ui.Accounts

/-! The queue of messages, which are handed over in order and with the texts that are wanted. -/
namespace ColossalCode.Ui

open Transition
open Text (startsWith trim)

variable {Stats : Type*} {texts : Texts Stats}

/-- No turn is outstanding, and no orchestration runs instead of one. -/
def State.Idle (s : State Stats) : Prop :=
  s.outstandingTurns = [] ∧ s.app.orchestrationInProgress = false

def Part.early : Part → Bool
  | .interrupt | .rewind | .midStream | .autoSummarize | .sync | .resume | .queued => true
  | .exported | .review | .orchestrated | .compaction | .load => false

/-- In this round queued messages have still to be looked after. -/
def Stage.early : Stage → Bool
  | .keys => false
  | .reading | .events => true
  | .part p => p.early

def State.Scheduled (s : State Stats) : Prop :=
  s.stage.early = true ∧ s.outcome.processQueued = true

/-- Each message that has been queued and not been taken back has been handed over, or waits, in the
order of the queue and with the text that is wanted for it; none waits without a reason. -/
structure Delivered (s : State Stats) : Prop where
  order : s.app.ledger.handed.map Queued.entry ++ s.app.queuedMessages.map Queued.entry =
    (List.range s.app.ledger.wanted.length).filter fun entry => !s.app.ledger.dropped.contains entry
  texts : ∀ queued ∈ s.app.ledger.handed ++ s.app.queuedMessages,
    s.app.ledger.wanted[queued.entry]? = some queued.text
  attended : s.Idle → s.app.queuedMessages ≠ [] → s.app.editingQueueIndex = none →
    s.app.contextSyncPending = false → s.Scheduled

/-- The index still stands for the entry that is edited, or for none when that has been sent. -/
def Fits (a : App Stats) (idx : Nat) : Prop :=
  (a.queuedMessages[idx]?).map Queued.entry =
    a.ledger.editing.filter fun entry => a.queuedMessages.any fun queued => queued.entry = entry

/-- A `Done` after which the queue is looked after. -/
def App.Ordinary (a : App Stats) : Prop :=
  a.agentInterrupted = false ∧ a.isCompacting = false ∧ a.interruptPending = none

/-- The next message can be handed over, and starts a turn unless it is the last one. -/
def App.HandsOver (a : App Stats) : Prop :=
  a.contextSyncPending = false ∧ a.editingQueueIndex ≠ some 0 ∧
    ∀ queued rest, a.queuedMessages = queued :: rest → startsWith (trim queued.text) "/" = true →
      rest = []

def Serves (s : State Stats) : Action Stats → Prop
  | .read _ => ∀ turn channel, s.channel = (turn, .done) :: channel →
      (∀ other ∈ s.outstandingTurns, turn = some other) →
        s.app.orchestrationInProgress = false → s.app.queuedMessages ≠ [] →
          s.outcome.processQueued = true ∨ s.app.Ordinary
  | .orchestrated _ => s.app.orchestrationInProgress = true → s.outstandingTurns = [] →
      s.app.queuedMessages ≠ [] → s.outcome.processQueued = true
  | .part _ => s.stage = .part .queued → s.Idle → s.app.queuedMessages ≠ [] → s.app.HandsOver
  | .key (.submit ..) =>
    (∀ idx, s.app.editingQueueIndex = some idx → s.app.input ≠ "" → Fits s.app idx) ∧
      (s.app.editingQueueIndex = none → s.app.showQueueChoice = true →
        parseQueueChoice s.app.input = some .queue → ¬ s.Idle)
  | .key .ctrlC => ∀ idx, s.app.editingQueueIndex = some idx → Fits s.app idx
  | _ => True

namespace App

variable {a b : App Stats}

theorem desk_showResponse (owner : Option Nat) (text : String) :
    (a.showResponse owner text).desk = a.desk := by
  simp only [showResponse]
  split <;> rfl

/-- An orchestration may be started, but the queue is as before. -/
structure Leaves (a b : App Stats) : Prop where
  queue : b.queuedMessages = a.queuedMessages
  wanted : b.ledger.wanted = a.ledger.wanted
  dropped : b.ledger.dropped = a.ledger.dropped
  handed : b.ledger.handed = a.ledger.handed
  goesOn : a.orchestrationInProgress = true → b.orchestrationInProgress = true

theorem leaves_of_desk (h : b.desk = a.desk) : Leaves a b := by
  simp only [desk, Prod.mk.injEq] at h
  obtain ⟨hqueue, hwanted, hdropped, hhanded, horchestration⟩ := h
  exact ⟨hqueue, hwanted, hdropped, hhanded, horchestration.trans⟩

theorem Leaves.trans {c : App Stats} (h : Leaves a b) (h' : Leaves b c) : Leaves a c :=
  ⟨h'.queue.trans h.queue, h'.wanted.trans h.wanted, h'.dropped.trans h.dropped,
    h'.handed.trans h.handed, fun hgoes => h'.goesOn (h.goesOn hgoes)⟩

theorem desk_finishCompaction : a.finishCompaction.desk = a.desk := by
  simp only [finishCompaction]
  split
  · rfl
  · exact held_createRewindPoint.2

theorem desk_done : (a.done texts).1.desk = a.desk := by
  have hfinish : a.finish.desk = a.desk :=
    (redrawn_flushSummary (a := a.removePlaceholder) true).desk
  simp only [done]
  split
  · exact desk_finishCompaction.trans hfinish
  · split
    all_goals exact (redrawn_ensureGenerationStatsMarker texts).desk.trans hfinish

theorem leaves_handleLive {full : Bool} {owner : Option Nat} (message : AgentMessage Stats) :
    Leaves a (a.handleLive texts full owner message).1 := by
  cases message with
  | thinkingContent => exact leaves_of_desk (redrawn_thinkingContent full).desk
  | thinkingSummary text => exact leaves_of_desk (redrawn_thinkingSummary text).desk
  | agentResponse text =>
    simp only [handleLive, agentResponse]
    split
    · exact leaves_of_desk rfl
    · exact leaves_of_desk ((desk_showResponse owner text).trans
        (redrawn_flushSummary (a := a.removePlaceholder) true).desk)
  | toolCallStarted toolName arguments =>
    exact leaves_of_desk (redrawn_toolStarted toolName arguments).desk
  | toolCallCompleted toolName result =>
    obtain ⟨_, _, hredrawn, hruns⟩ := @redrawn_toolCompleted _ texts a toolName result
    have hleaves := leaves_of_desk hredrawn.desk
    exact ⟨hleaves.queue, hleaves.wanted, hleaves.dropped, hleaves.handed,
      fun hgoes => hleaves.goesOn (hruns hgoes)⟩
  | generationStats stats => exact leaves_of_desk (redrawn_generationStatsArrived stats).desk
  | contextCleared =>
    simp only [handleLive, contextCleared]
    split <;> exact leaves_of_desk rfl
  | requestApproval | error | contextInjected | modelLoaded => exact leaves_of_desk rfl
  | done => exact leaves_of_desk desk_done

/-- Messages of the agent never change the queue. -/
theorem leaves_handle {full : Bool} {owner : Option Nat} (message : AgentMessage Stats) :
    Leaves a (a.handle texts full owner message).1 := by
  simp only [handle]
  split
  · cases message with
    | generationStats stats => exact leaves_of_desk (redrawn_generationStatsArrived stats).desk
    | done => exact leaves_of_desk (redrawn_ensureGenerationStatsMarker (a := { a.removePlaceholder with
        thinkingIndicatorActive := false, thinkingCurrentSummary := none }) texts).desk
    | thinkingContent | thinkingSummary | agentResponse | toolCallStarted | toolCallCompleted
    | requestApproval | error | contextCleared | contextInjected | modelLoaded =>
      exact leaves_of_desk rfl
  · split
    · exact leaves_of_desk rfl
    · exact leaves_handleLive message

theorem desk_submitTyped : a.submitTyped.desk = a.desk := by
  have hsaved := (redrawn_saveToHistory (a := (a.push (.user a.input)).clearInput) a.input).desk
  simp only [desk, push, clearInput] at hsaved
  simp only [submitTyped, startTurn, tell, desk, push, clearInput]
  exact hsaved

theorem desk_maybeSendCompactionResumePrompt : a.maybeSendCompactionResumePrompt.desk = a.desk := by
  simp only [maybeSendCompactionResumePrompt]
  split
  · rfl
  · split <;> rfl

/-- Of the pending actions only one is about the queue. -/
theorem desk_part (texts : Texts Stats) (outcome : Outcome) (found : Found) {part : Part}
    (h : part ≠ .queued) : (a.part texts outcome found part).1.desk = a.desk := by
  refine part_cases (P := fun b => b.desk = a.desk) part rfl ?_ held_createRewindPoint.2 rfl ?_ rfl
    desk_maybeSendCompactionResumePrompt (fun hqueued => absurd hqueued h) rfl ?_ ?_ ?_
  · exact fun message => (held_processInterrupt message).2
  · rw [autoSummarize]
    split <;> rfl
  · simp only [processReview]
    split
    · rfl
    · split <;> rfl
  · intro _
    simp only [startCompaction]
    split <;> rfl
  · simp only [App.part]
    cases found.loaded <;> rfl

end App

end ColossalCode.Ui
