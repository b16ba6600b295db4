import ColossalCode.Ui.System

/-! The turns that have been started, and their messages on the channel. -/
namespace ColossalCode.Ui
open List Option

open Transition

variable {Stats : Type*} {texts : Texts Stats} {s t : State Stats} {action : Action Stats}

def Told.isInput : Told → Bool
  | .userInput _ => true
  | _ => false

namespace App

variable {a b : App Stats}

theorem turns_eq : a.turns = (a.told.filter Told.isInput).length := by
  have hsame : (fun told : Told => match told with
      | .userInput _ => true
      | _ => false) = Told.isInput := by
    funext told
    cases told <;> rfl
  exact congrArg (fun p => (a.told.filter p).length) hsame

theorem turns_congr (h : b.told = a.told) : b.turns = a.turns := by
  rw [turns_eq, turns_eq, h]

theorem turns_tell (message : Told) :
    (a.tell message).turns = a.turns + if message.isInput then 1 else 0 := by
  rw [turns_eq, turns_eq, tell]
  dsimp only
  rw [filter_append, length_append]
  cases message <;> rfl

theorem turns_startTurn (message : String) : (a.startTurn message).turns = a.turns + 1 :=
  turns_tell (a := a.push placeholder) (.userInput message)

/-- All but the rows, what they are made of, and what is being typed. -/
def kept (a : App Stats) : App Stats :=
  { a with
    rows := []
    thinkingIndicatorActive := false
    thinkingCurrentSummary := none
    lastToolArgs := none
    generationStats := none
    generationStatsRendered := false
    editingQueueIndex := none
    historyIndex := none
    tempInput := none
    input := ""
    commandHistory := []
    ledger := { a.ledger with editing := none } }

/-- Only these differ. -/
def Redrawn (a b : App Stats) : Prop := b.kept = a.kept

theorem Redrawn.told (h : Redrawn a b) : b.told = a.told := (congrArg App.told h :)

theorem Redrawn.isCompacting (h : Redrawn a b) : b.isCompacting = a.isCompacting :=
  (congrArg App.isCompacting h :)

theorem Redrawn.rewindPoints (h : Redrawn a b) : b.rewindPoints = a.rewindPoints :=
  (congrArg App.rewindPoints h :)

theorem redrawn_flushSummary (isFinal : Bool) : Redrawn a (a.flushSummary isFinal) := by
  simp only [flushSummary]
  split <;> exact rfl

theorem redrawn_ensureGenerationStatsMarker (texts : Texts Stats) :
    Redrawn a (a.ensureGenerationStatsMarker texts) := by
  simp only [ensureGenerationStatsMarker]
  split
  · exact rfl
  · split
    · exact rfl
    · split <;> exact rfl

theorem redrawn_generationStatsArrived (stats : Stats) :
    Redrawn a (a.generationStatsArrived texts stats) := by
  simp only [generationStatsArrived]
  split
  · exact redrawn_ensureGenerationStatsMarker texts
  · exact rfl

theorem redrawn_showToolCallStarted (toolName formattedArgs : String) :
    Redrawn a (a.showToolCallStarted toolName formattedArgs) := by
  simp only [showToolCallStarted]
  split <;> exact rfl

theorem redrawn_showToolCallCompleted (toolName result : String) :
    Redrawn a (a.showToolCallCompleted texts toolName result) := by
  simp only [showToolCallCompleted]
  split <;> exact rfl

theorem redrawn_toolStarted (toolName arguments : String) :
    Redrawn a (a.toolStarted texts toolName arguments) :=
  Eq.trans (redrawn_showToolCallStarted (a := { a.removePlaceholder.flushSummary false with
    lastToolArgs := some (toolName, arguments) }) toolName _)
    (redrawn_flushSummary (a := a.removePlaceholder) false)

theorem redrawn_thinkingContent (full : Bool) : Redrawn a (a.thinkingContent full).1 := by
  simp only [thinkingContent]
  split
  · exact rfl
  · split <;> exact rfl

theorem redrawn_thinkingSummary (text : String) : Redrawn a (a.thinkingSummary text) := by
  simp only [thinkingSummary]
  split
  · exact rfl
  · split
    · exact redrawn_flushSummary (a := a.removePlaceholder) false
    · exact rfl

theorem redrawn_recallItem (idx : Nat) : Redrawn a (a.recallItem idx) := by
  simp only [recallItem]
  split
  · split <;> exact rfl
  · split <;> exact rfl

theorem redrawn_navigateHistoryBackwards : Redrawn a a.navigateHistoryBackwards := by
  simp only [navigateHistoryBackwards]
  split
  · exact rfl
  · split
    · exact redrawn_recallItem _
    · exact rfl
    · exact redrawn_recallItem _

theorem redrawn_navigateHistoryForwards : Redrawn a a.navigateHistoryForwards := by
  simp only [navigateHistoryForwards]
  split
  · exact rfl
  · split
    · exact redrawn_recallItem _
    · exact rfl

/-- Of what is kept, a tool may have a path asked for and an orchestration begun. -/
theorem redrawn_toolCompleted (toolName result : String) : ∃ asks runs,
    Redrawn { a with showSandboxPrompt := asks, orchestrationInProgress := runs }
      (a.toolCompleted texts toolName result) ∧ (a.orchestrationInProgress = true → runs = true) := by
  obtain ⟨asks, hasked⟩ : ∃ asks, a.askForPath texts result =
      { a with showSandboxPrompt := asks } := by
    simp only [askForPath]
    split
    · exact ⟨true, rfl⟩
    · exact ⟨_, rfl⟩
  obtain ⟨runs, hstarted, hruns⟩ : ∃ runs,
      Redrawn { a with showSandboxPrompt := asks, orchestrationInProgress := runs }
        ((a.askForPath texts result).startOrchestration texts toolName result) ∧
      (a.orchestrationInProgress = true → runs = true) := by
    simp only [hasked, startOrchestration]
    split
    · split
      · exact ⟨true, rfl, fun _ => rfl⟩
      · exact ⟨_, rfl, id⟩
    · exact ⟨_, rfl, id⟩
  refine ⟨asks, runs, ?_, hruns⟩
  simp only [toolCompleted]
  split
  all_goals exact (redrawn_showToolCallCompleted toolName result).trans hstarted

theorem redrawn_saveToHistory (command : String) : Redrawn a (a.saveToHistory command) := by
  simp only [saveToHistory]
  split <;> simp only [Redrawn, kept]

theorem redrawn_pushAbove (notices : List Row) : Redrawn a (a.pushAbove notices) := by
  simp only [pushAbove]
  split <;> exact rfl

/-- Whether a compaction is under way, and whether a response has been shown. -/
def mode (a : App Stats) : Bool × Bool := (a.isCompacting, a.agentResponseStarted)

/-- All that matters to the queue. -/
def desk (a : App Stats) : List Queued × List String × List Nat × List Queued × Bool :=
  (a.queuedMessages, a.ledger.wanted, a.ledger.dropped, a.ledger.handed, a.orchestrationInProgress)

/-- A compaction and the queue are as they were. -/
def Held (a b : App Stats) : Prop := b.mode = a.mode ∧ b.desk = a.desk

theorem Redrawn.mode (h : Redrawn a b) : b.mode = a.mode := (congrArg App.mode h :)

theorem Redrawn.desk (h : Redrawn a b) : b.desk = a.desk := (congrArg App.desk h :)

theorem Redrawn.held (h : Redrawn a b) : Held a b := ⟨h.mode, h.desk⟩

theorem held_createRewindPoint : Held a a.createRewindPoint := by
  simp only [createRewindPoint]
  split <;> exact ⟨rfl, rfl⟩

theorem held_runCommand (command : String) : Held a (a.runCommand texts command) := by
  simp only [runCommand]
  split
  · exact ⟨rfl, rfl⟩
  · exact ⟨rfl, rfl⟩
  · split <;> exact ⟨rfl, rfl⟩
  · exact ⟨rfl, rfl⟩
  · exact ⟨rfl, rfl⟩

theorem held_handleSlashCommand : Held a (a.handleSlashCommand texts) :=
  held_runCommand (a := (a.push (.user (Text.trim a.input))).clearInput) _

theorem held_answerApproval : Held a a.answerApproval := by
  simp only [answerApproval]
  split
  · exact (redrawn_pushAbove (a := a.tell (.approvalResponse true)) _).held
  · split
    · exact (redrawn_pushAbove (a := a.tell (.approvalResponse false)) _).held
    · split <;> exact ⟨rfl, rfl⟩

theorem held_answerSandbox (blockedPath : String) : Held a (a.answerSandbox blockedPath) := by
  simp only [answerSandbox]
  split
  · exact (redrawn_pushAbove _).held
  · split
    · exact (redrawn_pushAbove _).held
    · split <;> exact ⟨rfl, rfl⟩

theorem held_startTurn (message : String) : Held a (a.startTurn message) := ⟨rfl, rfl⟩

theorem held_escape : Held a a.escape := by
  simp only [escape]
  split
  · exact (redrawn_flushSummary (a := a.removePlaceholder) true).held
  · exact ⟨rfl, rfl⟩

theorem held_processInterrupt (message : String) : Held a (a.processInterrupt texts message) := by
  simp only [processInterrupt]
  split
  · exact held_handleSlashCommand (a := { a with input := message })
  · have hsaved := (redrawn_saveToHistory (a := a.push (.user message)) message).held
    exact ⟨(held_startTurn message).1.trans hsaved.1, (held_startTurn message).2.trans hsaved.2⟩

theorem told_createRewindPoint : a.createRewindPoint.told = a.told := by
  simp only [createRewindPoint]
  split <;> rfl

theorem told_showResponse (turn : Option Nat) (text : String) :
    (a.showResponse turn text).told = a.told := by
  simp only [showResponse]
  split <;> rfl

/-- A compaction that ends clears the context of the agent, but starts no turn. -/
theorem turns_finishCompaction : a.finishCompaction.turns = a.turns := by
  simp only [finishCompaction]
  split
  · rfl
  · rename_i summary hsummary
    have hcleared := turns_tell (a := a.createRewindPoint) .clearContext
    have hinjected := turns_tell (a := a.createRewindPoint.tell .clearContext)
      (.injectContext summary.text)
    exact (hinjected.trans hcleared).trans (turns_congr told_createRewindPoint)

theorem told_finish : a.finish.told = a.told :=
  (redrawn_flushSummary (a := a.removePlaceholder) true).told

theorem isCompacting_finish : a.finish.isCompacting = a.isCompacting :=
  (redrawn_flushSummary (a := a.removePlaceholder) true).isCompacting

/-- Only the end of a compaction tells the agent anything. -/
theorem told_handle (full : Bool) (turn : Option Nat) {message : AgentMessage Stats}
    (h : message.isDone = true → a.isCompacting = false) :
    (a.handle texts full turn message).1.told = a.told := by
  simp only [handle]
  split
  · cases message with
    | generationStats stats => exact (redrawn_generationStatsArrived stats).told
    | done => exact (redrawn_ensureGenerationStatsMarker (a := { a.removePlaceholder with
        thinkingIndicatorActive := false, thinkingCurrentSummary := none }) texts).told
    | thinkingContent | thinkingSummary | agentResponse | toolCallStarted | toolCallCompleted
    | requestApproval | error | contextCleared | contextInjected | modelLoaded => rfl
  · split
    · rfl
    · cases message with
      | thinkingContent => exact (redrawn_thinkingContent full).told
      | thinkingSummary text => exact (redrawn_thinkingSummary text).told
      | agentResponse text =>
        simp only [handleLive, agentResponse]
        split
        · rfl
        · exact (told_showResponse turn text).trans told_finish
      | toolCallStarted toolName arguments => exact (redrawn_toolStarted toolName arguments).told
      | toolCallCompleted toolName result =>
        obtain ⟨_, _, hredrawn, -⟩ := @redrawn_toolCompleted _ texts a toolName result
        exact hredrawn.told
      | requestApproval | error | contextInjected | modelLoaded => rfl
      | generationStats stats => exact (redrawn_generationStatsArrived stats).told
      | contextCleared =>
        simp only [handleLive, contextCleared]
        split <;> rfl
      | done =>
        have hnot : ¬ a.finish.isCompacting = true := by
          rw [isCompacting_finish, h rfl]
          exact Bool.false_ne_true
        simp only [handleLive, done, if_neg hnot]
        split
        all_goals exact (redrawn_ensureGenerationStatsMarker texts).told.trans told_finish

theorem turns_handle (full : Bool) (turn : Option Nat) (message : AgentMessage Stats) :
    (a.handle texts full turn message).1.turns = a.turns := by
  by_cases hends : message.isDone = true ∧ a.isCompacting = true
  · obtain ⟨hdone, hcompacting⟩ := hends
    cases message with
    | done =>
      simp only [handle]
      split
      · exact turns_congr (redrawn_ensureGenerationStatsMarker
          (a := { a.removePlaceholder with
            thinkingIndicatorActive := false, thinkingCurrentSummary := none }) texts).told
      · split
        · rfl
        · simp only [handleLive, done, if_pos (isCompacting_finish.trans hcompacting)]
          exact turns_finishCompaction.trans (turns_congr told_finish)
    | thinkingContent | thinkingSummary | agentResponse | toolCallStarted | toolCallCompleted
    | requestApproval | error | generationStats | contextCleared | contextInjected
    | modelLoaded => cases hdone
  · refine turns_congr (told_handle full turn fun hdone => ?_)
    exact Bool.eq_false_iff.mpr fun hcompacting => hends ⟨hdone, hcompacting⟩

theorem turns_runCommand (command : String) : (a.runCommand texts command).turns = a.turns := by
  simp only [runCommand]
  split
  · exact turns_tell .clearContext
  · rfl
  · split <;> rfl
  · rfl
  · rfl

theorem turns_handleSlashCommand : (a.handleSlashCommand texts).turns = a.turns :=
  turns_runCommand (a := (a.push (.user (Text.trim a.input))).clearInput) (Text.trim a.input)

theorem turns_answerQueueChoice : a.answerQueueChoice.turns = a.turns := by
  simp only [answerQueueChoice]
  split
  · apply turns_congr
    simp only [closeQueueChoice, clearInput, enqueue, (redrawn_saveToHistory _).told]
  · exact turns_tell .cancel
  · rfl
  · rfl

theorem told_cancelPrompted : a.cancelPrompted.told = a.told ++ [.cancel] := rfl

theorem turns_answerApproval : a.answerApproval.turns = a.turns := by
  have hanswered : ∀ approved, (a.tell (.approvalResponse approved)).turns = a.turns := by
    intro approved
    exact turns_tell (.approvalResponse approved)
  simp only [answerApproval]
  split
  · exact (turns_congr (redrawn_pushAbove _).told).trans (hanswered true)
  · split
    · exact (turns_congr (redrawn_pushAbove _).told).trans (hanswered false)
    · split
      · refine (turns_congr ?_).trans ((turns_tell .cancel).trans (hanswered false))
        exact told_cancelPrompted
      · rfl

theorem turns_answerSandbox (blockedPath : String) :
    (a.answerSandbox blockedPath).turns = a.turns := by
  simp only [answerSandbox]
  split
  · exact turns_congr (redrawn_pushAbove _).told
  · split
    · exact turns_congr (redrawn_pushAbove _).told
    · split
      · refine (turns_congr ?_).trans (turns_tell .cancel)
        exact told_cancelPrompted
      · rfl

theorem turns_submitTyped : a.submitTyped.turns = a.turns + 1 := by
  rw [turns_eq, turns_eq]
  simp only [submitTyped, startTurn, tell, push, (redrawn_saveToHistory _).told, clearInput,
    filter_append, length_append]
  rfl

/-- Of all that a key may do only the submission of a message to an agent at rest starts a turn. -/
theorem turns_submitMessage (survey : Bool) (blockedPath : String) :
    (a.submitMessage texts survey blockedPath).turns = a.turns ∨
      (a.submitMessage texts survey blockedPath).turns = a.turns + 1 := by
  simp only [submitMessage]
  split
  · exact .inl rfl
  · split
    · exact .inl rfl
    · split
      · exact .inl turns_answerQueueChoice
      · split
        · exact .inl turns_answerApproval
        · split
          · exact .inl (turns_answerSandbox blockedPath)
          · split
            · exact .inl rfl
            · split
              · exact .inl rfl
              · split
                · exact .inl turns_handleSlashCommand
                · exact .inr turns_submitTyped

theorem turns_escape : a.escape.turns = a.turns := by
  simp only [escape]
  split
  · have htold := turns_tell (a := a.removePlaceholder.flushSummary true) .cancel
    exact htold.trans (turns_congr told_finish)
  · rfl

theorem turns_ctrlC : a.ctrlC.turns = a.turns := by
  simp only [ctrlC]
  split
  · rfl
  · split
    · split <;> rfl
    · rfl

theorem turns_rewind (selected : Nat) (preview : String) :
    (a.rewind selected preview).turns = a.turns := by
  simp only [rewind]
  split <;> rfl

theorem turns_press (texts : Texts Stats) (key : Key) :
    (a.press texts key).turns = a.turns ∨ (a.press texts key).turns = a.turns + 1 := by
  cases key with
  | submit survey blockedPath => exact turns_submitMessage survey blockedPath
  | type | panel => exact .inl rfl
  | escape => exact .inl turns_escape
  | ctrlC => exact .inl turns_ctrlC
  | up => exact .inl (turns_congr redrawn_navigateHistoryBackwards.told)
  | down => exact .inl (turns_congr redrawn_navigateHistoryForwards.told)
  | rewind selected preview => exact .inl (turns_rewind selected preview)

theorem turns_processInterrupt (message : String) :
    (a.processInterrupt texts message).turns = a.turns ∨
      (a.processInterrupt texts message).turns = a.turns + 1 := by
  simp only [processInterrupt]
  split
  · exact .inl (turns_handleSlashCommand (a := { a with input := message }))
  · have hstarted := turns_startTurn (a := (a.push (.user message)).saveToHistory message) message
    have hsaved := redrawn_saveToHistory (a := a.push (.user message)) message
    exact .inr (hstarted.trans (congrArg (· + 1) (turns_congr hsaved.told)))

theorem turns_maybeSendCompactionResumePrompt :
    a.maybeSendCompactionResumePrompt.turns = a.turns ∨
      a.maybeSendCompactionResumePrompt.turns = a.turns + 1 := by
  simp only [maybeSendCompactionResumePrompt]
  split
  · exact .inl rfl
  · split
    · exact .inl rfl
    · rename_i prompt _
      exact .inr (turns_startTurn (a := a.push (.user prompt)) prompt)

theorem turns_processQueued :
    (a.processQueued texts).turns = a.turns ∨ (a.processQueued texts).turns = a.turns + 1 := by
  simp only [processQueued]
  split
  · exact .inl rfl
  · split
    · exact .inl rfl
    · split
      · exact .inl turns_handleSlashCommand
      · exact .inr (turns_startTurn _)

theorem turns_processReview (failure : Option String) :
    (a.processReview texts failure).turns = a.turns ∨
      (a.processReview texts failure).turns = a.turns + 1 := by
  simp only [processReview]
  split
  · exact .inl rfl
  · split
    · exact .inl rfl
    · exact .inr (turns_startTurn _)

theorem turns_startCompaction (texts : Texts Stats) :
    (a.startCompaction texts).turns = a.turns + if a.compactPending.isSome then 1 else 0 := by
  simp only [startCompaction]
  split
  · rename_i hnone
    rw [hnone]
    rfl
  · rename_i customInstructions hsome
    rw [hsome]
    exact turns_startTurn _

theorem turns_part (texts : Texts Stats) (outcome : Outcome) (found : Found) (part : Part) :
    (a.part texts outcome found part).1.turns = a.turns ∨
      (a.part texts outcome found part).1.turns = a.turns + 1 := by
  refine part_cases (P := fun b => b.turns = a.turns ∨ b.turns = a.turns + 1) part (.inl rfl)
    turns_processInterrupt (.inl (turns_congr told_createRewindPoint)) ?_ ?_ (.inl rfl)
    turns_maybeSendCompactionResumePrompt (fun _ => turns_processQueued) (.inl rfl)
    (turns_processReview found.failure) ?_ ?_
  · refine .inl ((turns_congr ?_).trans (turns_tell .cancel))
    rfl
  · rw [autoSummarize]
    split <;> exact .inl rfl
  · intro _
    have hstarted := turns_startCompaction (a := a) texts
    split at hstarted
    · exact .inr hstarted
    · exact .inl hstarted
  · simp only [App.part]
    cases found.loaded <;> exact .inl rfl

theorem turns_orchestrationEnded (error : Option String) :
    (a.orchestrationEnded error).turns = a.turns := by
  cases error <;> rfl

end App

inductive Does (texts : Texts Stats) (s : State Stats) : Action Stats → State Stats → Prop
  | emit {turn : Nat} {message : AgentMessage Stats} (hrunning : turn ∈ s.running)
      (hturn : message.ofTurn = true) : Does texts s (.emit (some turn) message)
      { s with
        channel := s.channel ++ [(some turn, message)]
        running := if message.isDone then s.running.filter (· ≠ turn) else s.running }
  | other {message : AgentMessage Stats} (htask : message.ofTask = true) :
      Does texts s (.emit none message) { s with channel := s.channel ++ [(none, message)] }
  | tick (hstage : s.stage = .keys) :
      Does texts s .tick { s with stage := .reading, outcome := .new }
  | read {full : Bool} {turn : Option Nat} {message : AgentMessage Stats}
      {channel : List (Option Nat × AgentMessage Stats)} (hstage : s.stage = .reading)
      (hchannel : s.channel = (turn, message) :: channel) :
      Does texts s (.read full) (doRead texts s full turn message channel)
  | drained (hstage : s.stage = .reading) (hempty : s.channel = []) :
      Does texts s .drained { s with stage := .events }
  | orchestrated {error : Option String} (hstage : s.stage = .events) :
      Does texts s (.orchestrated error) { s with app := s.app.orchestrationEnded error }
  | handled (hstage : s.stage = .events) : Does texts s .handled { s with stage := .part .interrupt }
  | part {part : Part} {found : Found} (hstage : s.stage = .part part) :
      Does texts s (.part found) (doPart texts s part found)
  | key {key : Key} (hstage : s.stage = .keys) : Does texts s (.key key) (doKey texts s key)

theorem does_of_step (h : step texts s action = some t) : Does texts s action t := by
  cases action with
  | emit turn message =>
    cases turn with
    | some turn =>
      simp only [step] at h
      split at h
      · rename_i hguard
        cases h
        exact .emit hguard.1 hguard.2
      · cases h
    | none =>
      simp only [step] at h
      split at h
      · rename_i htask
        cases h
        exact .other htask
      · cases h
  | tick =>
    simp only [step] at h
    split at h
    · rename_i hstage
      cases h
      exact .tick hstage
    · cases h
  | read full =>
    simp only [step] at h
    split at h
    · rename_i hstage
      cases hchannel : s.channel with
      | nil =>
        rw [hchannel] at h
        cases h
      | cons first channel =>
        rw [hchannel] at h
        cases h
        exact .read hstage hchannel
    · cases h
  | drained =>
    simp only [step] at h
    split at h
    · rename_i hguard
      cases h
      exact .drained hguard.1 (isEmpty_iff.mp hguard.2)
    · cases h
  | orchestrated error =>
    simp only [step] at h
    split at h
    · rename_i hstage
      cases h
      exact .orchestrated hstage
    · cases h
  | handled =>
    simp only [step] at h
    split at h
    · rename_i hstage
      cases h
      exact .handled hstage
    · cases h
  | part found =>
    simp only [step] at h
    split at h
    · rename_i part hstage
      cases h
      exact .part hstage
    · cases h
  | key key =>
    simp only [step] at h
    split at h
    · rename_i hstage
      cases h
      exact .key hstage
    · cases h

/-- What an action reads goes to the end of the log. -/
def entry (texts : Texts Stats) (s : State Stats) : Action Stats → List (Reading Stats)
  | .read full => match s.channel with
    | [] => []
    | (turn, message) :: _ =>
      [⟨turn, message, s.stale turn, s.compaction, s.spoilt, s.app,
        (s.app.handle texts full turn message).1, (s.app.handle texts full turn message).2⟩]
  | _ => []

theorem log_step (hdoes : Does texts s action t) : t.log = s.log ++ entry texts s action := by
  cases hdoes with
  | read _ hchannel => simp only [entry, hchannel, doRead]
  | emit | other | tick | drained | orchestrated | handled => exact (append_nil _).symm
  | part =>
    simp only [doPart, entry, append_nil]
    split <;> rfl
  | @key key =>
    simp only [entry, append_nil]
    cases key with
    | escape =>
      simp only [doKey]
      split <;> rfl
    | type | submit | ctrlC | up | down | rewind | panel => rfl

/-- Of two messages on the channel the first one does not end the turn of the second. -/
def Follows (first second : Option Nat × AgentMessage Stats) : Prop :=
  first.2.isDone = true → first.1 ≠ second.1

/-- Whoever has messages on the channel, or is running, has been started and not been closed; a `Done`
is the last message of its turn. -/
structure Accounted (s : State Stats) : Prop where
  running : ∀ turn ∈ s.running, turn < s.app.turns ∧ turn ∉ s.closed
  waiting : ∀ turn message, (some turn, message) ∈ s.channel → turn < s.app.turns ∧ turn ∉ s.closed
  follows : s.channel.Pairwise Follows
  ended : ∀ turn message, (turn, message) ∈ s.channel → message.isDone = true →
    ∃ turn', turn = some turn' ∧ turn' ∉ s.running
  closed : ∀ turn ∈ s.closed, turn < s.app.turns
  tasks : ∀ message, (none, message) ∈ s.channel → message.ofTask = true

variable {turn : Nat} {message : AgentMessage Stats}

theorem outstanding_iff :
    s.outstanding turn = true ↔ turn < s.app.turns ∧ turn ∉ s.closed := by
  simp only [State.outstanding, Bool.and_eq_true, decide_eq_true_eq, Bool.not_eq_true',
    contains_eq_mem, decide_eq_false_iff_not]

theorem mem_outstandingTurns :
    turn ∈ s.outstandingTurns ↔ turn < s.app.turns ∧ turn ∉ s.closed := by
  rw [State.outstandingTurns, mem_filter, mem_range, outstanding_iff]
  tauto

/-- What the interface does by itself can only start turns. -/
theorem Accounted.proceed (h : Accounted s) {app : App Stats} (happ : s.app.turns ≤ app.turns)
    (htapp : t.app = app) (hrunning : t.running = s.running ++
      List.range' s.app.turns (app.turns - s.app.turns)) (hchannel : t.channel = s.channel)
    (hclosed : t.closed = s.closed) : Accounted t := by
  refine ⟨?_, ?_, ?_, ?_, ?_, hchannel ▸ h.tasks⟩
  · intro turn hmem
    rw [hrunning] at hmem
    rw [htapp, hclosed]
    rcases mem_append.mp hmem with hmem | hmem
    · obtain ⟨hstarted, hopen⟩ := h.running turn hmem
      exact ⟨by omega, hopen⟩
    · obtain ⟨hlow, hhigh⟩ := mem_range'_1.mp hmem
      refine ⟨by omega, fun hin => ?_⟩
      have hbefore := h.closed turn hin
      omega
  · intro turn message hmem
    rw [hchannel] at hmem
    rw [htapp, hclosed]
    obtain ⟨hstarted, hopen⟩ := h.waiting turn message hmem
    exact ⟨by omega, hopen⟩
  · rw [hchannel]
    exact h.follows
  · intro turn message hmem hdone
    rw [hchannel] at hmem
    obtain ⟨turn', rfl, hout⟩ := h.ended turn message hmem hdone
    refine ⟨turn', rfl, fun hin => ?_⟩
    rw [hrunning] at hin
    rcases mem_append.mp hin with hin | hin
    · exact hout hin
    · have hlow := (mem_range'_1.mp hin).1
      have hstarted := (h.waiting turn' message hmem).1
      omega
  · intro turn hmem
    rw [hclosed] at hmem
    rw [htapp]
    have hbefore := h.closed turn hmem
    omega

/-- A step that neither starts nor reads anything. -/
theorem Accounted.same (h : Accounted s) (happ : t.app.turns = s.app.turns)
    (hrunning : t.running = s.running) (hchannel : t.channel = s.channel)
    (hclosed : t.closed = s.closed) : Accounted t := by
  refine h.proceed (le_of_eq happ.symm) rfl ?_ hchannel hclosed
  rw [happ, Nat.sub_self, List.range'_zero, append_nil, hrunning]

theorem Accounted.emit (h : Accounted s) (hrunning : turn ∈ s.running) : Accounted { s with
      channel := s.channel ++ [(some turn, message)]
      running := if message.isDone then s.running.filter (· ≠ turn) else s.running } := by
  have hsub : ∀ other ∈ (if message.isDone then s.running.filter (· ≠ turn) else s.running),
      other ∈ s.running := by
    intro other hmem
    split at hmem
    · exact (mem_filter.mp hmem).1
    · exact hmem
  refine ⟨?_, ?_, ?_, ?_, h.closed, ?_⟩
  · intro other hmem
    exact h.running other (hsub other hmem)
  · intro other message' hmem
    rcases mem_append.mp hmem with hmem | hmem
    · exact h.waiting other message' hmem
    · cases mem_singleton.mp hmem
      exact h.running turn hrunning
  · refine pairwise_append.mpr ⟨h.follows, pairwise_singleton _ _, ?_⟩
    intro first hfirst second hsecond hdone hsame
    rw [mem_singleton.mp hsecond] at hsame
    obtain ⟨turn', hturn', hout⟩ := h.ended first.1 first.2 hfirst hdone
    have hequal : turn' = turn := Option.some.inj (hturn'.symm.trans hsame)
    exact hout (hequal ▸ hrunning)
  · intro other message' hmem hdone
    rcases mem_append.mp hmem with hmem | hmem
    · obtain ⟨turn', rfl, hout⟩ := h.ended other message' hmem hdone
      exact ⟨turn', rfl, fun hin => hout (hsub turn' hin)⟩
    · cases mem_singleton.mp hmem
      refine ⟨turn, rfl, ?_⟩
      dsimp only
      rw [if_pos hdone]
      intro hin
      have hne := (mem_filter.mp hin).2
      simp only [ne_eq, decide_not, decide_true, Bool.not_true, Bool.false_eq_true] at hne
  · intro message' hmem
    rcases mem_append.mp hmem with hmem | hmem
    · exact h.tasks message' hmem
    · cases mem_singleton.mp hmem

theorem Accounted.other (h : Accounted s) (htask : message.ofTask = true) :
    Accounted { s with channel := s.channel ++ [(none, message)] } := by
  have hnot : message.isDone = false := by
    cases message with
    | contextCleared | contextInjected | modelLoaded | error => rfl
    | thinkingContent | thinkingSummary | agentResponse | toolCallStarted | toolCallCompleted
    | requestApproval | generationStats | done => cases htask
  refine ⟨h.running, ?_, ?_, ?_, h.closed, ?_⟩
  · intro other message' hmem
    rcases mem_append.mp hmem with hmem | hmem
    · exact h.waiting other message' hmem
    · cases mem_singleton.mp hmem
  · refine pairwise_append.mpr ⟨h.follows, pairwise_singleton _ _, ?_⟩
    intro first hfirst second hsecond hdone hsame
    rw [mem_singleton.mp hsecond] at hsame
    obtain ⟨turn', hturn', -⟩ := h.ended first.1 first.2 hfirst hdone
    cases hturn'.symm.trans hsame
  · intro other message' hmem hdone
    rcases mem_append.mp hmem with hmem | hmem
    · exact h.ended other message' hmem hdone
    · cases mem_singleton.mp hmem
      rw [hnot] at hdone
      cases hdone
  · intro message' hmem
    rcases mem_append.mp hmem with hmem | hmem
    · exact h.tasks message' hmem
    · cases mem_singleton.mp hmem
      exact htask

theorem Accounted.read (h : Accounted s) {full : Bool} {turn : Option Nat}
    {channel : List (Option Nat × AgentMessage Stats)}
    (hchannel : s.channel = (turn, message) :: channel) :
    Accounted (doRead texts s full turn message channel) := by
  have hturns : (doRead texts s full turn message channel).app.turns = s.app.turns :=
    App.turns_handle full turn message
  have hrest : ∀ other ∈ channel, other ∈ s.channel := by
    intro other hmem
    rw [hchannel]
    exact mem_cons_of_mem _ hmem
  have hfollows := h.follows
  rw [hchannel, pairwise_cons] at hfollows
  -- a turn is closed by its `Done`, after which nothing of it comes
  have hopen : ∀ other : Nat, other ∉ s.closed → (message.isDone = true → turn ≠ some other) →
      other ∉ (doRead texts s full turn message channel).closed := by
    intro other hout hnot hin
    simp only [doRead] at hin
    split at hin
    · rename_i hdone
      rcases mem_append.mp hin with hin | hin
      · exact hout hin
      · exact hnot hdone (mem_toList.mp hin)
    · exact hout hin
  refine ⟨?_, ?_, hfollows.2, ?_, ?_, fun other hmem => h.tasks other (hrest _ hmem)⟩
  · intro other hmem
    obtain ⟨hstarted, hout⟩ := h.running other hmem
    refine ⟨hturns ▸ hstarted, hopen other hout fun hdone hsame => ?_⟩
    obtain ⟨turn', hturn', hended⟩ := h.ended turn message (hchannel ▸ mem_cons_self) hdone
    have hequal : turn' = other := Option.some.inj (hturn'.symm.trans hsame)
    exact hended (hequal ▸ hmem)
  · intro other message' hmem
    obtain ⟨hstarted, hout⟩ := h.waiting other message' (hrest _ hmem)
    exact ⟨hturns ▸ hstarted, hopen other hout fun hdone => hfollows.1 _ hmem hdone⟩
  · intro other message' hmem hdone
    exact h.ended other message' (hrest _ hmem) hdone
  · intro other hmem
    rw [hturns]
    simp only [doRead] at hmem
    split at hmem
    · rename_i hdone
      rcases mem_append.mp hmem with hmem | hmem
      · exact h.closed other hmem
      · have hsome := mem_toList.mp hmem
        refine (h.waiting other message ?_).1
        rw [hchannel, ← hsome]
        exact mem_cons_self
    · exact h.closed other hmem

theorem doPart_parts (texts : Texts Stats) (s : State Stats) (part : Part) (found : Found) :
    (doPart texts s part found).app = (s.app.part texts s.outcome found part).1 ∧
      (doPart texts s part found).running = s.running ++ List.range' s.app.turns
        ((s.app.part texts s.outcome found part).1.turns - s.app.turns) ∧
      (doPart texts s part found).channel = s.channel ∧
      (doPart texts s part found).closed = s.closed := by
  simp only [doPart]
  split <;> exact ⟨rfl, rfl, rfl, rfl⟩

theorem doKey_parts (texts : Texts Stats) (s : State Stats) (key : Key) :
    (doKey texts s key).app = s.app.press texts key ∧
      (doKey texts s key).running = s.running ++ List.range' s.app.turns
        ((s.app.press texts key).turns - s.app.turns) ∧
      (doKey texts s key).channel = s.channel ∧ (doKey texts s key).closed = s.closed := by
  cases key with
  | escape =>
    simp only [doKey]
    split <;> exact ⟨rfl, rfl, rfl, rfl⟩
  | type | submit | ctrlC | up | down | rewind | panel => exact ⟨rfl, rfl, rfl, rfl⟩

theorem Accounted.step (h : Accounted s) (hdoes : Does texts s action t) : Accounted t := by
  cases hdoes with
  | emit hrunning => exact h.emit hrunning
  | other htask => exact h.other htask
  | tick | drained | handled => exact h.same rfl rfl rfl rfl
  | read _ hchannel => exact h.read hchannel
  | @orchestrated error => exact h.same (App.turns_orchestrationEnded error) rfl rfl rfl
  | @part part found =>
    obtain ⟨happ, hrunning, hchannel, hclosed⟩ := doPart_parts texts s part found
    refine h.proceed ?_ happ hrunning hchannel hclosed
    rcases App.turns_part (a := s.app) texts s.outcome found part with hsame | hmore
    · omega
    · omega
  | @key key =>
    obtain ⟨happ, hrunning, hchannel, hclosed⟩ := doKey_parts texts s key
    refine h.proceed ?_ happ hrunning hchannel hclosed
    rcases App.turns_press (a := s.app) texts key with hsame | hmore
    · omega
    · omega

theorem accounted_new (limitThinkingToFirstToken : Bool) (commandHistory : List String) :
    Accounted (.new limitThinkingToFirstToken commandHistory : State Stats) := by
  refine ⟨?_, ?_, List.Pairwise.nil, ?_, ?_, fun message hmem => by cases hmem⟩
  · intro turn hmem
    cases hmem
  · intro turn message hmem
    cases hmem
  · intro turn message hmem
    cases hmem
  · intro turn hmem
    cases hmem

end ColossalCode.Ui
