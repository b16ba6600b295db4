import ColossalCode.Ui.Rows

/-! The state of the terminal interface, and what it does with each message of the agent. -/
namespace ColossalCode.Ui

open Text (startsWith trim)

variable {Stats : Type*}

/-- What the agent is told. -/
inductive Told where
  | userInput (message : String)
  | cancel
  | clearContext
  | injectContext (summary : String)
  | approvalResponse (approved : Bool)
  deriving DecidableEq

/-- A message waits under the number it was queued as. -/
structure Queued where
  entry : Nat
  text : String
  deriving DecidableEq

/-- How a slash command is read. -/
inductive SlashCommand where
  | clear
  | exit
  | summarize (customInstructions : Option String)
  | review (options : String)
  | notice (rows : List String)

/-- The texts that the interface reads and writes, whose form no result rests on. -/
structure Texts (Stats : Type*) where
  formatToolArguments : String → String → String
  formatToolResult : String → String → Option String → String
  blockedPath : String → Option String
  orchestrationGoal : String → Option String
  statsFields : Stats → String
  sameStats : Stats → Stats → Bool
  dispatchSlashCommand : String → SlashCommand
  buildReviewPrompt : String → String
  buildCompactPrompt : List Row → Option String → String

inductive AgentMessage (Stats : Type*) where
  | thinkingContent
  | thinkingSummary (text : String)
  | agentResponse (text : String)
  | toolCallStarted (toolName arguments : String)
  | toolCallCompleted (toolName result : String)
  | requestApproval
  | error (error : String)
  | generationStats (stats : Stats)
  | contextCleared
  | contextInjected
  | modelLoaded
  | done

/-- What is recorded of a compaction that replaced the transcript. -/
structure Compacted where
  summary : String
  writers : List (Option Nat)
  deriving DecidableEq

/-- What the user means with the queue, by the numbers of its entries: the texts wanted for them, the
entry that is being edited, those taken back, and what has been handed to the agent. -/
structure Ledger where
  wanted : List String
  editing : Option Nat
  dropped : List Nat
  handed : List Queued
  deriving DecidableEq

/-- Told is what has been sent to the agent. The responses that have been shown, and the ledger, are
nothing the program keeps. -/
structure App (Stats : Type*) where
  rows : List Row
  shown : List (Option Nat × String)
  told : List Told
  agentProcessing : Bool
  agentInterrupted : Bool
  isCompacting : Bool
  agentResponseStarted : Bool
  interruptPending : Option String
  thinkingIndicatorActive : Bool
  thinkingCurrentSummary : Option String
  limitThinkingToFirstToken : Bool
  lastToolArgs : Option (String × String)
  generationStats : Option Stats
  generationStatsRendered : Bool
  showApprovalPrompt : Bool
  showSandboxPrompt : Bool
  orchestrationInProgress : Bool
  contextSyncPending : Bool
  contextInjectExpected : Bool
  compactPending : Option (Option String)
  isAutoSummarize : Bool
  compactionResumePrompt : Option String
  compactionResumeReady : Bool
  compactionHistory : List Compacted
  rewindPoints : List (List Row)
  queuedMessages : List Queued
  editingQueueIndex : Option Nat
  historyIndex : Option Nat
  tempInput : Option String
  input : String
  commandHistory : List String
  showQueueChoice : Bool
  queueChoiceInput : String
  reviewPending : Option String
  ledger : Ledger

/-- What is left to do once the messages of the agent have been read. -/
structure Outcome where
  processQueued : Bool
  processInterrupt : Option String
  createRewind : Bool
  checkAutoSummarize : Bool
  triggerMidStreamAutoSummarize : Bool
  scheduleResumePrompt : Bool
  deriving DecidableEq

def Outcome.new : Outcome := ⟨false, none, false, false, false, false⟩

namespace App

/-- The state that the interface starts in; what it has of the backend and of the history comes from
outside. -/
def new (limitThinkingToFirstToken : Bool) (commandHistory : List String) : App Stats where
  rows := []
  shown := []
  told := []
  agentProcessing := false
  agentInterrupted := false
  isCompacting := false
  agentResponseStarted := false
  interruptPending := none
  thinkingIndicatorActive := false
  thinkingCurrentSummary := none
  limitThinkingToFirstToken
  lastToolArgs := none
  generationStats := none
  generationStatsRendered := false
  showApprovalPrompt := false
  showSandboxPrompt := false
  orchestrationInProgress := false
  contextSyncPending := false
  contextInjectExpected := false
  compactPending := none
  isAutoSummarize := false
  compactionResumePrompt := none
  compactionResumeReady := false
  compactionHistory := []
  rewindPoints := []
  queuedMessages := []
  editingQueueIndex := none
  historyIndex := none
  tempInput := none
  input := ""
  commandHistory
  showQueueChoice := false
  queueChoiceInput := ""
  reviewPending := none
  ledger := ⟨[], none, [], []⟩

def push (a : App Stats) (row : Row) : App Stats := { a with rows := a.rows ++ [row] }

def tell (a : App Stats) (message : Told) : App Stats := { a with told := a.told ++ [message] }

def pushNotices (a : App Stats) (notices : List String) : App Stats :=
  { a with rows := a.rows ++ notices.map Row.agent }

def removePlaceholder (a : App Stats) : App Stats :=
  { a with rows := removeThinkingAnimationPlaceholder a.rows }

def ensurePlaceholder (a : App Stats) : App Stats :=
  { a with rows := ensureThinkingAnimationPlaceholder a.rows a.thinkingIndicatorActive }

def animate (a : App Stats) : App Stats := { a with thinkingIndicatorActive := true }.ensurePlaceholder

/-- The summary of the thinking becomes a line of its own. -/
def flushSummary (a : App Stats) (isFinal : Bool) : App Stats :=
  match a.thinkingCurrentSummary with
  | some summary =>
    { a.push (.agent (formatThinkingTreeLine summary isFinal)) with thinkingCurrentSummary := none }
  | none => a

def closePrompts (a : App Stats) : App Stats :=
  { a with showApprovalPrompt := false, showSandboxPrompt := false }

def encodeStats (texts : Texts Stats) (stats : Stats) : String :=
  "[GEN_STATS:" ++ texts.statsFields stats ++ "]"

def ensureGenerationStatsMarker (texts : Texts Stats) (a : App Stats) : App Stats :=
  if a.generationStatsRendered then a
  else match a.generationStats with
    | none => a
    | some stats =>
      let encoded := encodeStats texts stats
      if (a.rows.reverse.take 6).any fun row => row.text == encoded then
        { a with generationStatsRendered := true }
      else { a.push (.agent encoded) with generationStatsRendered := true }

def recordGenerationStats (texts : Texts Stats) (a : App Stats) (stats : Stats) : App Stats :=
  { a with
    generationStats := some stats
    generationStatsRendered :=
      if a.generationStats.any fun existing => texts.sameStats existing stats then
        a.generationStatsRendered
      else false }

def generationStatsArrived (texts : Texts Stats) (a : App Stats) (stats : Stats) : App Stats :=
  let a := a.recordGenerationStats texts stats
  if !a.agentProcessing && !a.thinkingIndicatorActive then a.ensureGenerationStatsMarker texts else a

/-- A rewind point is taken of a transcript that has rows; the oldest of more than 50 is given up. -/
def createRewindPoint (a : App Stats) : App Stats :=
  if a.rows.isEmpty then a
  else
    let points := a.rewindPoints ++ [a.rows]
    { a with rewindPoints := if points.length > 50 then points.tail else points }

/-- Whether the tokens counted have reached the threshold comes from outside. -/
def shouldTriggerMidStream (a : App Stats) (full : Bool) : Bool :=
  !a.isCompacting && !a.isAutoSummarize && a.queuedMessages.isEmpty && full

def thinkingContent (a : App Stats) (full : Bool) : App Stats × Outcome :=
  if a.limitThinkingToFirstToken && a.agentResponseStarted then (a, .new)
  else
    let shown :=
      if endsWithPlaceholder a.rows then a
      else { a.push placeholder with thinkingIndicatorActive := true }
    (shown, { Outcome.new with triggerMidStreamAutoSummarize := a.shouldTriggerMidStream full })

def thinkingSummary (a : App Stats) (text : String) : App Stats :=
  if a.limitThinkingToFirstToken then a
  else
    let moved :=
      if a.thinkingCurrentSummary.isSome then
        (a.removePlaceholder.flushSummary false).ensurePlaceholder
      else a
    { moved with thinkingCurrentSummary := some text }

/-- A response that is not appended starts a row. -/
def showResponse (a : App Stats) (turn : Option Nat) (text : String) : App Stats :=
  if !a.agentResponseStarted || a.rows.getLast?.all fun row => isEventLine row.text then
    { a.push ⟨text, .agent, [turn]⟩ with
      shown := a.shown ++ [(turn, text)]
      agentResponseStarted := true }
  else { a with rows := appendResponse a.rows turn text, shown := a.shown ++ [(turn, text)] }

def agentResponse (a : App Stats) (turn : Option Nat) (text : String) (full : Bool) :
    App Stats × Outcome :=
  if text.isEmpty then (a, .new)
  else
    ((((a.removePlaceholder).flushSummary true).showResponse turn text).ensurePlaceholder,
      { Outcome.new with triggerMidStreamAutoSummarize := a.shouldTriggerMidStream full })

/-- The started row of the tool is brought up to date, or a new one is put at the end. -/
def showToolCallStarted (a : App Stats) (toolName formattedArgs : String) : App Stats :=
  let reads := fun message => (parseToolCallStarted message).bind fun (startedTool, existingArgs) =>
    if startedTool = toolName then
      some (if existingArgs = formattedArgs then message else toolCallStarted toolName formattedArgs)
    else none
  if a.rows.any fun row => (reads row.text).isSome then { a with rows := rewriteLast reads a.rows }
  else a.push (.agent (toolCallStarted toolName formattedArgs))

def toolStarted (texts : Texts Stats) (a : App Stats) (toolName arguments : String) : App Stats :=
  ({ a.removePlaceholder.flushSummary false with
    lastToolArgs := some (toolName, arguments) }.showToolCallStarted toolName
      (texts.formatToolArguments toolName arguments)).animate

/-- The arguments of the last tool call, when it was a call of this tool. -/
def rawArgs (a : App Stats) (toolName : String) : Option String :=
  (a.lastToolArgs.filter fun stored => stored.1 = toolName).map (·.2)

def showToolCallCompleted (texts : Texts Stats) (a : App Stats) (toolName result : String) :
    App Stats :=
  let rawArgs := a.rawArgs toolName
  let completed := fun args => toolCallCompleted toolName args
    (texts.formatToolResult toolName result rawArgs) (rawArgs.getD "")
  let reads := fun message => (parseToolCallStarted message).bind fun (startedTool, args) =>
    if startedTool = toolName then some (completed args) else none
  if a.rows.any fun row => (reads row.text).isSome then { a with rows := rewriteLast reads a.rows }
  else a.push (.agent (completed ((rawArgs.map (texts.formatToolArguments toolName)).getD "")))

/-- A path that the sandbox has blocked is asked for. -/
def askForPath (texts : Texts Stats) (a : App Stats) (result : String) : App Stats :=
  if (texts.blockedPath result).isSome then { a with showSandboxPrompt := true } else a

/-- The tool may have asked for an orchestration, which then runs instead of the agent. -/
def startOrchestration (texts : Texts Stats) (a : App Stats) (toolName result : String) :
    App Stats :=
  if toolName = "orchestrate_task" then
    match texts.orchestrationGoal result with
    | some _ =>
      { a with
        orchestrationInProgress := true
        thinkingIndicatorActive := false }.removePlaceholder
    | none => a
  else a

def toolCompleted (texts : Texts Stats) (a : App Stats) (toolName result : String) : App Stats :=
  let shown := (((a.askForPath texts result).startOrchestration texts toolName result
    ).removePlaceholder).showToolCallCompleted texts toolName result
  if shown.orchestrationInProgress then shown else shown.animate

def failed (a : App Stats) (error : String) : App Stats :=
  { (a.removePlaceholder.push (.agent ("[Error: " ++ error ++ "]"))).closePrompts with
    thinkingCurrentSummary := none
    agentProcessing := false
    thinkingIndicatorActive := false
    agentResponseStarted := false }

def contextCleared (a : App Stats) : App Stats :=
  if a.contextInjectExpected then a else { a with contextSyncPending := false }

def contextInjected (a : App Stats) : App Stats × Outcome :=
  ({ a with contextSyncPending := false, contextInjectExpected := false },
    { Outcome.new with scheduleResumePrompt := true })

/-- What each `Done` does first. -/
def finish (a : App Stats) : App Stats :=
  { (a.removePlaceholder.flushSummary true).closePrompts with
    agentProcessing := false
    thinkingIndicatorActive := false
    agentResponseStarted := false }

/-- A compaction without a summary leaves the transcript as it is. -/
def compactionFailed (a : App Stats) : App Stats :=
  { a.push (.agent (if a.isAutoSummarize then
        " ⎿ Auto-summarization failed: no summary generated. Conversation preserved."
      else " ⎿ Summarization failed: no summary generated. Conversation preserved.")) with
    isCompacting := false
    isAutoSummarize := false
    compactionResumePrompt := none
    compactionResumeReady := false }

def compactedRows (wasAutoSummarize : Bool) : List Row :=
  [.agent ("[SUMMARY_BANNER]" ++
      if wasAutoSummarize then "Context low · auto-summarized · ctrl+o for history"
      else "Conversation summarized · ctrl+o for history"),
    .user (if wasAutoSummarize then "[auto-summarized]" else "/summarize"),
    .agent (if wasAutoSummarize then " ⎿ Auto-summarized (ctrl+o to see full summary)"
      else " ⎿ Summarized (ctrl+o to see full summary)")]

def maxCompactionHistory : Nat := 10

/-- The transcript is replaced, and the context of the agent with it. -/
def compacted (a : App Stats) (summary : Row) : App Stats :=
  let history := a.compactionHistory ++ [⟨summary.text, summary.writers⟩]
  { ((a.createRewindPoint.tell .clearContext).tell (.injectContext summary.text)) with
    rows := compactedRows a.isAutoSummarize
    isCompacting := false
    isAutoSummarize := false
    contextSyncPending := true
    contextInjectExpected := true
    compactionHistory := if history.length > maxCompactionHistory then history.tail else history
    compactionResumeReady := a.compactionResumePrompt.isSome || a.compactionResumeReady }

/-- An empty row is no summary. -/
def summaryRow (a : App Stats) : Option Row :=
  (findLatestCompactionSummary a.rows).filter fun row => !row.text.isEmpty

def finishCompaction (a : App Stats) : App Stats :=
  match a.summaryRow with
  | none => a.compactionFailed
  | some summary => a.compacted summary

def interruptedRows : List Row :=
  [.agent "● Interrupted", .agent " ⎿ What should Nite do instead?"]

def finishInterrupt (texts : Texts Stats) (a : App Stats) : App Stats :=
  { a with rows := a.rows ++ interruptedRows, interruptPending := none
    }.ensureGenerationStatsMarker texts

def done (texts : Texts Stats) (a : App Stats) : App Stats × Outcome :=
  let a := a.finish
  if a.isCompacting then (a.finishCompaction, .new)
  else match a.interruptPending with
    | some message =>
      (a.finishInterrupt texts, { Outcome.new with processInterrupt := some message })
    | none =>
      (a.ensureGenerationStatsMarker texts,
        { Outcome.new with processQueued := true, createRewind := true, checkAutoSummarize := true })

/-- The end of a turn that has been interrupted. -/
def doneInterrupted (texts : Texts Stats) (a : App Stats) : App Stats × Outcome :=
  let a := { a.removePlaceholder with
    thinkingIndicatorActive := false
    thinkingCurrentSummary := none }.ensureGenerationStatsMarker texts
  ({ a.closePrompts with agentInterrupted := false },
    { Outcome.new with checkAutoSummarize := true })

def handleInterrupted (texts : Texts Stats) (a : App Stats) :
    AgentMessage Stats → App Stats × Outcome
  | .generationStats stats => (a.generationStatsArrived texts stats, .new)
  | .done => a.doneInterrupted texts
  | _ => (a, .new)

end App

/-- What is left to the orchestration while it is in progress. -/
def AgentMessage.discarded : AgentMessage Stats → Bool
  | .thinkingContent | .agentResponse _ | .thinkingSummary _ | .generationStats _
  | .toolCallStarted .. | .toolCallCompleted .. | .done => true
  | _ => false

namespace App

def handleLive (texts : Texts Stats) (a : App Stats) (full : Bool) (turn : Option Nat) :
    AgentMessage Stats → App Stats × Outcome
  | .thinkingContent => a.thinkingContent full
  | .thinkingSummary text => (a.thinkingSummary text, .new)
  | .agentResponse text => a.agentResponse turn text full
  | .toolCallStarted toolName arguments => (a.toolStarted texts toolName arguments, .new)
  | .toolCallCompleted toolName result => (a.toolCompleted texts toolName result, .new)
  | .requestApproval => ({ a with showApprovalPrompt := true }, .new)
  | .error error => (a.failed error, .new)
  | .generationStats stats => (a.generationStatsArrived texts stats, .new)
  | .contextCleared => (a.contextCleared, .new)
  | .contextInjected => a.contextInjected
  | .modelLoaded => (a.push (.agent " ✔ Model loaded successfully"), .new)
  | .done => a.done texts

/-- `drain_agent_rx_impl` on one message, of the turn with that number. -/
def handle (texts : Texts Stats) (a : App Stats) (full : Bool) (turn : Option Nat)
    (message : AgentMessage Stats) : App Stats × Outcome :=
  if a.agentInterrupted then a.handleInterrupted texts message
  else if a.orchestrationInProgress && message.discarded then (a, .new)
  else a.handleLive texts full turn message

end App

end ColossalCode.Ui
