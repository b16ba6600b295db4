import ColossalCode.Ui.App

/-! What the keys do: submitting, interrupting, and moving through the queue and the history. -/
namespace ColossalCode.Ui

open Text (startsWith trim)

variable {Stats : Type*}

inductive QueueChoiceAction where
  | queue
  | interrupt
  | cancel

def parseQueueChoice (choice : String) : Option QueueChoiceAction :=
  if trim choice = "1" then some .queue
  else if trim choice = "2" then some .interrupt
  else if trim choice = "3" then some .cancel
  else none

namespace App

def clearInput (a : App Stats) : App Stats := { a with input := "" }

/-- An empty command and a repeated one are not kept, nor more than 1000. -/
def saveToHistory (a : App Stats) (command : String) : App Stats :=
  if trim command = "" || a.commandHistory.getLast? = some command then a
  else
    let history := a.commandHistory ++ [command]
    { a with commandHistory := history.drop (history.length - 1000) }

/-- The animation is shown and the message sent. -/
def startTurn (a : App Stats) (message : String) : App Stats :=
  { (a.push placeholder).tell (.userInput message) with
    thinkingIndicatorActive := true
    agentProcessing := true }

/-- `apply_command_runtime_route` and the commands that do more than show rows. -/
def runCommand (texts : Texts Stats) (a : App Stats) (command : String) : App Stats :=
  match texts.dispatchSlashCommand command with
  | .clear =>
    { (a.tell .clearContext) with
      rows := [.user command, .agent (commandEvent "Conversation history cleared")]
      generationStats := none
      generationStatsRendered := false }
  | .exit => a.push (.agent (commandEvent "Exiting..."))
  | .summarize customInstructions =>
    if a.rows.length ≤ 1 then
      a.push (.agent " ⎿ Nothing to summarize - conversation is empty")
    else
      { a with
        compactionResumePrompt := none
        compactionResumeReady := false
        compactPending := some customInstructions }
  | .review options => { a with reviewPending := some options }
  | .notice notices => a.pushNotices notices

def handleSlashCommand (texts : Texts Stats) (a : App Stats) : App Stats :=
  let command := trim a.input
  (a.push (.user command)).clearInput.runCommand texts command

/-- The edited text goes to the entry that the index stands for. -/
def commitEdit (a : App Stats) (idx : Nat) : App Stats :=
  { a with
    editingQueueIndex := none
    queuedMessages := a.queuedMessages.modify idx fun queued => { queued with text := a.input }
    input := ""
    ledger := { a.ledger with
      editing := none
      wanted := match a.ledger.editing with
        | some entry =>
          if a.queuedMessages.any fun queued => queued.entry = entry then
            a.ledger.wanted.set entry a.input
          else a.ledger.wanted
        | none => a.ledger.wanted } }

def enqueue (a : App Stats) (message : String) : App Stats :=
  { a with
    queuedMessages := a.queuedMessages ++ [⟨a.ledger.wanted.length, message⟩]
    ledger := { a.ledger with wanted := a.ledger.wanted ++ [message] } }

/-- The message waits for the end of the turn that is cancelled. -/
def interruptFor (a : App Stats) (message : String) : App Stats :=
  { a.tell .cancel with
    interruptPending := some message
    rows := popPlaceholder a.rows
    thinkingIndicatorActive := false
    thinkingCurrentSummary := none }

def closeQueueChoice (a : App Stats) : App Stats :=
  { a.clearInput with showQueueChoice := false, queueChoiceInput := "" }

def answerQueueChoice (a : App Stats) : App Stats :=
  match parseQueueChoice a.input with
  | some .queue => ((a.saveToHistory a.queueChoiceInput).enqueue a.queueChoiceInput).closeQueueChoice
  | some .interrupt => (a.interruptFor a.queueChoiceInput).closeQueueChoice
  | some .cancel => a.closeQueueChoice
  | none => a.clearInput

/-- Rows are put above the animation. -/
def pushAbove (a : App Stats) (notices : List Row) : App Stats :=
  let a' := { a.removePlaceholder with rows := a.removePlaceholder.rows ++ notices }
  if a.rows.any Row.isPlaceholder then a'.ensurePlaceholder else a'

/-- The agent is cancelled, but not taken for interrupted. -/
def cancelPrompted (a : App Stats) : App Stats :=
  { (a.tell .cancel).removePlaceholder.push
      (.agent " ⎿ Interrupted. What should Nite do instead?") with
    thinkingIndicatorActive := false }

def answerApproval (a : App Stats) : App Stats :=
  if trim a.input = "0" then
    { ((a.tell (.approvalResponse true)).pushAbove [.agent " ⎿ Approved"]).clearInput with
      showApprovalPrompt := false }
  else if trim a.input = "1" then
    { ((a.tell (.approvalResponse false)).pushAbove [.agent " ⎿ Denied"]).clearInput with
      showApprovalPrompt := false }
  else if trim a.input = "2" then
    { (a.tell (.approvalResponse false)).cancelPrompted.clearInput with showApprovalPrompt := false }
  else a.clearInput

def answerSandbox (a : App Stats) (blockedPath : String) : App Stats :=
  if trim a.input = "0" then
    { (a.pushAbove [.agent (" ⎿ Added '" ++ blockedPath ++ "' to writable roots"),
        .agent " ⎿ The agent can now write to this path. Continuing..."]).clearInput with
      showSandboxPrompt := false }
  else if trim a.input = "1" then
    { (a.pushAbove [.agent " ⎿ Sandbox access denied"]).clearInput with showSandboxPrompt := false }
  else if trim a.input = "2" then
    { a.cancelPrompted.clearInput with showSandboxPrompt := false }
  else a.clearInput

def busy (a : App Stats) : Bool := a.agentProcessing || a.thinkingIndicatorActive

/-- A message that is typed while the agent is at rest. -/
def submitTyped (a : App Stats) : App Stats :=
  { (((a.push (.user a.input)).clearInput.saveToHistory a.input).startTurn a.input) with
    agentResponseStarted := false
    agentInterrupted := false }

/-- `submit_message`; whether the input answers a survey, and the path that is blocked, come from
outside. -/
def submitMessage (texts : Texts Stats) (a : App Stats) (survey : Bool) (blockedPath : String) :
    App Stats :=
  if a.input.isEmpty then a
  else match a.editingQueueIndex with
    | some idx => a.commitEdit idx
    | none =>
      if a.showQueueChoice then a.answerQueueChoice
      else if a.showApprovalPrompt then a.answerApproval
      else if a.showSandboxPrompt then a.answerSandbox blockedPath
      else if survey then a.clearInput
      else if a.busy then { a.clearInput with queueChoiceInput := a.input, showQueueChoice := true }
      else if startsWith (trim a.input) "/" then a.handleSlashCommand texts
      else a.submitTyped

def escape (a : App Stats) : App Stats :=
  if a.busy then
    let shown := (a.removePlaceholder.flushSummary true).tell .cancel
    { shown.closePrompts with
      rows := shown.rows ++ interruptedRows
      agentInterrupted := true
      thinkingIndicatorActive := false
      agentProcessing := false }
  else a

/-- The entry that the index stands for is taken out of the queue, without an index the last one. -/
def ctrlC (a : App Stats) : App Stats :=
  match a.editingQueueIndex with
  | some idx =>
    { a with
      editingQueueIndex := none
      queuedMessages := a.queuedMessages.eraseIdx idx
      input := ""
      ledger := { a.ledger with
        editing := none
        dropped := match a.ledger.editing with
          | some entry =>
            if a.queuedMessages.any fun queued => queued.entry = entry then
              a.ledger.dropped ++ [entry]
            else a.ledger.dropped
          | none => a.ledger.dropped } }
  | none =>
    if a.input.isEmpty then
      match a.queuedMessages.getLast? with
      | some queued =>
        { a with
          queuedMessages := a.queuedMessages.dropLast
          ledger := { a.ledger with dropped := a.ledger.dropped ++ [queued.entry] } }
      | none => a
    else a.clearInput

/-- What is at that place is put into the input, and where it is a queued message is remembered. -/
def recallItem (a : App Stats) (idx : Nat) : App Stats :=
  if idx < a.commandHistory.length then
    match a.commandHistory[idx]? with
    | some command =>
      { a with
        input := command
        editingQueueIndex := none
        ledger := { a.ledger with editing := none } }
    | none => a
  else
    match a.queuedMessages[idx - a.commandHistory.length]? with
    | some queued =>
      { a with
        input := queued.text
        editingQueueIndex := some (idx - a.commandHistory.length)
        ledger := { a.ledger with editing := some queued.entry } }
    | none => a

def totalItems (a : App Stats) : Nat := a.commandHistory.length + a.queuedMessages.length

def navigateHistoryBackwards (a : App Stats) : App Stats :=
  if a.totalItems = 0 then a
  else match a.historyIndex with
    | none =>
      { a with tempInput := some a.input, historyIndex := some (a.totalItems - 1) }.recallItem
        (a.totalItems - 1)
    | some 0 => a
    | some (idx + 1) => { a with historyIndex := some idx }.recallItem idx

/-- Behind the last item the input is as it was; without items the comparison wraps around. -/
def navigateHistoryForwards (a : App Stats) : App Stats :=
  match a.historyIndex with
  | none => a
  | some idx =>
    if a.totalItems = 0 ∨ idx < a.totalItems - 1 then
      { a with historyIndex := some (idx + 1) }.recallItem (idx + 1)
    else
      { a with
        historyIndex := none
        editingQueueIndex := none
        input := a.tempInput.getD ""
        tempInput := none
        ledger := { a.ledger with editing := none } }

/-- Enter in the rewind panel. -/
def rewind (a : App Stats) (selected : Nat) (preview : String) : App Stats :=
  match a.rewindPoints[selected]? with
  | some point =>
    { a with
      rows := point ++ [.agent (" ⏮ Rewound to: " ++ preview)]
      rewindPoints := a.rewindPoints.take (selected + 1) }
  | none => a

end App

end ColossalCode.Ui

/-! What is done between the messages of the agent and the keys, in the order of the source. -/
namespace ColossalCode.Ui

open Text (startsWith trim)

variable {Stats : Type*}

namespace App

def midStreamInstructions : String :=
  "This is an automatic summarization triggered because context is running low. " ++
    "Preserve all important context for continuing the conversation."

def triggerMidStreamAutoSummarize (a : App Stats) : App Stats :=
  { a.tell .cancel with
    isAutoSummarize := true
    compactPending := some (some midStreamInstructions)
    compactionResumePrompt := some "continue"
    compactionResumeReady := false
    agentInterrupted := true
    rows := popPlaceholder a.rows
    thinkingIndicatorActive := false
    thinkingCurrentSummary := none }

def maybeSendCompactionResumePrompt (a : App Stats) : App Stats :=
  if !a.compactionResumeReady || a.contextSyncPending then a
  else match a.compactionResumePrompt with
    | none => { a with compactionResumeReady := false }
    | some prompt =>
      { ((a.push (.user prompt)).startTurn prompt) with
        compactionResumePrompt := none
        compactionResumeReady := false
        agentResponseStarted := false
        agentInterrupted := false }

/-- A message that waited for the end of an interrupted turn. -/
def processInterrupt (texts : Texts Stats) (a : App Stats) (message : String) : App Stats :=
  if startsWith (trim message) "/" then { a with input := message }.handleSlashCommand texts
  else ((a.push (.user message)).saveToHistory message).startTurn message

/-- Whether the context has run low comes from outside. -/
def autoSummarize (a : App Stats) (low : Bool) : App Stats :=
  if a.queuedMessages.isEmpty && low then
    { a with
      compactionResumePrompt := none
      compactionResumeReady := false
      isAutoSummarize := true
      compactPending := some (some midStreamInstructions) }
  else a

/-- A synchronisation that has taken too long is given up, with a warning. -/
def giveUpSync (a : App Stats) : App Stats :=
  { a.push (.agent " ⎿ Warning: Context sync timed out") with
    contextSyncPending := false
    contextInjectExpected := false }

/-- The first queued message is handed over. -/
def processQueued (texts : Texts Stats) (a : App Stats) : App Stats :=
  match a.queuedMessages with
  | [] => a
  | queued :: rest =>
    if a.contextSyncPending || a.editingQueueIndex = some 0 then a
    else
      let taken := { a with
        queuedMessages := rest
        ledger := { a.ledger with handed := a.ledger.handed ++ [queued] } }
      if startsWith (trim queued.text) "/" then
        { taken with input := queued.text }.handleSlashCommand texts
      else (taken.push (.user queued.text)).startTurn queued.text

/-- The state of the repository may not be read. -/
def processReview (texts : Texts Stats) (a : App Stats) (failure : Option String) : App Stats :=
  match a.reviewPending with
  | none => a
  | some options =>
    let taken := { a with reviewPending := none }
    match failure with
    | some error => taken.push (.agent (" ⎿ Review failed: " ++ error))
    | none => (taken.push (.user "/review")).startTurn (texts.buildReviewPrompt options)

def startCompaction (texts : Texts Stats) (a : App Stats) : App Stats :=
  match a.compactPending with
  | none => a
  | some customInstructions =>
    { a.startTurn (texts.buildCompactPrompt a.rows customInstructions) with
      compactPending := none
      isCompacting := true
      agentInterrupted := false }

end App

/-- The parts of `process_pending_actions`. -/
inductive Part where
  | interrupt
  | rewind
  | midStream
  | autoSummarize
  | sync
  | resume
  | queued
  | exported
  | review
  | orchestrated
  | compaction
  | load
  deriving DecidableEq

def Part.next : Part → Option Part
  | .interrupt => some .rewind
  | .rewind => some .midStream
  | .midStream => some .autoSummarize
  | .autoSummarize => some .sync
  | .sync => some .resume
  | .resume => some .queued
  | .queued => some .exported
  | .exported => some .review
  | .review => some .orchestrated
  | .orchestrated => some .compaction
  | .compaction => some .load
  | .load => none

/-- What a part finds outside: whether the context has run low, whether the synchronisation has taken
too long, why a review fails, the rows that an export, a spec or an orchestration shows, and the
transcript that is loaded. -/
structure Found where
  low : Bool
  late : Bool
  failure : Option String
  notices : List String
  loaded : Option (List (MessageType × String))

namespace App

/-- A part of `process_pending_actions`; the outcome may be told that a resume prompt is due. -/
def part (texts : Texts Stats) (a : App Stats) (outcome : Outcome) (found : Found) :
    Part → App Stats × Outcome
  | .interrupt => (outcome.processInterrupt.elim a (a.processInterrupt texts), outcome)
  | .rewind => (if outcome.createRewind then a.createRewindPoint else a, outcome)
  | .midStream =>
    (if outcome.triggerMidStreamAutoSummarize then a.triggerMidStreamAutoSummarize else a, outcome)
  | .autoSummarize => (if outcome.checkAutoSummarize then a.autoSummarize found.low else a, outcome)
  | .sync =>
    if a.contextSyncPending then
      if found.late then (a.giveUpSync, { outcome with scheduleResumePrompt := true })
      else (a, outcome)
    else (a.maybeSendCompactionResumePrompt, outcome)
  | .resume =>
    (if outcome.scheduleResumePrompt then a.maybeSendCompactionResumePrompt else a, outcome)
  | .queued => (if outcome.processQueued then a.processQueued texts else a, outcome)
  | .exported => (a.pushNotices found.notices, outcome)
  | .review => (a.processReview texts found.failure, outcome)
  | .orchestrated => (a.pushNotices found.notices, outcome)
  | .compaction => (a.startCompaction texts, outcome)
  | .load =>
    (found.loaded.elim a fun loaded =>
      { a with rows := loaded.map fun (type, text) => ⟨text, type, [none]⟩ }, outcome)

/-- A part leaves the app alone, or does one of these things to it. -/
theorem part_cases {P : App Stats → Prop} {texts : Texts Stats} {a : App Stats} {outcome : Outcome}
    {found : Found} (part : Part) (stay : P a)
    (interrupt : ∀ message, P (a.processInterrupt texts message)) (rewind : P a.createRewindPoint)
    (midStream : P a.triggerMidStreamAutoSummarize) (autoSummarize : P (a.autoSummarize found.low))
    (late : P a.giveUpSync) (resume : P a.maybeSendCompactionResumePrompt)
    (queued : part = .queued → P (a.processQueued texts))
    (notices : P (a.pushNotices found.notices)) (review : P (a.processReview texts found.failure))
    (compaction : part = .compaction → P (a.startCompaction texts))
    (load : P (a.part texts outcome found .load).1) : P (a.part texts outcome found part).1 := by
  have hif : ∀ {c : Bool} {b : App Stats}, P b → P (if c then b else a) := by
    intro c b hb
    split
    · exact hb
    · exact stay
  cases part with
  | interrupt =>
    simp only [App.part]
    cases outcome.processInterrupt with
    | none => exact stay
    | some message =>
      rw [Option.elim_some]
      exact interrupt message
  | sync =>
    simp only [App.part]
    split
    · split
      · exact late
      · exact stay
    · exact resume
  | rewind => exact hif rewind
  | midStream => exact hif midStream
  | autoSummarize => exact hif autoSummarize
  | resume => exact hif resume
  | queued => exact hif (queued rfl)
  | exported | orchestrated => exact notices
  | review => exact review
  | compaction => exact compaction rfl
  | load => exact load

end App

end ColossalCode.Ui
