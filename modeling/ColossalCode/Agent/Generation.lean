import ColossalCode.Agent.Messages
import ColossalCode.Agent.Splitting

/-! The turns of a generation and the conversation they leave behind. Statistics, the summaries of
thinking and cancellation are left out; the tools are a function of the world they act on. -/
namespace ColossalCode.Agent

/-- A value is replaced where its key stands, or comes last. -/
def insertAt {κ α : Type} [DecidableEq κ] (key : κ) (value : α) : List (κ × α) → List (κ × α)
  | [] => [(key, value)]
  | entry :: rest =>
    if entry.1 = key then (key, value) :: rest else entry :: insertAt key value rest

/-- A turn while its stream is read. -/
structure Turn where
  splitter : Splitter
  accumulatedToolCalls : List (Nat × ToolCallResponse)

namespace Turn

def init : Turn := ⟨.init, []⟩

def send (t : Turn) (messages : List AgentMessage) : Turn :=
  { t with splitter := t.splitter.send messages }

/-- The tool calls in the order of their first fragments. -/
def calls (t : Turn) : List ToolCallResponse := t.accumulatedToolCalls.map Prod.snd

def started (call : ToolCallResponse) : AgentMessage :=
  .toolCallStarted call.function.name call.function.arguments

/-- A tool call in a chunk holds all of its arguments so far. -/
def toolCall (t : Turn) (call : ToolCallResponse) : Turn :=
  let previousArgs := (t.accumulatedToolCalls.lookup call.index).map (·.function.arguments)
  let t := { t with
    accumulatedToolCalls := insertAt call.index call t.accumulatedToolCalls }
  if previousArgs.all (· != call.function.arguments) then t.send [started call] else t

def delta (tags : ThinkingTags) (t : Turn) (delta : Delta) : Turn :=
  match delta.toolCalls, delta.content with
  | some toolCalls, _ => toolCalls.foldl toolCall { t with splitter := t.splitter.interrupt }
  | none, some content => { t with splitter := t.splitter.content tags content }
  | none, none => t

/-- The tool calls at the end of a response are taken if no chunk had any. -/
def done (t : Turn) (choices : List Choice) : Turn :=
  if t.accumulatedToolCalls.isEmpty then
    match choices.head?.bind (·.message.toolCalls) with
    | some toolCalls =>
      toolCalls.foldl (fun t call => { t with
        accumulatedToolCalls := insertAt call.index call t.accumulatedToolCalls }.send
          [started call]) t
    | none => t
  else t

/-- The loop over the responses of a stream. -/
def read (tags : ThinkingTags) : List Response → Turn → Turn
  | [], t => t
  | .chunk choices :: responses, t =>
    match choices.head? with
    | some choice => read tags responses (t.delta tags choice.delta)
    | none => read tags responses t
  | .done choices :: _, t => t.done choices
  | .internalError error :: _, t => t.send [.error ("Internal error: " ++ error)]
  | .validationError error :: _, t => t.send [.error ("Validation error: " ++ error)]
  | .modelError message :: _, t => t.send [.error ("Model error: " ++ message)]
  | .other :: responses, t => read tags responses t

end Turn

/-- The turn of a stream of responses. -/
def readTurn (tags : ThinkingTags) (responses : List Response) : Turn :=
  let turn := Turn.read tags responses .init
  { turn with splitter := turn.splitter.flush }

/-- `current_request_builder`, with what has been sent and the world the tools act on. -/
structure Progress (W : Type) where
  world : W
  builder : Conversation
  sent : List AgentMessage

/-- What the backend answers to a request. -/
inductive Reply where
  | refused (error : String)
  | streamed (responses : List Response)

/-- The end of `process_message`, with the conversation it stores. -/
structure Ended (W : Type) where
  result : Except String Unit
  conversation : Option Conversation
  world : W
  sent : List AgentMessage

section Tools

variable {W : Type} (execute : W → ToolCallResponse → W × Except String String)
  (failureYaml : String → String → String)

/-- The text that a tool call returns to the model. -/
def toolResult (call : ToolCallResponse) : Except String String → String
  | .ok result => result
  | .error error => failureYaml error call.function.name

/-- A tool call is executed and noted, each with the text of its turn. -/
def callTool (text : String) (p : Progress W) (call : ToolCallResponse) : Progress W :=
  let (world, outcome) := execute p.world call
  let result := toolResult failureYaml call outcome
  { world
    builder := (p.builder.addMessageWithToolCall .assistant text [call]).addToolMessage result
      call.id
    sent := p.sent ++ [.toolCallCompleted call.function.name result] }

/-- The loop over turns; there is no end as long as a reply is yet to come. -/
def runGeneration (tags : ThinkingTags) : List Reply → Progress W → Option (Ended W)
  | [], _ => none
  | .refused error :: _, p => some ⟨.error error, none, p.world, p.sent⟩
  | .streamed responses :: replies, p =>
    let turn := readTurn tags responses
    let p := { p with sent := p.sent ++ turn.splitter.sent }
    if turn.calls.isEmpty then some ⟨.ok (), some p.builder, p.world, p.sent ++ [.done]⟩
    else
      runGeneration tags replies
        (turn.calls.foldl
          (callTool execute failureYaml (String.ofList turn.splitter.accumulatedContent)) p)

/-- The request of a user message; a new conversation starts with the system prompt. -/
def startRequest (systemPrompt : String) (conversation : Option Conversation)
    (userMessage : String) : Conversation :=
  match conversation with
  | some existing => existing.addMessage .user userMessage
  | none => (Conversation.addMessage [] .system systemPrompt).addMessage .user userMessage

def processMessage (tags : ThinkingTags) (systemPrompt : String)
    (conversation : Option Conversation) (userMessage : String) (replies : List Reply) (world : W) :
    Option (Ended W) :=
  runGeneration execute failureYaml tags replies
    ⟨world, startRequest systemPrompt conversation userMessage, []⟩

end Tools

end ColossalCode.Agent
