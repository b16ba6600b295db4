import ColossalCode.Agent.Messages

/-! The answers of the model server: what its two interfaces, streamed and whole, make of the
responses of the engine, and what a client reads from them. Ids, models, times, usage and log
probabilities are passed on unread and are left out. -/
namespace ColossalCode.ModelServer.Faces
open String

open Protocol (Value)
open Agent (ToolCallResponse)

structure ResponseMessage where
  content : Option String
  role : String
  toolCalls : Option (List ToolCallResponse)

structure Choice where
  finishReason : String
  index : Nat
  message : ResponseMessage

structure Delta where
  content : Option String
  role : String
  toolCalls : Option (List ToolCallResponse)

structure ChunkChoice where
  finishReason : Option String
  index : Nat
  delta : Delta

structure CompletionChoice where
  finishReason : String
  index : Nat
  text : String

structure CompletionChunkChoice where
  text : String
  index : Nat
  finishReason : Option String

/-- An error is given as it prints. -/
inductive EngineResponse where
  | internalError (err : String)
  | validationError (err : String)
  | modelError (msg : String)
  | done (choices : List Choice)
  | chunk (choices : List ChunkChoice)
  | completionModelError (msg : String)
  | completionDone (choices : List CompletionChoice)
  | completionChunk (choices : List CompletionChunkChoice)
  | other

/-- `OpenAIChatChunkChoice`, with its delta. -/
structure OpenAIChatChunkChoice where
  index : Nat
  role : Option String
  content : Option String
  toolCalls : Option (List Value)
  finishReason : Option String

structure OpenAICompletionChunkChoice where
  text : String
  index : Nat
  finishReason : Option String

/-- An event without data is `silent`. -/
inductive OpenAIEvent (γ : Type) where
  | chunk (choices : List γ)
  | error (message type : String)
  | done
  | silent

def toValue (call : ToolCallResponse) : Value :=
  .object [("index", .number (toString call.index)), ("id", .string call.id),
    ("type", .string "function"), ("function", .object [("name", .string call.function.name),
      ("arguments", .string call.function.arguments)])]

/-- The calls become one element of the list. -/
def nested (calls : List ToolCallResponse) : List Value := [.array (calls.map toValue)]

def chatChunkChoice (c : ChunkChoice) : OpenAIChatChunkChoice :=
  ⟨c.index, some c.delta.role, c.delta.content, c.delta.toolCalls.map nested, c.finishReason⟩

/-- `handle_chat_completions`, for one response of the stream. -/
def handleChatCompletions : EngineResponse → List (OpenAIEvent OpenAIChatChunkChoice)
  | .chunk choices => [.chunk (choices.map chatChunkChoice)]
  | .done choices =>
    (match choices.head? with
      | some choice =>
        match choice.message.content with
        | some content =>
          if content.isEmpty then []
          else [.chunk [⟨0, some choice.message.role, some content,
            choice.message.toolCalls.map nested, some choice.finishReason⟩]]
        | none => []
      | none => []) ++ [.done]
  | .modelError msg => [.error msg "model_error"]
  | .internalError err => [.error err "server_error"]
  | _ => [.silent]

def completionChunkChoice (c : CompletionChunkChoice) : OpenAICompletionChunkChoice :=
  ⟨c.text, c.index, c.finishReason⟩

/-- `handle_completions`, for one response of the stream. -/
def handleCompletions : EngineResponse → List (OpenAIEvent OpenAICompletionChunkChoice)
  | .completionChunk choices => [.chunk (choices.map completionChunkChoice)]
  | .completionDone choices =>
    (match choices.head? with
      | some choice =>
        if choice.text.isEmpty then []
        else [.chunk [⟨choice.text, 0, some choice.finishReason⟩]]
      | none => []) ++ [.done]
  | .completionModelError msg => [.error msg "model_error"]
  | _ => [.silent]

structure TokenPayload where
  token : String
  role : Option String
  index : Option Nat
  finishReason : Option String

/-- The events `token`, `usage` and `error`. -/
inductive ApiEvent where
  | token (payload : TokenPayload)
  | usage (finishReason : Option String)
  | error (code message : String)

section Json

variable (toolCallsJson : List ToolCallResponse → String)

/-- Tool calls without text are written into the text. -/
def deltaToken (delta : Delta) : String :=
  match delta.content, delta.toolCalls with
  | some content, _ => content
  | none, some toolCalls => toolCallsJson toolCalls
  | none, none => ""

def chatTokenPayload (choices : List ChunkChoice) : TokenPayload where
  token := join (choices.map fun choice => deltaToken toolCallsJson choice.delta)
  role := choices.head?.map (·.delta.role)
  index := choices.head?.map (·.index)
  finishReason := choices.findSome? (·.finishReason)

/-- `chat_stream_events`, for one response. -/
def chatStreamEvent : EngineResponse → ApiEvent
  | .chunk choices => .token (chatTokenPayload toolCallsJson choices)
  | .done choices => .usage (choices.head?.map (·.finishReason))
  | .modelError msg => .error "model_error" msg
  | .internalError err => .error "internal_error" err
  | .validationError err => .error "validation_error" err
  | _ => .error "stream_mismatch" "unexpected response variant"

end Json

def completionTokenPayload (choices : List CompletionChunkChoice) : TokenPayload where
  token := join (choices.map (·.text))
  role := none
  index := choices.head?.map (·.index)
  finishReason := choices.findSome? (·.finishReason)

/-- `completion_stream_events`, for one response. -/
def completionStreamEvent : EngineResponse → ApiEvent
  | .completionChunk choices => .token (completionTokenPayload choices)
  | .completionDone choices => .usage (choices.head?.map (·.finishReason))
  | .completionModelError msg => .error "model_error" msg
  | .internalError err => .error "internal_error" err
  | .validationError err => .error "validation_error" err
  | _ => .error "stream_mismatch" "unexpected response variant"

/-- `ToolCall`, the arguments as JSON. -/
structure ToolCall where
  name : String
  arguments : Value
  id : String

inductive FinishReason where
  | stop
  | length
  | toolCall
  | error
  deriving DecidableEq

def parseFinishReason (reason : String) : FinishReason :=
  if reason = "stop" then .stop
  else if reason = "length" then .length
  else if reason = "tool_calls" then .toolCall
  else .error

/-- How a finish reason is written under `/v1`. -/
def finishReasonToStr : FinishReason → String
  | .stop => "stop"
  | .length => "length"
  | .toolCall => "tool_calls"
  | .error => "content_filter"

/-- How it is written under `/api`, in snake case. -/
def FinishReason.serialized : FinishReason → String
  | .stop => "stop"
  | .length => "length"
  | .toolCall => "tool_call"
  | .error => "error"

structure ChatResponse where
  content : List String
  toolCalls : List ToolCall
  finishReason : String

structure GenerateResponse where
  output : String
  finishReason : FinishReason

section Whole

variable (fromStr : String → Option Value)

def convertToolCalls (calls : Option (List ToolCallResponse)) : List ToolCall :=
  (calls.getD []).map fun call =>
    ⟨call.function.name, (fromStr call.function.arguments).getD (.string call.function.arguments),
      call.id⟩

def convertChatResponse (choices : List Choice) : Except String ChatResponse :=
  match choices with
  | [] => .error "chat response missing choices"
  | choice :: _ => .ok ⟨choice.message.content.toList,
      convertToolCalls fromStr choice.message.toolCalls,
      if choice.finishReason.isEmpty then "stop" else choice.finishReason⟩

/-- `MistralModelManager::chat`, from the responses of the engine: only the first one is read. -/
def MistralModelManager.chat (responses : List EngineResponse) : Except String ChatResponse :=
  match responses.head? with
  | none => .error "chat cancelled"
  | some (.done choices) => convertChatResponse fromStr choices
  | some (.modelError msg) => .error msg
  | some (.internalError err) => .error err
  | some (.validationError err) => .error err
  | some _ => .error "unexpected response for chat"

end Whole

def convertCompletionResponse (choices : List CompletionChoice) : GenerateResponse :=
  match choices with
  | [] => ⟨"", .stop⟩
  | choice :: _ => ⟨choice.text, parseFinishReason choice.finishReason⟩

/-- `MistralModelManager::generate`, from the responses of the engine. -/
def MistralModelManager.generate (responses : List EngineResponse) : Except String GenerateResponse :=
  match responses.head? with
  | none => .error "generation cancelled"
  | some (.completionDone choices) => .ok (convertCompletionResponse choices)
  | some (.completionModelError msg) => .error msg
  | some (.internalError err) => .error err
  | some (.validationError err) => .error err
  | some _ => .error "unexpected response for completion"

/-- What a client knows of an answer; a tool call that does not read as one is `none`. -/
structure Story where
  text : String
  toolCalls : List (Option ToolCall)
  finishReason : Option String
  failed : Bool

def Story.failure : Story := ⟨"", [], none, true⟩

/-- The last reason that is given. -/
def lastReason (reasons : List (Option String)) : Option String := (reasons.filterMap id).getLast?

/-- A tool call under `/v1`. -/
def readCall (fromStr : String → Option Value) (v : Value) : Option ToolCall :=
  match (v.get "id").bind Value.asStr, ((v.get "function").bind (Value.get "name")).bind Value.asStr,
    ((v.get "function").bind (Value.get "arguments")).bind Value.asStr with
  | some id, some name, some arguments =>
    some ⟨name, (fromStr arguments).getD (.string arguments), id⟩
  | _, _, _ => none

def OpenAIEvent.choices {γ : Type} : OpenAIEvent γ → List γ
  | .chunk choices => choices
  | _ => []

def OpenAIEvent.isError {γ : Type} : OpenAIEvent γ → Bool
  | .error _ _ => true
  | _ => false

def OpenAIEvent.isDone {γ : Type} : OpenAIEvent γ → Bool
  | .done => true
  | _ => false

def readChatEvents (fromStr : String → Option Value)
    (events : List (OpenAIEvent OpenAIChatChunkChoice)) : Story where
  text := join ((events.flatMap (·.choices)).map fun c => c.content.getD "")
  toolCalls := (events.flatMap (·.choices)).flatMap fun c =>
    (c.toolCalls.getD []).map (readCall fromStr)
  finishReason := lastReason ((events.flatMap (·.choices)).map (·.finishReason))
  failed := events.any (·.isError)

def readCompletionEvents (events : List (OpenAIEvent OpenAICompletionChunkChoice)) : Story where
  text := join ((events.flatMap (·.choices)).map (·.text))
  toolCalls := []
  finishReason := lastReason ((events.flatMap (·.choices)).map (·.finishReason))
  failed := events.any (·.isError)

def ApiEvent.text : ApiEvent → String
  | .token payload => payload.token
  | _ => ""

def ApiEvent.reason : ApiEvent → Option String
  | .token payload => payload.finishReason
  | .usage finishReason => finishReason
  | .error _ _ => none

def ApiEvent.isError : ApiEvent → Bool
  | .error _ _ => true
  | _ => false

/-- There is no place for tool calls in these events. -/
def readApiEvents (events : List ApiEvent) : Story where
  text := join (events.map (·.text))
  toolCalls := []
  finishReason := lastReason (events.map (·.reason))
  failed := events.any (·.isError)

/-- The whole answer to a chat under `/v1` holds no tool calls. -/
def readOpenAIChat : Except String ChatResponse → Story
  | .ok resp => ⟨join resp.content, [], some resp.finishReason, false⟩
  | .error _ => .failure

def readApiChat : Except String ChatResponse → Story
  | .ok resp => ⟨join resp.content, resp.toolCalls.map some, some resp.finishReason, false⟩
  | .error _ => .failure

def readOpenAICompletion : Except String GenerateResponse → Story
  | .ok resp => ⟨resp.output, [], some (finishReasonToStr resp.finishReason), false⟩
  | .error _ => .failure

def readApiGenerate : Except String GenerateResponse → Story
  | .ok resp => ⟨resp.output, [], some resp.finishReason.serialized, false⟩
  | .error _ => .failure

/-- How the responses to a request end. -/
inductive Ending (γ : Type) where
  | done (choices : List γ)
  | modelError (msg : String)
  | internalError (err : String)
  | validationError (err : String)
  | closed

/-- What the engine answers to a request whose answer is streamed. -/
inductive Exchange where
  | chat (chunks : List (List ChunkChoice)) (ending : Ending Choice)
  | completion (chunks : List (List CompletionChunkChoice)) (ending : Ending CompletionChoice)

def Ending.chat : Ending Choice → List EngineResponse
  | .done choices => [.done choices]
  | .modelError msg => [.modelError msg]
  | .internalError err => [.internalError err]
  | .validationError err => [.validationError err]
  | .closed => []

def Ending.completion : Ending CompletionChoice → List EngineResponse
  | .done choices => [.completionDone choices]
  | .modelError msg => [.completionModelError msg]
  | .internalError err => [.internalError err]
  | .validationError err => [.validationError err]
  | .closed => []

/-- The stream reports an error. -/
def Ending.isError {γ : Type} : Ending γ → Bool
  | .modelError _ | .internalError _ | .validationError _ => true
  | _ => false

def chatEvents (chunks : List (List ChunkChoice)) (ending : Ending Choice) :
    List (OpenAIEvent OpenAIChatChunkChoice) :=
  (chunks.map EngineResponse.chunk ++ ending.chat).flatMap handleChatCompletions

def completionEvents (chunks : List (List CompletionChunkChoice))
    (ending : Ending CompletionChoice) : List (OpenAIEvent OpenAICompletionChunkChoice) :=
  (chunks.map EngineResponse.completionChunk ++ ending.completion).flatMap handleCompletions

/-- A stream under `/v1` has one end, and nothing behind it. -/
def EndsOnce {γ : Type} (events : List (OpenAIEvent γ)) : Prop :=
  events.getLast?.any OpenAIEvent.isDone = true ∧ events.countP OpenAIEvent.isDone = 1

namespace Exchange

variable (fromStr : String → Option Value) (toolCallsJson : List ToolCallResponse → String)

/-- What clients read: streamed under `/v1` and `/api`, and whole under both. The same output comes as
its end alone when it is not streamed. -/
def stories : Exchange → List Story
  | .chat chunks ending =>
    [readChatEvents fromStr (chatEvents chunks ending),
      readApiEvents ((chunks.map EngineResponse.chunk ++ ending.chat).map
        (chatStreamEvent toolCallsJson)),
      readOpenAIChat (MistralModelManager.chat fromStr ending.chat),
      readApiChat (MistralModelManager.chat fromStr ending.chat)]
  | .completion chunks ending =>
    [readCompletionEvents (completionEvents chunks ending),
      readApiEvents ((chunks.map EngineResponse.completionChunk ++ ending.completion).map
        completionStreamEvent),
      readOpenAICompletion (MistralModelManager.generate ending.completion),
      readApiGenerate (MistralModelManager.generate ending.completion)]

def endsOnce : Exchange → Prop
  | .chat chunks ending => EndsOnce (chatEvents chunks ending)
  | .completion chunks ending => EndsOnce (completionEvents chunks ending)

def isError : Exchange → Bool
  | .chat _ ending => ending.isError
  | .completion _ ending => ending.isError

/-- The text of the end counts where none has been streamed. -/
def generatedText : Exchange → String
  | .chat chunks ending =>
    let streamed := join (chunks.flatten.map fun c => c.delta.content.getD "")
    match ending with
    | .done (choice :: _) =>
      if streamed.isEmpty then choice.message.content.getD "" else streamed
    | _ => streamed
  | .completion chunks ending =>
    let streamed := join (chunks.flatten.map (·.text))
    match ending with
    | .done (choice :: _) => if streamed.isEmpty then choice.text else streamed
    | _ => streamed

def generatedCalls : Exchange → List ToolCallResponse
  | .chat chunks ending =>
    let streamed := chunks.flatten.flatMap fun c => c.delta.toolCalls.getD []
    match ending with
    | .done (choice :: _) =>
      if streamed.isEmpty then choice.message.toolCalls.getD [] else streamed
    | _ => streamed
  | .completion _ _ => []

/-- All clients read the same: what was generated, or that there was an error. -/
structure ToldAlike (e : Exchange) : Prop where
  story : ∃ told, (∀ s ∈ e.stories fromStr toolCallsJson, s = told) ∧
    told.text = e.generatedText ∧
    told.toolCalls = (convertToolCalls fromStr (some e.generatedCalls)).map some ∧
    (e.isError = true → told.failed = true)
  ended : e.endsOnce

/-- There is nothing to tell but the reason, which a chunk gives as well. -/
def Plain : Exchange → Prop
  | .chat chunks ending => ∃ choice rest, ending = .done (choice :: rest) ∧
    choice.message.content.getD "" = "" ∧ choice.message.toolCalls.getD [] = [] ∧
    (∀ c ∈ chunks.flatten, c.delta.content.getD "" = "" ∧ c.delta.toolCalls = none) ∧
    choice.finishReason ≠ "" ∧
    lastReason (chunks.flatten.map (·.finishReason)) = some choice.finishReason
  | .completion chunks ending => ∃ choices, ending = .done choices ∧
    (∀ choice ∈ choices.head?, choice.text = "") ∧ (∀ c ∈ chunks.flatten, c.text = "") ∧
    ∃ reason, (reason = "stop" ∨ reason = "length") ∧
      lastReason (chunks.flatten.map (·.finishReason)) = some reason ∧
      match choices with
      | choice :: _ => choice.finishReason = reason
      | [] => reason = "stop" ∧
        lastReason (chunks.map fun chunk => chunk.findSome? (·.finishReason)) = some reason

end Exchange

end ColossalCode.ModelServer.Faces
