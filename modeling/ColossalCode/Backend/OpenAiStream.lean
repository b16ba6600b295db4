import ColossalCode.Backend.Decoding

/-! The decoder of the OpenAI chat stream. The consumer is there until the end, and the transport
does not fail. -/
namespace ColossalCode.Backend.OpenAi

open Agent (Response ChunkChoice Choice Delta ToolCallResponse)

structure ToolFunction where
  name : Option String
  arguments : Option String

structure StreamToolCall where
  index : Option Nat
  id : Option String
  function : Option ToolFunction

inductive ChatMessageContent where
  | text (text : List Char)
  | parts (parts : List (Option (List Char)))

def ChatMessageContent.toText : ChatMessageContent → List Char
  | .text content => content
  | .parts contents => (contents.filterMap id).flatten

structure StreamDelta where
  content : Option ChatMessageContent
  role : Option String
  toolCalls : Option (List StreamToolCall)

structure StreamChoice where
  index : Nat
  delta : StreamDelta
  finishReason : Option String

structure StreamingToolCallState where
  id : Option String
  name : String
  arguments : String
  deriving DecidableEq, Repr

instance : Inhabited StreamingToolCallState := ⟨⟨none, "", ""⟩⟩

/-- A fragment is added to the call it is addressed to. -/
def StreamingToolCallState.add (entry : StreamingToolCallState) (call : StreamToolCall) :
    StreamingToolCallState where
  id := call.id.or entry.id
  name :=
    match call.function.bind (·.name) with
    | some name => if name.isEmpty then entry.name else name
    | none => entry.name
  arguments :=
    match call.function.bind (·.arguments) with
    | some arguments => entry.arguments ++ arguments
    | none => entry.arguments

def StreamingToolCallState.response (entry : StreamingToolCallState) (idx : Nat) :
    ToolCallResponse where
  index := idx
  id := entry.id.getD (callId idx)
  function := ⟨entry.name, entry.arguments⟩

/-- The call a fragment is added to. -/
def StreamToolCall.idx (call : StreamToolCall) (state : List StreamingToolCallState) : Nat :=
  call.index.getD state.length

def updateToolCall (state : List StreamingToolCallState) (call : StreamToolCall) :
    List StreamingToolCallState :=
  (resizedTo (call.idx state + 1) state).modify (call.idx state) (·.add call)

/-- The new state and a response for each fragment. -/
def updateStreamingToolCalls :
    List StreamToolCall → List StreamingToolCallState →
      List StreamingToolCallState × List ToolCallResponse
  | [], state => (state, [])
  | call :: calls, state =>
    let idx := call.idx state
    let state := updateToolCall state call
    let response := (state.getD idx default).response idx
    let (state, responses) := updateStreamingToolCalls calls state
    (state, response :: responses)

def finalizeStreamToolCalls (state : List StreamingToolCallState) :
    Option (List ToolCallResponse) :=
  someCalls <| state.zipIdx.filterMap fun (entry, idx) =>
    if entry.name.isEmpty && entry.arguments.isEmpty then none else some (entry.response idx)

structure Decoder where
  accumulatedContent : List Char
  toolState : List StreamingToolCallState
  finalFinishReason : String
  finalRole : String
  sent : List Response

def Decoder.init : Decoder where
  accumulatedContent := []
  toolState := []
  finalFinishReason := "stop"
  finalRole := "assistant"
  sent := []

def StreamChoice.text (choice : StreamChoice) : List Char :=
  (choice.delta.content.map (·.toText)).getD []

def StreamChoice.calls (choice : StreamChoice) : List StreamToolCall :=
  choice.delta.toolCalls.getD []

def Decoder.choice (d : Decoder) (choice : StreamChoice) : Decoder :=
  let role := choice.delta.role.getD d.finalRole
  let content := if choice.text.isEmpty then none else some choice.text
  let (toolState, toolCalls) := updateStreamingToolCalls choice.calls d.toolState
  { accumulatedContent := d.accumulatedContent ++ choice.text
    toolState
    finalFinishReason := choice.finishReason.getD d.finalFinishReason
    finalRole := role
    sent :=
      if content.isNone && toolCalls.isEmpty && choice.finishReason.isNone then d.sent
      else d.sent ++
        [.chunk [⟨choice.finishReason, choice.index, ⟨content, role, someCalls toolCalls⟩⟩]] }

/-- `send_final_done` -/
def Decoder.finalDone (d : Decoder) : List Response :=
  let finishReason := if d.finalFinishReason.isEmpty then "stop" else d.finalFinishReason
  d.sent ++ [.done [⟨finishReason, ⟨some d.accumulatedContent, d.finalRole,
    finalizeStreamToolCalls d.toolState⟩⟩]]

/-- What a payload holds: the end, the choices of a chunk, or nothing that can be read. -/
inductive Event where
  | done
  | chunk (choices : List StreamChoice)
  | failed (error : String)

/-- A payload as it is read; `parse` stands for the JSON parser. -/
def readEvent (parse : List Char → Except String (List StreamChoice)) (data : List Char) :
    Option Event :=
  if (trimmed data).isEmpty then none
  else if trimmed data = "[DONE]" then some .done
  else
    match parse data with
    | .ok choices => some (.chunk choices)
    | .error error => some (.failed error)

/-- The responses sent up to the end of the stream; an error is sent by the caller. -/
def decode : List Event → Decoder → List Response
  | [], d => d.finalDone
  | .done :: _, d => d.finalDone
  | .failed error :: _, d => d.sent ++ [.internalError error]
  | .chunk choices :: events, d => decode events (choices.foldl Decoder.choice d)

def processSseStream (parse : List Char → Except String (List StreamChoice))
    (chunks : List (List UInt8)) : List Response :=
  decode ((payloads framer chunks).filterMap (readEvent parse)) .init

end ColossalCode.Backend.OpenAi
