import ColossalCode.Backend.Decoding

/-! The decoder of the Anthropic messages stream. The consumer is there until the end, and the
transport does not fail. -/
namespace ColossalCode.Backend.Anthropic

open Agent (Response ToolCallResponse)

structure StreamError where
  errorType : Option String
  message : Option String

structure EventDelta where
  deltaType : Option String
  text : Option (List Char)
  partialJson : Option String
  stopReason : Option String

structure ContentBlock where
  blockType : String
  id : Option String
  name : Option String
  text : Option (List Char)

/-- `AnthropicEvent`, without the ids and the usage of a message. -/
structure Event where
  eventType : String
  delta : Option EventDelta
  contentBlock : Option ContentBlock
  error : Option StreamError

structure ToolState where
  id : Option String
  name : String
  arguments : String

def toolPrefix : String := "mcp_"

def prefixedToolName (name : String) : String :=
  if Text.startsWith name toolPrefix then name else toolPrefix ++ name

def strippedToolName (name : String) : String :=
  if Text.startsWith name toolPrefix then String.ofList (name.toList.drop 4) else name

def ToolState.response (entry : ToolState) (idx : Nat) : ToolCallResponse where
  index := idx
  id := entry.id.getD (callId idx)
  function := ⟨entry.name, if entry.arguments.isEmpty then "\x7b\x7d" else entry.arguments⟩

def finalizeTools (state : List ToolState) : Option (List ToolCallResponse) :=
  someCalls <| state.zipIdx.filterMap fun (entry, idx) =>
    if entry.name.isEmpty then none else some (entry.response idx)

structure Decoder where
  accumulatedContent : List Char
  finalFinishReason : String
  toolState : List ToolState
  currentToolIndex : Option Nat
  sent : List Response

def Decoder.init : Decoder where
  accumulatedContent := []
  finalFinishReason := "stop"
  toolState := []
  currentToolIndex := none
  sent := []

/-- `content_block_start` -/
def Decoder.startBlock (d : Decoder) (block : ContentBlock) : Decoder :=
  match block.blockType with
  | "text" => { d with accumulatedContent := d.accumulatedContent ++ block.text.getD [] }
  | "tool_use" =>
    { d with
      currentToolIndex := some d.toolState.length
      toolState := d.toolState ++ [⟨block.id, strippedToolName (block.name.getD ""), ""⟩] }
  | _ => d

def Decoder.text (d : Decoder) (text : List Char) : Decoder :=
  { d with
    accumulatedContent := d.accumulatedContent ++ text
    sent := d.sent ++ [.chunk [⟨none, 0, ⟨some text, "assistant", none⟩⟩]] }

def Decoder.inputJson (d : Decoder) (partialJson : String) : Decoder :=
  match d.currentToolIndex with
  | some idx =>
    { d with toolState := d.toolState.modify idx fun entry =>
        { entry with arguments := entry.arguments ++ partialJson } }
  | none => d

/-- `content_block_delta` -/
def Decoder.blockDelta (d : Decoder) (delta : EventDelta) : Decoder :=
  match delta.deltaType with
  | some "text_delta" =>
    match delta.text with
    | some text => d.text text
    | none => d
  | some "input_json_delta" =>
    match delta.partialJson with
    | some partialJson => d.inputJson partialJson
    | none => d
  | _ => d

/-- An event that does not end the stream. -/
def Decoder.event (d : Decoder) (event : Event) : Decoder :=
  match event.eventType with
  | "content_block_start" =>
    match event.contentBlock with
    | some block => d.startBlock block
    | none => d
  | "content_block_delta" =>
    match event.delta with
    | some delta => d.blockDelta delta
    | none => d
  | "content_block_stop" => { d with currentToolIndex := none }
  | "message_delta" =>
    { d with finalFinishReason := (event.delta.bind (·.stopReason)).getD d.finalFinishReason }
  | _ => d

/-- `message_stop` -/
def Decoder.done (d : Decoder) : List Response :=
  d.sent ++ [.done [⟨d.finalFinishReason, ⟨some d.accumulatedContent, "assistant",
    finalizeTools d.toolState⟩⟩]]

def streamError (error : Option StreamError) : String :=
  "Anthropic stream error (" ++ (error.bind (·.errorType)).getD "error" ++ "): " ++
    (error.bind (·.message)).getD "unknown error"

def endedEarly : String :=
  "Anthropic stream ended without completing — the connection may have been interrupted"

/-- A payload as it is read; `parse` stands for the JSON parser. -/
def readEvent (parse : String → Except String Event) (data : List Char) :
    Option (Except String Event) :=
  if (trimmed data).isEmpty then none else some (parse (trimmed data))

/-- The responses sent up to the end of the stream; an error is sent by the caller. -/
def decode : List (Except String Event) → Decoder → List Response
  | [], d => d.sent ++ [.internalError endedEarly]
  | .error error :: _, d => d.sent ++ [.internalError error]
  | .ok event :: events, d =>
    if event.eventType = "message_stop" then d.done
    else if event.eventType = "error" then d.sent ++ [.internalError (streamError event.error)]
    else decode events (d.event event)

def processAnthropicSse (parse : String → Except String Event) (chunks : List (List UInt8)) :
    List Response :=
  decode ((payloads framer chunks).filterMap (readEvent parse)) .init

end ColossalCode.Backend.Anthropic
