import ColossalCode.Backend.Decoding

/-! The decoders of the Responses API: of its stream, of the whole text of a stream, and of one JSON
document. The consumer is there until the end, and the transport does not fail. -/
namespace ColossalCode.Backend.Responses

open Agent (Response ToolCallResponse)
open Protocol (Value)

/-- `Value::as_u64`: digits only, in 64 bits. -/
def asU64 : Value → Option Nat
  | .number literal =>
    if literal.toList.all Char.isDigit && literal.toList.length ≠ 0 then
      let value := literal.toList.foldl (fun value c => 10 * value + (c.toNat - 48)) 0
      if value < 0x10000000000000000 then some value else none
    else none
  | _ => none

def strAt (key : String) (value : Value) : Option String := (value.get key).bind Value.asStr

def u64At (key : String) (value : Value) : Option Nat := (value.get key).bind asU64

/-- The elements of an array, none where there is no array. -/
def arrayAt (key : String) (value : Value) : List Value :=
  ((value.get key).bind Value.asArray).getD []

structure ToolState where
  itemId : Option String
  callId : Option String
  name : String
  arguments : String
  deriving DecidableEq, Repr

instance : Inhabited ToolState := ⟨⟨none, none, "", ""⟩⟩

/-- `state.iter().position(|entry| entry.item_id == item_id)` -/
def position (itemId : Option String) (state : List ToolState) : Option Nat :=
  state.findIdx? (·.itemId == itemId)

/-- An item of type `function_call` replaces what is known of its call. -/
def ToolState.ingest (entry : ToolState) (item : Value) : ToolState where
  itemId := strAt "id" item
  callId := ((item.get "call_id").or (item.get "id")).bind Value.asStr
  name := (strAt "name" item).getD entry.name
  arguments := (strAt "arguments" item).getD entry.arguments

def ingestFunctionCallItem (item : Value) (state : List ToolState) : List ToolState :=
  if strAt "type" item ≠ some "function_call" then state
  else
    let idx := (u64At "output_index" item).getD
      ((position (strAt "id" item) state).getD state.length)
    (resizedTo (idx + 1) state).modify idx (·.ingest item)

/-- The call an event is addressed to, and the state with a place for it. -/
def toolIndexForEvent (event : Value) (state : List ToolState) : Nat × List ToolState :=
  match (strAt "item_id" event).bind fun itemId => position (some itemId) state with
  | some idx => (idx, state)
  | none =>
    let idx := (u64At "output_index" event).getD state.length
    (idx, (resizedTo (idx + 1) state).modify idx fun entry =>
      { entry with itemId := entry.itemId.or (strAt "item_id" event) })

/-- `response.function_call_arguments.delta` -/
def argumentsDelta (event : Value) (state : List ToolState) : List ToolState :=
  let (idx, state) := toolIndexForEvent event state
  match strAt "delta" event with
  | some delta => state.modify idx fun entry => { entry with arguments := entry.arguments ++ delta }
  | none => state

/-- `response.function_call_arguments.done` -/
def argumentsDone (event : Value) (state : List ToolState) : List ToolState :=
  let (idx, state) := toolIndexForEvent event state
  match strAt "arguments" event with
  | some arguments => state.modify idx fun entry => { entry with arguments }
  | none => state

def ToolState.response (entry : ToolState) (idx : Nat) : ToolCallResponse where
  index := idx
  id := (entry.callId.or entry.itemId).getD (Backend.callId idx)
  function := ⟨entry.name, entry.arguments⟩

def finalizeTools (state : List ToolState) : Option (List ToolCallResponse) :=
  someCalls <| state.zipIdx.filterMap fun (entry, idx) =>
    if !entry.name.isEmpty || !entry.arguments.isEmpty then some (entry.response idx) else none

/-- The text of the messages in the output of a response. -/
def extractTextFromOutput (response : Value) : List Char :=
  ((((arrayAt "output" response).filter fun item => strAt "type" item = some "message").flatMap
      (arrayAt "content")).filter fun part => strAt "type" part = some "output_text").flatMap
    fun part => ((strAt "text" part).getD "").toList

structure Decoder where
  accumulated : List Char
  toolState : List ToolState
  sent : List Response

def Decoder.init : Decoder := ⟨[], [], []⟩

def kind (event : Value) : String := (strAt "type" event).getD ""

def Decoder.textDelta (d : Decoder) (delta : List Char) : Decoder :=
  if delta.isEmpty then d
  else
    { d with
      accumulated := d.accumulated ++ delta
      sent := d.sent ++ [.chunk [⟨none, 0, ⟨some delta, "assistant", none⟩⟩]] }

def Decoder.textDone (d : Decoder) (text : List Char) : Decoder :=
  if d.accumulated.isEmpty then { d with accumulated := text } else d

/-- An event that does not end the stream. -/
def Decoder.event (d : Decoder) (event : Value) : Decoder :=
  match kind event with
  | "response.output_text.delta" => d.textDelta ((strAt "delta" event).getD "").toList
  | "response.output_text.done" => d.textDone ((strAt "text" event).getD "").toList
  | "response.output_item.added" | "response.output_item.done" =>
    match event.get "item" with
    | some item => { d with toolState := ingestFunctionCallItem item d.toolState }
    | none => d
  | "response.function_call_arguments.delta" =>
    { d with toolState := argumentsDelta event d.toolState }
  | "response.function_call_arguments.done" =>
    { d with toolState := argumentsDone event d.toolState }
  | _ => d

/-- `make_done_response` -/
def makeDone (content : List Char) (toolCalls : Option (List ToolCallResponse)) : Response :=
  .done [⟨"stop", ⟨some content, "assistant", toolCalls⟩⟩]

def Decoder.done (d : Decoder) : List Response :=
  d.sent ++ [makeDone d.accumulated (finalizeTools d.toolState)]

/-- `response.completed` -/
def Decoder.completed (d : Decoder) (event : Value) : List Response :=
  (d.textDone (extractTextFromOutput ((event.get "response").getD event))).done

/-- A payload as it is read, with its text for an error; `parse` stands for the JSON parser. -/
def readEvent (parse : String → Except String Value) (data : List Char) :
    Option (String × Except String Value) :=
  if (trimmed data).isEmpty || trimmed data = "[DONE]" then none
  else some (trimmed data, parse (trimmed data))

/-- The responses sent up to the end of the stream; an error is sent by the caller. The decoder of a
whole text does not stop at `response.failed`. -/
def decodeWith (stopsAtFailed : Bool) :
    List (String × Except String Value) → Decoder → List Response
  | [], d => d.done
  | (_, .error error) :: _, d => d.sent ++ [.internalError error]
  | (text, .ok event) :: events, d =>
    match kind event with
    | "error" | "response.error" =>
      d.sent ++ [.internalError ("Responses stream error: " ++ text)]
    | "response.completed" => d.completed event
    | "response.failed" =>
      if stopsAtFailed then d.sent ++ [.internalError ("Responses stream failed: " ++ text)]
      else decodeWith stopsAtFailed events d
    | _ => decodeWith stopsAtFailed events (d.event event)

/-- The events that the data of a stream is read as. -/
def readEvents (parse : String → Except String Value) (frames : List (List UInt8)) :
    List (String × Except String Value) :=
  (frames.filterMap sseDataFromEvent).filterMap (readEvent parse)

section Process

variable (parse : String → Except String Value) (print : Value → String)

def processResponsesSseText (body : List UInt8) : List Response :=
  decodeWith false (readEvents parse (framer.drain body).1) .init

def looksLikeSse (text : String) : Bool :=
  Text.contains text "event:" || Text.contains text "\ndata:" || Text.startsWith text "data:" ||
    Text.contains text "\"type\":\"response.created\""

/-- A body without events; `print` is how a JSON value prints. -/
def processResponsesJsonFallback (body : List Char) : List Response :=
  if (trimmed body).isEmpty then []
  else if looksLikeSse (trimmed body) then
    processResponsesSseText parse (Text.utf8 body)
  else
    match parse (trimmed body) with
    | .error error => [.internalError error]
    | .ok value =>
      match value.get "error" with
      | some error => [.internalError ("Responses API returned error payload: " ++ print error)]
      | none => [makeDone (extractTextFromOutput value) none]

def processResponsesSse (chunks : List (List UInt8)) : List Response :=
  let (frames, buffer) := Chunks.feed framer.receive ([], []) chunks
  if frames.isEmpty && !buffer.isEmpty then
    processResponsesJsonFallback parse print (Text.fromUtf8Lossy buffer)
  else decodeWith true (readEvents parse frames) .init

end Process

end ColossalCode.Backend.Responses
