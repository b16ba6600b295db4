import ColossalCode.Agent.Generation
import ColossalCode.Backend.AnthropicStream
import ColossalCode.Backend.ResponsesStream

/-! The conversation as the three kinds of request carry it. -/
namespace ColossalCode.Backend
open Text

open Agent (Conversation Entry Message MessageContent ToolCallResponse insertAt)
open Protocol (Value)

def normalizedKey (key : String) : String := if key = "function" then "tool_calls" else key

def contentValue : MessageContent → Value
  | .text text => .string text
  | .entries entries => .array (entries.map .object)

def serializeMessage (message : Message) : Value :=
  .object (message.foldl
    (fun fields field => insertAt (normalizedKey field.1) (contentValue field.2) fields) [])

def serializeMessages (messages : Conversation) : List Value := messages.map serializeMessage

/-- One entry of `assistant_tool_calls_from_message`, which the encoders for Anthropic and for
Responses have each of their own. -/
def entryCall (entry : Entry) (idx : Nat) : ToolCallResponse where
  index := ((entry.lookup "index").bind Responses.asU64).getD idx
  id := entry.idStr.getD ""
  function :=
    ⟨(entry.functionStr "name").getD "", (entry.functionStr "arguments").getD "\x7b\x7d"⟩

def assistantToolCallsFromMessage (message : Message) : List ToolCallResponse :=
  message.toolEntries.zipIdx.map fun p => entryCall p.1 p.2

section Anthropic

open Anthropic (prefixedToolName)

variable (parse : String → Option Value)

/-- `parse` stands for the JSON parser. -/
def toolUse (tool : ToolCallResponse) : Value :=
  .object [("type", .string "tool_use"), ("id", .string tool.id),
    ("name", .string (prefixedToolName tool.function.name)),
    ("input", (parse tool.function.arguments).getD (.object []))]

def textBlocks (text : String) : List Value :=
  if text = "" then [] else [.object [("type", .string "text"), ("text", .string text)]]

def toolResult (message : Message) : Value :=
  .object [("role", .string "user"), ("content", .array [
    .object [("type", .string "tool_result"),
      ("tool_use_id", .string (message.textAt "tool_call_id")),
      ("content", .string (message.textAt "content"))]])]

/-- One pass of the loop in `serialize_anthropic_messages`. -/
def serializeAnthropicMessage (message : Message) : Option Value :=
  let role := message.textAt "role"
  if role = "system" then none
  else if role = "tool" then some (toolResult message)
  else
    let calls := if role = "assistant" then assistantToolCallsFromMessage message else []
    some (.object [("role", .string role),
      ("content", .array (textBlocks (message.textAt "content") ++ calls.map (toolUse parse)))])

def serializeAnthropicMessages (messages : Conversation) : List Value :=
  messages.filterMap (serializeAnthropicMessage parse)

end Anthropic

def systemIdentityPrefix : String :=
  "You are Claude Code, Anthropic's official CLI for Claude."

def shouldForwardSystemMessage (content : String) : Bool :=
  let trimmed := trim content
  contains trimmed "<system-reminder>" && contains trimmed "</system-reminder>"

/-- The part of a message in the system prompt. -/
def systemPart (message : Message) : Option String :=
  if message.textAt "role" ≠ "system" then none
  else if shouldForwardSystemMessage (message.textAt "content") then
    some (message.textAt "content")
  else none

def extractSystemPrompt (messages : Conversation) : String :=
  join "\n\n" (systemIdentityPrefix :: messages.filterMap systemPart)

def functionCallEntry (tool : ToolCallResponse) : Value :=
  .object [("type", .string "function_call"), ("call_id", .string tool.id),
    ("name", .string tool.function.name), ("arguments", .string tool.function.arguments)]

def inputText (role kind text : String) : Value :=
  .object [("role", .string role),
    ("content", .array [.object [("type", .string kind), ("text", .string text)]])]

/-- What a message adds to the input. -/
def inputOf (message : Message) : List Value :=
  let role := message.textAt "role"
  let content := message.textAt "content"
  if role = "system" then []
  else if role = "user" then [inputText "user" "input_text" content]
  else if role = "assistant" then
    (assistantToolCallsFromMessage message).map functionCallEntry ++
      if content = "" then [] else [inputText "assistant" "output_text" content]
  else if role = "tool" then
    [.object [("type", .string "function_call_output"),
      ("call_id", .string (message.textAt "tool_call_id")), ("output", .string content)]]
  else []

/-- What a message adds to the instructions. -/
def instructionOf (message : Message) : Option String :=
  if message.textAt "role" = "system" then
    if trim (message.textAt "content") = "" then none
    else some (trim (message.textAt "content"))
  else none

def defaultInstructions : String :=
  "You are Nite 3, a coding agent deployed in the best TUI colossal code. You live inside the " ++
    "terminal, running lean, fast, and sharp. Your role is to serve as the developer's right hand."

/-- What `build_responses_payload` makes of the messages; the other fields of its payload are left
out. -/
structure ResponsesPayload where
  instructions : String
  input : List Value

def buildResponsesPayload (messages : Conversation) : ResponsesPayload where
  instructions :=
    let instructions := messages.filterMap instructionOf
    if instructions.isEmpty then defaultInstructions else join "\n\n" instructions
  input := messages.flatMap inputOf

end ColossalCode.Backend
