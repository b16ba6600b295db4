import ColossalCode.Protocol.Spec

/-! The messages of a conversation, as a request builder holds them, and what they stand for. The
other fields of a request builder (sampling, tools, media) are not read here and are left out. -/
namespace ColossalCode.Agent

open Protocol (Value)

structure CalledFunction where
  name : String
  arguments : String
  deriving DecidableEq, Repr

/-- `ToolCallResponse`; its type is always `function`. -/
structure ToolCallResponse where
  index : Nat
  id : String
  function : CalledFunction
  deriving DecidableEq, Repr

inductive TextMessageRole where
  | user
  | assistant
  | system
  | tool
  | custom (role : String)

def TextMessageRole.toString : TextMessageRole → String
  | .user => "user"
  | .assistant => "assistant"
  | .system => "system"
  | .tool => "tool"
  | .custom role => role

/-- A map that keeps the order in which its keys were first inserted. -/
abbrev Entry := List (String × Value)

/-- `Either<String, Vec<IndexMap<String, Value>>>`. -/
inductive MessageContent where
  | text (text : String)
  | entries (entries : List Entry)

abbrev Message := List (String × MessageContent)

abbrev Conversation := List Message

namespace Conversation

def addMessage (messages : Conversation) (role : TextMessageRole) (text : String) : Conversation :=
  messages ++ [[("role", .text role.toString), ("content", .text text)]]

def addToolMessage (messages : Conversation) (toolContent toolId : String) : Conversation :=
  messages ++ [[("role", .text TextMessageRole.tool.toString), ("content", .text toolContent),
    ("tool_call_id", .text toolId)]]

def toolEntry (call : ToolCallResponse) : Entry :=
  [("id", .string call.id), ("type", .string "function"),
    ("function", .object [("name", .string call.function.name),
      ("arguments", .string call.function.arguments)])]

def addMessageWithToolCall (messages : Conversation) (role : TextMessageRole) (text : String)
    (toolCalls : List ToolCallResponse) : Conversation :=
  messages ++ [[("role", .text role.toString), ("content", .text text),
    ("function", .entries (toolCalls.map toolEntry))]]

end Conversation

/-- `content_as_text`: several parts are joined. -/
def contentAsText : MessageContent → String
  | .text text => text
  | .entries parts => String.join
      (parts.filterMap fun part => (part.lookup "text").bind Value.asStr)

/-- `message.get(key).and_then(content_as_text).unwrap_or_default()` -/
def Message.textAt (message : Message) (key : String) : String :=
  ((message.lookup key).map contentAsText).getD ""

/-- The tool calls of a message, under either of their keys. -/
def Message.toolEntries (message : Message) : List Entry :=
  match (message.lookup "tool_calls").or (message.lookup "function") with
  | some (.entries entries) => entries
  | _ => []

def Entry.idStr (entry : Entry) : Option String := (entry.lookup "id").bind Value.asStr

/-- A string in the function of a tool call. -/
def Entry.functionStr (entry : Entry) (key : String) : Option String :=
  ((entry.lookup "function").bind (Value.get key)).bind Value.asStr

/-- What is said in a conversation: texts, calls and their results. -/
inductive Item where
  | said (role text : String)
  | called (id name arguments : String)
  | returned (id text : String)
  deriving DecidableEq, Repr

/-- A text, unless it is empty. -/
def Item.text (role text : String) : List Item := if text = "" then [] else [.said role text]

def Entry.item (entry : Entry) : Item :=
  .called (entry.idStr.getD "") ((entry.functionStr "name").getD "")
    ((entry.functionStr "arguments").getD "{}")

def Message.items (message : Message) : List Item :=
  if message.textAt "role" = "tool" then
    [.returned (message.textAt "tool_call_id") (message.textAt "content")]
  else
    Item.text (message.textAt "role") (message.textAt "content") ++
      message.toolEntries.map Entry.item

end ColossalCode.Agent

/-! What a backend streams back. Ids, models, time stamps and usage are passed on unread and are
left out; the text of a response is the list of its characters. -/
namespace ColossalCode.Agent

structure Delta where
  content : Option (List Char)
  role : String
  toolCalls : Option (List ToolCallResponse)
  deriving DecidableEq, Repr

structure ChunkChoice where
  finishReason : Option String
  index : Nat
  delta : Delta
  deriving DecidableEq, Repr

structure ResponseMessage where
  content : Option (List Char)
  role : String
  toolCalls : Option (List ToolCallResponse)
  deriving DecidableEq, Repr

structure Choice where
  finishReason : String
  message : ResponseMessage
  deriving DecidableEq, Repr

/-- `Response`; an error is given as it prints. -/
inductive Response where
  | chunk (choices : List ChunkChoice)
  | done (choices : List Choice)
  | internalError (error : String)
  | validationError (error : String)
  | modelError (message : String)
  | other
  deriving DecidableEq, Repr

end ColossalCode.Agent
