import ColossalCode.Agent.Announced
import ColossalCode.Backend.Encoders
import Mathlib.Data.List.Forall2

/-! What the messages of a request say, and how the three kinds of request say the same. -/
namespace ColossalCode.Backend
open String Text

open Agent (Conversation Entry Message MessageContent contentAsText insertAt insertAt_new
  lookup_cons lookup_eq_none)
open Anthropic (prefixedToolName)
open Protocol (Value)

variable {message : Message} {messages : Conversation} {entry : Entry} {role text key : String}

inductive Arguments where
  | json (value : Value)
  /-- Arguments that are not JSON. -/
  | raw (text : String)

/-- What a conversation is made of. -/
inductive Piece where
  | text (role text : String)
  | call (id : Option String) (name : String) (arguments : Option Arguments)
  | result (id text : String)

/-- A text and the calls after it. An empty text is something said only where nothing else is. -/
def spoken (role text : String) (calls : List Piece) : List Piece :=
  if text = "" ∧ calls.isEmpty = false then calls else .text role text :: calls

section Pieces

variable (parse : String → Option Value)

def readArguments (text : String) : Arguments :=
  match parse text with
  | some value => .json value
  | none => .raw text

def recordedCall (entry : Entry) : Piece :=
  .call entry.idStr ((entry.functionStr "name").getD "")
    ((entry.functionStr "arguments").map (readArguments parse))

def recordedCalls (message : Message) : List Piece :=
  if message.textAt "role" = "assistant" then message.toolEntries.map (recordedCall parse) else []

def recorded (message : Message) : List Piece :=
  if message.textAt "role" = "tool" then
    [.result (message.textAt "tool_call_id") (message.textAt "content")]
  else spoken (message.textAt "role") (message.textAt "content") (recordedCalls parse message)

def valueText : Value → String
  | .string s => s
  | .array parts => join (parts.filterMap fun part => (part.get "text").bind Value.asStr)
  | _ => ""

def fieldText (key : String) (message : Value) : String :=
  ((message.get key).map valueText).getD ""

def strField (key : String) (value : Value) : Option String := (value.get key).bind Value.asStr

def chatCall (entry : Value) : Piece :=
  let function := entry.get "function"
  .call (strField "id" entry) ((function.bind (strField "name")).getD "")
    ((function.bind (strField "arguments")).map (readArguments parse))

def chatCalls (message : Value) : List Piece :=
  if fieldText "role" message = "assistant" then
    (((message.get "tool_calls").bind Value.asArray).getD []).map (chatCall parse)
  else []

def chatPieces (message : Value) : List Piece :=
  if fieldText "role" message = "tool" then
    [.result (fieldText "tool_call_id" message) (fieldText "content" message)]
  else spoken (fieldText "role" message) (fieldText "content" message) (chatCalls parse message)

def anthropicBlock (role : String) (block : Value) : Piece :=
  if strField "type" block = some "tool_use" then
    .call (strField "id" block) ((strField "name" block).getD "")
      ((block.get "input").map Arguments.json)
  else if strField "type" block = some "tool_result" then
    .result ((strField "tool_use_id" block).getD "") (fieldText "content" block)
  else .text role (fieldText "text" block)

def anthropicPieces (message : Value) : List Piece :=
  match ((message.get "content").bind Value.asArray).getD [] with
  | [] => [.text (fieldText "role" message) ""]
  | block :: blocks => (block :: blocks).map (anthropicBlock (fieldText "role" message))

/-- The arguments of a call as an object: empty where they are missing or not JSON. -/
def inputValue : Option Arguments → Value
  | none => (parse "\x7b\x7d").getD (.object [])
  | some (.json value) => value
  | some (.raw _) => .object []

/-- A piece as Anthropic is sent it. -/
def asAnthropic : Piece → Piece
  | .call id name arguments =>
    .call (some (id.getD "")) (prefixedToolName name) (some (.json (inputValue parse arguments)))
  | piece => piece

def responsesPiece (entry : Value) : Piece :=
  if strField "type" entry = some "function_call" then
    .call (strField "call_id" entry) ((strField "name" entry).getD "")
      ((strField "arguments" entry).map (readArguments parse))
  else if strField "type" entry = some "function_call_output" then
    .result ((strField "call_id" entry).getD "") (fieldText "output" entry)
  else .text (fieldText "role" entry) (fieldText "content" entry)

/-- A piece as the Responses input has it. -/
def asResponses : Piece → Piece
  | .call id name arguments =>
    .call (some (id.getD "")) name (some (arguments.getD (readArguments parse "\x7b\x7d")))
  | piece => piece

/-- The messages that the Responses input has: of the roles user and tool, and of the role assistant
if they have a text or a call. -/
def InInput (message : Message) : Prop :=
  message.textAt "role" = "user" ∨ message.textAt "role" = "tool" ∨
    (message.textAt "role" = "assistant" ∧
      (message.textAt "content" ≠ "" ∨ message.toolEntries ≠ []))

/-- What the Responses input has of a message. -/
def ResponsesPart (message : Message) (part : List Piece) : Prop :=
  (InInput message → part.Perm ((recorded parse message).map (asResponses parse))) ∧
    (¬ InInput message → part = [])

end Pieces

/-- No key is there twice, and the calls of a message are under one of their two keys. -/
def Keyed (message : Message) : Prop := (message.map fun field => normalizedKey field.1).Nodup

variable {parse : String → Option Value}

theorem foldl_insertAt {fields : List (String × Value)}
    (h : (fields.map Prod.fst ++ message.map fun field => normalizedKey field.1).Nodup) :
    message.foldl (fun fields field =>
        insertAt (normalizedKey field.1) (contentValue field.2) fields) fields =
      fields ++ message.map fun field => (normalizedKey field.1, contentValue field.2) := by
  induction message generalizing fields with
  | nil => simp
  | cons field message ih =>
    have hnew : normalizedKey field.1 ∉ fields.map Prod.fst := by
      intro hmem
      rw [List.map_cons, List.nodup_append] at h
      exact h.2.2 _ hmem _ List.mem_cons_self rfl
    rw [List.foldl_cons, insertAt_new (lookup_eq_none.mpr hnew), ih, List.append_assoc]
    · rfl
    · rw [List.map_append, List.append_assoc]
      exact h

theorem serializeMessage_eq (h : Keyed message) :
    serializeMessage message =
      .object (message.map fun field => (normalizedKey field.1, contentValue field.2)) := by
  have hfields := @foldl_insertAt message [] h
  rw [serializeMessage, hfields, List.nil_append]

theorem get_serialized (h : Keyed message) (hcalls : key ≠ "tool_calls") (hfun : key ≠ "function") :
    (serializeMessage message).get key = (message.lookup key).map contentValue := by
  rw [serializeMessage_eq h]
  show List.lookup key _ = _
  clear h
  induction message with
  | nil => rfl
  | cons field message ih =>
    rw [List.map_cons, lookup_cons, lookup_cons, ih]
    have hsame : key = normalizedKey field.1 ↔ key = field.1 := by
      unfold normalizedKey
      split
      · rename_i hfield
        rw [hfield]
        exact iff_of_false hcalls hfun
      · exact Iff.rfl
    by_cases hname : key = field.1
    · rw [if_pos (hsame.mpr hname), if_pos hname]
      rfl
    · rw [if_neg (mt hsame.mp hname), if_neg hname]

/-- The calls of a message are under one key. -/
theorem get_calls (h : Keyed message) :
    (serializeMessage message).get "tool_calls" =
      ((message.lookup "tool_calls").or (message.lookup "function")).map contentValue := by
  rw [serializeMessage_eq h]
  show List.lookup "tool_calls" _ = _
  induction message with
  | nil => rfl
  | cons field message ih =>
    rw [Keyed, List.map_cons, List.nodup_cons] at h
    rw [List.map_cons, lookup_cons, lookup_cons, lookup_cons, ih h.2]
    have hrest : ∀ name, normalizedKey name = "tool_calls" →
        normalizedKey field.1 = "tool_calls" → message.lookup name = none := by
      intro name hname hfield
      refine lookup_eq_none.mpr fun hmem => h.1 ?_
      obtain ⟨other, hother, rfl⟩ := List.mem_map.mp hmem
      rw [hfield, ← hname]
      exact List.mem_map_of_mem hother
    by_cases hcalls : "tool_calls" = field.1
    · have hkey : "tool_calls" = normalizedKey field.1 := by rw [← hcalls]; rfl
      rw [if_pos hkey, if_pos hcalls]
      rfl
    · by_cases hfun : "function" = field.1
      · have hkey : "tool_calls" = normalizedKey field.1 := by rw [← hfun]; rfl
        rw [if_pos hkey, if_neg hcalls, if_pos hfun, hrest "tool_calls" rfl hkey.symm]
        rfl
      · have hkey : ¬ "tool_calls" = normalizedKey field.1 := by
          rw [normalizedKey, if_neg (Ne.symm hfun)]
          exact hcalls
        rw [if_neg hkey, if_neg hcalls, if_neg hfun]

theorem valueText_content (content : MessageContent) :
    valueText (contentValue content) = contentAsText content := by
  cases content with
  | text text => rfl
  | entries parts =>
    rw [contentValue, valueText, contentAsText, List.filterMap_map]
    rfl

theorem fieldText_serialized (h : Keyed message) (hcalls : key ≠ "tool_calls")
    (hfun : key ≠ "function") : fieldText key (serializeMessage message) = message.textAt key := by
  rw [fieldText, get_serialized h hcalls hfun, Option.map_map, Message.textAt]
  have hsame : valueText ∘ contentValue = contentAsText := funext valueText_content
  rw [hsame]

theorem chatCall_entry (entry : Entry) :
    chatCall parse (.object entry) = recordedCall parse entry := by
  have hfield (key : String) :
      (entry.lookup "function").bind (strField key) = entry.functionStr key := by
    rw [Entry.functionStr, Option.bind_assoc]
    rfl
  show Piece.call entry.idStr _ _ = _
  rw [recordedCall, ← hfield, ← hfield]
  rfl

theorem chatCalls_serialized (h : Keyed message) :
    chatCalls parse (serializeMessage message) = recordedCalls parse message := by
  rw [chatCalls, recordedCalls, fieldText_serialized h (by decide) (by decide), get_calls h,
    Message.toolEntries]
  split
  · cases (message.lookup "tool_calls").or (message.lookup "function") with
    | none => rfl
    | some content =>
      cases content with
      | text text => rfl
      | entries entries =>
        show (entries.map Value.object).map (chatCall parse) = entries.map (recordedCall parse)
        rw [List.map_map]
        exact List.map_congr_left fun entry _ => chatCall_entry entry
  · rfl

theorem chatPieces_serialized (h : Keyed message) :
    chatPieces parse (serializeMessage message) = recorded parse message := by
  rw [chatPieces, recorded, fieldText_serialized h (by decide) (by decide),
    fieldText_serialized h (by decide) (by decide), fieldText_serialized h (by decide) (by decide),
    chatCalls_serialized h]

theorem toolEntries_calls (f : Agent.ToolCallResponse → Piece) (g : Entry → Piece)
    (h : ∀ entry idx, f (entryCall entry idx) = g entry) (message : Message) :
    (assistantToolCallsFromMessage message).map f = message.toolEntries.map g := by
  have hfrom : ∀ (entries : List Entry) (n : Nat),
      ((entries.zipIdx n).map fun p => entryCall p.1 p.2).map f = entries.map g := by
    intro entries
    induction entries with
    | nil => exact fun _ => rfl
    | cons entry entries ih =>
      intro n
      rw [List.zipIdx_cons, List.map_cons, List.map_cons, List.map_cons, ih, h]
  exact hfrom message.toolEntries 0

/-- The pieces of an Anthropic message, whatever order its blocks have. -/
theorem anthropicPieces_blocks (role : String) (blocks : List Value) :
    anthropicPieces (.object [("role", .string role), ("content", .array blocks)]) =
      if blocks = [] then [.text role ""] else blocks.map (anthropicBlock role) := by
  cases blocks with
  | nil => rfl
  | cons block blocks => exact (if_neg (List.cons_ne_nil _ _)).symm

theorem toolUse_piece (role : String) (entry : Entry) (idx : Nat) :
    anthropicBlock role (toolUse parse (entryCall entry idx)) =
      asAnthropic parse (recordedCall parse entry) := by
  have hinput : (parse ((entry.functionStr "arguments").getD "\x7b\x7d")).getD (.object []) =
      inputValue parse ((entry.functionStr "arguments").map (readArguments parse)) := by
    cases entry.functionStr "arguments" with
    | none => rfl
    | some text =>
      rw [Option.getD_some, Option.map_some, readArguments]
      cases parse text <;> rfl
  show Piece.call (some (entry.idStr.getD "")) _ _ = _
  rw [recordedCall, asAnthropic, ← hinput]
  rfl

theorem map_spoken {f : Piece → Piece} (hf : ∀ role text, f (.text role text) = .text role text)
    (role text : String) (calls : List Piece) :
    (spoken role text calls).map f = spoken role text (calls.map f) := by
  rw [spoken, spoken, List.isEmpty_map]
  split
  · rfl
  · rw [List.map_cons, hf]

/-- The blocks of a message that is neither a system message nor the result of a tool. -/
theorem blocks_spoken (role text : String) (calls : List Value) :
    anthropicPieces (.object [("role", .string role),
        ("content", .array (textBlocks text ++ calls))]) =
      spoken role text (calls.map (anthropicBlock role)) := by
  rw [anthropicPieces_blocks, textBlocks, spoken]
  by_cases htext : text = ""
  · rw [if_pos htext, List.nil_append, htext]
    cases calls with
    | nil => rfl
    | cons call calls =>
      rw [if_neg (List.cons_ne_nil _ _), if_pos ⟨rfl, rfl⟩]
  · rw [if_neg htext, if_neg (by simp), if_neg fun hboth => htext hboth.1]
    rfl

theorem anthropicPieces_serialized (hsystem : message.textAt "role" ≠ "system") :
    ((serializeAnthropicMessage parse message).toList.flatMap anthropicPieces) =
      (recorded parse message).map (asAnthropic parse) := by
  rw [serializeAnthropicMessage, recorded, if_neg hsystem]
  by_cases htool : message.textAt "role" = "tool"
  · rw [if_pos htool, if_pos htool]
    rfl
  · rw [if_neg htool, if_neg htool, Option.toList_some, List.flatMap_singleton, blocks_spoken,
      map_spoken fun _ _ => rfl, recordedCalls]
    congr 1
    split
    · rw [List.map_map, List.map_map]
      exact toolEntries_calls _ _ (fun entry idx => toolUse_piece _ entry idx) message
    · rfl

theorem inputText_piece (role kind text : String) :
    responsesPiece parse (inputText role kind text) = .text role text := by
  have htype : strField "type" (inputText role kind text) = none := rfl
  have htext : fieldText "content" (inputText role kind text) = join [text] := rfl
  rw [responsesPiece, htype, if_neg (by simp), if_neg (by simp), htext, String.join_cons,
    String.join_nil, append_empty]
  rfl

theorem functionCall_piece (entry : Entry) (idx : Nat) :
    responsesPiece parse (functionCallEntry (entryCall entry idx)) =
      asResponses parse (recordedCall parse entry) := by
  have harguments :
      readArguments parse ((entry.functionStr "arguments").getD "\x7b\x7d") =
        ((entry.functionStr "arguments").map (readArguments parse)).getD
          (readArguments parse "\x7b\x7d") := by
    cases entry.functionStr "arguments" <;> rfl
  show Piece.call (some (entry.idStr.getD "")) _ _ = _
  rw [recordedCall, asResponses, ← harguments]
  rfl

theorem functionCalls_pieces (message : Message) :
    ((assistantToolCallsFromMessage message).map functionCallEntry).map (responsesPiece parse) =
      (message.toolEntries.map (recordedCall parse)).map (asResponses parse) := by
  rw [List.map_map, List.map_map]
  exact toolEntries_calls _ _ functionCall_piece message

/-- The entries of an assistant's message: its calls, and its text if it has one. -/
theorem inputOf_assistant (h : message.textAt "role" = "assistant") :
    (inputOf message).map (responsesPiece parse) =
      (message.toolEntries.map (recordedCall parse)).map (asResponses parse) ++
        if message.textAt "content" = "" then []
        else [.text "assistant" (message.textAt "content")] := by
  rw [inputOf, h, if_neg (by decide), if_neg (by decide), if_pos rfl, List.map_append,
    functionCalls_pieces]
  split
  · rfl
  · rw [List.map_singleton, inputText_piece]

theorem recorded_assistant (h : message.textAt "role" = "assistant") :
    (recorded parse message).map (asResponses parse) =
      spoken "assistant" (message.textAt "content")
        ((message.toolEntries.map (recordedCall parse)).map (asResponses parse)) := by
  rw [recorded, recordedCalls, h, if_neg (by decide), if_pos rfl]
  exact map_spoken (fun _ _ => rfl) _ _ _

theorem inputOf_part (message : Message) :
    ResponsesPart parse message ((inputOf message).map (responsesPiece parse)) := by
  by_cases huser : message.textAt "role" = "user"
  · have hpiece : (inputOf message).map (responsesPiece parse) =
        (recorded parse message).map (asResponses parse) := by
      rw [inputOf, recorded, recordedCalls, huser, if_neg (by decide), if_pos rfl,
        if_neg (by decide), if_neg (by decide), List.map_singleton, inputText_piece, spoken,
        if_neg (by simp)]
      rfl
    exact ⟨fun _ => .of_eq hpiece, fun hout => absurd (.inl huser) hout⟩
  · by_cases htool : message.textAt "role" = "tool"
    · have hpiece : (inputOf message).map (responsesPiece parse) =
          (recorded parse message).map (asResponses parse) := by
        rw [inputOf, recorded, htool, if_neg (by decide), if_neg (by decide), if_neg (by decide),
          if_pos rfl, if_pos rfl]
        rfl
      exact ⟨fun _ => .of_eq hpiece, fun hout => absurd (.inr (.inl htool)) hout⟩
    · by_cases hassistant : message.textAt "role" = "assistant"
      · refine ⟨fun hin => ?_, fun hout => ?_⟩
        · rw [inputOf_assistant hassistant, recorded_assistant hassistant]
          by_cases htext : message.textAt "content" = ""
          · have hcalls : message.toolEntries ≠ [] := by
              rcases hin with hin | hin | ⟨-, hin⟩
              · exact absurd hin huser
              · exact absurd hin htool
              · exact hin.resolve_left fun hne => hne htext
            rw [if_pos htext, List.append_nil, spoken, if_pos ⟨htext, by simpa using hcalls⟩]
          · rw [if_neg htext, spoken, if_neg fun hboth => htext hboth.1]
            exact List.perm_append_singleton _ _
        · have hempty : message.textAt "content" = "" ∧ message.toolEntries = [] := by
            by_contra hsome
            rw [not_and_or] at hsome
            exact hout (.inr (.inr ⟨hassistant, hsome⟩))
          rw [inputOf_assistant hassistant, hempty.1, hempty.2]
          rfl
      · have hnone : inputOf message = [] := by
          simp [inputOf, huser, htool, hassistant]
        refine ⟨fun hin => ?_, fun _ => by rw [hnone]; rfl⟩
        rcases hin with hin | hin | ⟨hin, -⟩
        · exact absurd hin huser
        · exact absurd hin htool
        · exact absurd hin hassistant

theorem within_join {sep part : String} {parts : List String} (h : part ∈ parts) :
    part.toList <:+: (join sep parts).toList := by
  induction parts with
  | nil => cases h
  | cons first parts ih =>
    cases parts with
    | nil =>
      obtain rfl := List.mem_singleton.mp h
      exact List.infix_rfl
    | cons second parts =>
      rw [join.eq_3 _ _ _ (List.cons_ne_nil _ _), toList_append, toList_append]
      rcases List.mem_cons.mp h with rfl | h
      · rw [List.append_assoc]
        exact (List.prefix_append _ _).isInfix
      · exact (ih h).trans (List.suffix_append _ _).isInfix

theorem within_instructions (hmessage : message ∈ messages) (hrole : message.textAt "role" = "system")
    (htext : Text.trim (message.textAt "content") ≠ "") :
    (Text.trim (message.textAt "content")).toList <:+:
      (buildResponsesPayload messages).instructions.toList := by
  have hpart : Text.trim (message.textAt "content") ∈ messages.filterMap instructionOf :=
    List.mem_filterMap.mpr ⟨message, hmessage, by rw [instructionOf, if_pos hrole, if_neg htext]⟩
  have hsome : (messages.filterMap instructionOf).isEmpty = false := by
    rw [List.isEmpty_eq_false_iff]
    exact List.ne_nil_of_mem hpart
  rw [buildResponsesPayload]
  dsimp only
  rw [hsome]
  exact within_join hpart

theorem within_systemPrompt (hmessage : message ∈ messages) (hrole : message.textAt "role" = "system")
    (hreminder : shouldForwardSystemMessage (message.textAt "content") = true) :
    (message.textAt "content").toList <:+: (extractSystemPrompt messages).toList := by
  refine within_join (List.mem_cons_of_mem _ (List.mem_filterMap.mpr ⟨message, hmessage, ?_⟩))
  rw [systemPart, if_neg (fun hne => hne hrole), if_pos hreminder]

theorem anthropicPieces_messages (messages : Conversation) :
    (serializeAnthropicMessages parse messages).flatMap anthropicPieces =
      ((messages.filter fun message => decide (message.textAt "role" ≠ "system")).flatMap
        (recorded parse)).map (asAnthropic parse) := by
  induction messages with
  | nil => rfl
  | cons message messages ih =>
    rw [serializeAnthropicMessages, List.filterMap_cons, List.filter_cons]
    by_cases hsystem : message.textAt "role" = "system"
    · have hnone : serializeAnthropicMessage parse message = none := if_pos hsystem
      rw [hnone, if_neg (by simpa using hsystem)]
      exact ih
    · have hpieces := @anthropicPieces_serialized message parse hsystem
      rw [if_pos (decide_eq_true hsystem), List.flatMap_cons, List.map_append, ← hpieces, ← ih]
      cases serializeAnthropicMessage parse message with
      | none => rfl
      | some value =>
        rw [Option.toList_some, List.flatMap_singleton]
        rfl

/-- A question that is answered with a call. -/
def question : Conversation :=
  [[("role", .text "system"), ("content", .text "Be brief.")],
    [("role", .text "user"), ("content", .entries [[("type", .string "text"),
      ("text", .string "What is here?")]])],
    [("role", .text "assistant"), ("content", .text "I look."), ("function", .entries
      [[("id", .string "call-0"), ("function", .object [("name", .string "list_files"),
        ("arguments", .string "\x7b\x7d")])]])],
    [("role", .text "tool"), ("content", .text "src"), ("tool_call_id", .text "call-0")]]

def parseEmpty (text : String) : Option Value :=
  if text = "\x7b\x7d" then some (.object []) else none

end ColossalCode.Backend
