import ColossalCode.Agent.Messages

/-! A conversation as JSON: how it is exported and what is read back of it. -/
namespace ColossalCode.Agent
open List Option Conversation

open Protocol (Value)

/-- The content of a message is written with the name of its side. -/
def MessageContent.serialized : MessageContent → Value
  | .text content => .object [("Left", .string content)]
  | .entries parts => .object [("Right", .array (parts.map .object))]

def Message.serialized (message : Message) : Value :=
  .object (message.map fun (key, content) => (key, content.serialized))

def roleFromStr (role : String) : TextMessageRole :=
  if role = "system" then .system
  else if role = "user" then .user
  else if role = "assistant" then .assistant
  else if role = "tool" then .tool
  else .custom role

def valueLeftStr (value : Value) : Option String :=
  value.asStr.or ((value.get "Left").bind Value.asStr)

def messageLeftStr (message : Value) (key : String) : Option String :=
  (message.get key).bind valueLeftStr

def messageRight (message : Value) (key : String) : Option Value :=
  (message.get key).map fun value => (value.get "Right").getD value

def parseToolCall (entry : Value) (index : Nat) : Option ToolCallResponse := do
  let id ← (← entry.get "id").asStr
  let function ← entry.get "function"
  let name ← (← function.get "name").asStr
  let arguments ← (← function.get "arguments").asStr
  some ⟨index, id, ⟨name, arguments⟩⟩

def parseToolCalls (value : Value) : List ToolCallResponse :=
  (value.asArray.getD []).zipIdx.filterMap fun (entry, index) => parseToolCall entry index

/-- The result of a tool, with the id of its call. -/
def toolAnswer (message : Value) : Option (String × String) := do
  let content ← messageLeftStr message "content"
  let toolCallId ← messageLeftStr message "tool_call_id"
  some (content, toolCallId)

def readToolCalls (message : Value) : List ToolCallResponse :=
  (((messageRight message "tool_calls").or (messageRight message "function")).map
    parseToolCalls).getD []

/-- The loop of `request_builder_from_serialized_messages`, for a message that has a role. -/
def addSerialized (messages : Conversation) (roleName : String) (message : Value) : Conversation :=
  match if roleName = "tool" then toolAnswer message else none with
  | some (content, toolCallId) => messages.addToolMessage content toolCallId
  | none =>
    let contentText := (messageLeftStr message "content").getD ""
    if (readToolCalls message).isEmpty then
      if roleName = "system" ∨ contentText ≠ "" then
        messages.addMessage (roleFromStr roleName) contentText
      else messages
    else
      messages.addMessageWithToolCall (roleFromStr roleName) contentText (readToolCalls message)

/-- `skips` says that the next system message is left out. -/
def readMessages : Bool → Conversation → List Value → Conversation
  | _, messages, [] => messages
  | skips, messages, message :: rest =>
    match messageLeftStr message "role" with
    | none => readMessages skips messages rest
    | some roleName =>
      if roleName = "system" ∧ skips = true then readMessages false messages rest
      else readMessages skips (addSerialized messages roleName message) rest

inductive ToolChoice where
  | none
  | auto

/-- The fields of a request builder that are set here; `τ` are the tools. -/
structure RequestBuilder (τ : Type) where
  messages : Conversation
  tools : List τ
  toolChoice : ToolChoice
  enableThinking : Option Bool

variable {τ : Type}

def requestBuilderFromSerializedMessages (messages : List Value) (tools : List τ)
    (replacementSystemPrompt : Option String) : RequestBuilder τ where
  messages := readMessages replacementSystemPrompt.isSome
    ((replacementSystemPrompt.map fun prompt => addMessage [] .system prompt).getD [])
    messages
  tools := tools
  toolChoice := .auto
  enableThinking := some true

def rebuildRequestBuilder (existing : RequestBuilder τ) (systemPrompt : String) (tools : List τ)
    (reminder : Option String) : RequestBuilder τ :=
  let builder := requestBuilderFromSerializedMessages (existing.messages.map Message.serialized)
    tools (some systemPrompt)
  match reminder with
  | some reminder => { builder with messages := builder.messages.addMessage .system reminder }
  | none => builder

section Json

variable (print : Value → String) (parse : String → Option Value)

/-- `export_conversation`; `print` stands for the JSON printer. -/
def exportConversation (messages : Conversation) : Option String :=
  if messages.isEmpty then none else some (print (.array (messages.map Message.serialized)))

/-- `restore_conversation`, with a replacement `restore_conversation_with_replaced_system_prompt`;
`parse` stands for the JSON parser. -/
def restoreConversation (tools : List τ) (replacementSystemPrompt : Option String)
    (messagesJson : String) : Option (RequestBuilder τ) :=
  ((parse messagesJson).bind Value.asArray).map fun messages =>
    requestBuilderFromSerializedMessages messages tools replacementSystemPrompt

end Json

/-- A value as it is read after it was printed: the keys of an object may have another order. -/
inductive Reads : Value → Value → Prop
  | null : Reads .null .null
  | bool (b : Bool) : Reads (.bool b) (.bool b)
  | number (literal : String) : Reads (.number literal) (.number literal)
  | string (s : String) : Reads (.string s) (.string s)
  | array {items items' : List Value} : List.Forall₂ Reads items items' →
      Reads (.array items) (.array items')
  | object {fields fields' : List (String × Value)} :
      (∀ key, Option.Rel Reads (fields.lookup key) (fields'.lookup key)) →
      Reads (.object fields) (.object fields')

mutual

theorem Reads.refl : ∀ value, Reads value value
  | .null => .null
  | .bool b => .bool b
  | .number literal => .number literal
  | .string s => .string s
  | .array items => .array (reads_items items)
  | .object fields => .object (reads_fields fields)

theorem reads_items : ∀ items, List.Forall₂ Reads items items
  | [] => .nil
  | item :: items => .cons (Reads.refl item) (reads_items items)

theorem reads_fields : ∀ (fields : List (String × Value)) (key : String),
    Option.Rel Reads (fields.lookup key) (fields.lookup key)
  | [], _ => .none
  | (name, value) :: fields, key => by
    rw [lookup_cons]
    split
    · exact .some (Reads.refl value)
    · exact reads_fields fields key

end

/-- What the agent adds to a conversation. -/
inductive Utterance where
  | said (role : TextMessageRole) (text : String)
  | called (text : String) (calls : List ToolCallResponse)
  | returned (content toolCallId : String)

def Utterance.message : Utterance → Message
  | .said role text => [("role", .text role.toString), ("content", .text text)]
  | .called text calls => [("role", .text "assistant"), ("content", .text text),
      ("function", .entries (calls.map toolEntry))]
  | .returned content toolCallId => [("role", .text "tool"), ("content", .text content),
      ("tool_call_id", .text toolCallId)]

/-- One of the roles that the agent gives to a text. -/
def Utterance.Plain : Utterance → Prop
  | .said role _ => role = .system ∨ role = .user ∨ role = .assistant
  | _ => True

/-- How an utterance is restored; what has neither a text nor a call is left out. -/
def Utterance.restored : Utterance → List Utterance
  | .said .system text => [.said .system text]
  | .said role text => if text = "" then [] else [.said role text]
  | .called text [] => if text = "" then [] else [.said .assistant text]
  | .called text calls => [.called text calls]
  | .returned content toolCallId => [.returned content toolCallId]

def Utterance.isSystem : Utterance → Bool
  | .said .system _ => true
  | _ => false

variable {u : Utterance} {us : List Utterance} {messages : Conversation}

theorem roleFromStr_toString {role : TextMessageRole}
    (h : role = .system ∨ role = .user ∨ role = .assistant) : roleFromStr role.toString = role := by
  rcases h with rfl | rfl | rfl <;> rfl

theorem parseToolCalls_entries (calls : List ToolCallResponse) :
    parseToolCalls (.array ((calls.map toolEntry).map .object)) =
      calls.zipIdx.map fun (call, index) => { call with index := index } := by
  have hparse (call : ToolCallResponse) (index : Nat) :
      parseToolCall (.object (toolEntry call)) index =
        some { call with index := index } := rfl
  have hfrom : ∀ (calls : List ToolCallResponse) (n : Nat),
      (((calls.map toolEntry).map Value.object).zipIdx n).filterMap
        (fun (entry, index) => parseToolCall entry index) =
          (calls.zipIdx n).map fun (call, index) => { call with index := index } := by
    intro calls
    induction calls with
    | nil => exact fun _ => rfl
    | cons call calls ih =>
      intro n
      simp only [map_cons, zipIdx_cons, filterMap_cons, hparse, ih]
  exact hfrom calls 0

/-- The place of a call among the others is not written. -/
theorem entries_of_numbered (calls : List ToolCallResponse) :
    (calls.zipIdx.map fun (call, index) => { call with index := index }).map
      toolEntry = calls.map toolEntry := by
  have hfrom : ∀ (calls : List ToolCallResponse) (n : Nat),
      ((calls.zipIdx n).map fun (call, index) => { call with index := index }).map
        toolEntry = calls.map toolEntry := by
    intro calls
    induction calls with
    | nil => exact fun _ => rfl
    | cons call calls ih =>
      intro n
      simp only [zipIdx_cons, map_cons, ih]
      rfl
  exact hfrom calls 0

/-- What is read of a message that is not the result of a tool. -/
theorem addSerialized_plain {roleName : String} {message : Value} {calls : List ToolCallResponse}
    {text : String} (hrole : roleName ≠ "tool") (hcalls : readToolCalls message = calls)
    (htext : messageLeftStr message "content" = some text) (messages : Conversation) :
    addSerialized messages roleName message =
      if calls = [] then
        if roleName = "system" ∨ text ≠ "" then messages.addMessage (roleFromStr roleName) text
        else messages
      else messages.addMessageWithToolCall (roleFromStr roleName) text calls := by
  rw [addSerialized, if_neg hrole]
  dsimp only
  rw [hcalls, htext, Option.getD_some]
  simp only [List.isEmpty_iff]

theorem addSerialized_said {role : TextMessageRole}
    (h : role = .system ∨ role = .user ∨ role = .assistant) (text : String)
    (messages : Conversation) :
    addSerialized messages role.toString (Utterance.said role text).message.serialized =
      messages ++ (Utterance.said role text).restored.map Utterance.message := by
  have htool : role.toString ≠ "tool" := by rcases h with rfl | rfl | rfl <;> decide
  have hcalls : readToolCalls (Utterance.said role text).message.serialized = [] := rfl
  have htext : messageLeftStr (Utterance.said role text).message.serialized "content" =
      some text := rfl
  rw [addSerialized_plain htool hcalls htext, if_pos rfl, roleFromStr_toString h]
  rcases h with rfl | rfl | rfl
  · rfl
  · by_cases hempty : text = "" <;>
      simp [hempty, TextMessageRole.toString, Utterance.restored, Utterance.message,
        addMessage]
  · by_cases hempty : text = "" <;>
      simp [hempty, TextMessageRole.toString, Utterance.restored, Utterance.message,
        addMessage]

theorem addSerialized_called (text : String) (calls : List ToolCallResponse)
    (messages : Conversation) :
    addSerialized messages "assistant" (Utterance.called text calls).message.serialized =
      messages ++ (Utterance.called text calls).restored.map Utterance.message := by
  have hcalls : readToolCalls (Utterance.called text calls).message.serialized =
      parseToolCalls (.array ((calls.map toolEntry).map .object)) := rfl
  have htext : messageLeftStr (Utterance.called text calls).message.serialized "content" =
      some text := rfl
  rw [addSerialized_plain (by decide) (hcalls.trans (parseToolCalls_entries calls)) htext]
  cases calls with
  | nil =>
    have hnone : ([] : List ToolCallResponse).zipIdx.map
        (fun (call, index) => { call with index := index }) = [] := rfl
    rw [hnone, if_pos rfl]
    by_cases hempty : text = "" <;>
      simp [hempty, roleFromStr, TextMessageRole.toString, Utterance.restored, Utterance.message,
        addMessage]
  | cons call calls =>
    rw [if_neg (by simp), addMessageWithToolCall, entries_of_numbered]
    rfl

/-- An utterance is read back as it is restored. -/
theorem addSerialized_message (h : u.Plain) (messages : Conversation) : ∃ roleName,
    messageLeftStr u.message.serialized "role" = some roleName ∧
      (roleName = "system" ↔ u.isSystem = true) ∧
        addSerialized messages roleName u.message.serialized =
          messages ++ u.restored.map Utterance.message := by
  cases u with
  | said role text =>
    refine ⟨role.toString, rfl, ?_, addSerialized_said h text messages⟩
    rcases h with rfl | rfl | rfl <;> simp [TextMessageRole.toString, Utterance.isSystem]
  | called text calls =>
    exact ⟨"assistant", rfl, by simp [Utterance.isSystem], addSerialized_called text calls messages⟩
  | returned content toolCallId => exact ⟨"tool", rfl, by simp [Utterance.isSystem], rfl⟩

theorem readMessages_restored (h : ∀ u ∈ us, u.Plain) (messages : Conversation) :
    readMessages false messages (us.map fun u => u.message.serialized) =
      messages ++ (us.flatMap Utterance.restored).map Utterance.message := by
  induction us generalizing messages with
  | nil => simp [readMessages]
  | cons u us ih =>
    obtain ⟨hu, hus⟩ := forall_mem_cons.mp h
    obtain ⟨roleName, hrole, -, hadd⟩ := addSerialized_message hu messages
    rw [map_cons, readMessages, hrole]
    dsimp only
    rw [if_neg (by simp), hadd, ih hus, flatMap_cons, map_append, append_assoc]

/-- The first system message is left out. -/
theorem readMessages_replaced (h : ∀ u ∈ us, u.Plain) (messages : Conversation) :
    readMessages true messages (us.map fun u => u.message.serialized) =
      messages ++ ((us.eraseP Utterance.isSystem).flatMap Utterance.restored).map
        Utterance.message := by
  induction us generalizing messages with
  | nil => simp [readMessages]
  | cons u us ih =>
    obtain ⟨hu, hus⟩ := forall_mem_cons.mp h
    obtain ⟨roleName, hrole, hsystem, hadd⟩ := addSerialized_message hu messages
    rw [map_cons, readMessages, hrole]
    dsimp only
    by_cases hu : u.isSystem = true
    · rw [if_pos ⟨hsystem.mpr hu, rfl⟩, readMessages_restored hus, eraseP_cons_of_pos hu]
    · rw [if_neg fun hskip => hu (hsystem.mp hskip.1), hadd, ih hus, eraseP_cons_of_neg hu,
        flatMap_cons, map_append, append_assoc]

theorem restored_plain (h : u.Plain) : ∀ v ∈ u.restored, v.Plain := by
  intro v hv
  cases u with
  | said role text =>
    rcases h with rfl | rfl | rfl <;> simp [Utterance.restored] at hv
    · subst hv
      exact Or.inl rfl
    · obtain ⟨-, rfl⟩ := hv
      exact Or.inr (Or.inl rfl)
    · obtain ⟨-, rfl⟩ := hv
      exact Or.inr (Or.inr rfl)
  | called text calls =>
    cases calls with
    | nil =>
      simp [Utterance.restored] at hv
      obtain ⟨-, rfl⟩ := hv
      exact Or.inr (Or.inr rfl)
    | cons call calls =>
      obtain rfl := mem_singleton.mp hv
      trivial
  | returned content toolCallId =>
    obtain rfl := mem_singleton.mp hv
    trivial

/-- What has been restored is restored as it is. -/
theorem restored_again (h : u.Plain) : u.restored.flatMap Utterance.restored = u.restored := by
  cases u with
  | said role text =>
    rcases h with rfl | rfl | rfl
    · rfl
    · by_cases hempty : text = "" <;> simp [Utterance.restored, hempty]
    · by_cases hempty : text = "" <;> simp [Utterance.restored, hempty]
  | called text calls =>
    cases calls with
    | nil => by_cases hempty : text = "" <;> simp [Utterance.restored, hempty]
    | cons call calls => rfl
  | returned content toolCallId => rfl

theorem flatMap_restored_again (h : ∀ u ∈ us, u.Plain) :
    (us.flatMap Utterance.restored).flatMap Utterance.restored = us.flatMap Utterance.restored := by
  rw [flatMap_assoc]
  exact flatMap_congr fun u hu => restored_again (h u hu)

theorem flatMap_restored_plain (h : ∀ u ∈ us, u.Plain) :
    ∀ u ∈ us.flatMap Utterance.restored, u.Plain := by
  intro v hv
  obtain ⟨u, hu, hv⟩ := mem_flatMap.mp hv
  exact restored_plain (h u hu) v hv

theorem rel_cases {α : Type} {r : α → α → Prop} {x y : Option α} (h : Option.Rel r x y) :
    (x = none ∧ y = none) ∨ ∃ a b, x = some a ∧ y = some b ∧ r a b := by
  cases h with
  | none => exact Or.inl ⟨rfl, rfl⟩
  | some h => exact Or.inr ⟨_, _, rfl, rfl, h⟩

namespace Reads

variable {value value' : Value} {messages messages' : List Value}

theorem asStr (h : Reads value value') : value.asStr = value'.asStr := by
  cases h <;> rfl

theorem get (h : Reads value value') (key : String) :
    Option.Rel Reads (value.get key) (value'.get key) := by
  cases h with
  | object hfields => exact hfields key
  | null | bool | number | string | array => exact .none

theorem items (h : Reads value value') :
    List.Forall₂ Reads (value.asArray.getD []) (value'.asArray.getD []) := by
  cases h with
  | array hitems => exact hitems
  | null | bool | number | string | object => exact .nil

/-- What is read at a key is the same if it is read alike of what stands there. -/
theorem bind_get {α : Type} {f : Value → Option α} (h : Reads value value') (key : String)
    (hf : ∀ v v', Reads v v' → f v = f v') :
    (value.get key).bind f = (value'.get key).bind f := by
  obtain ⟨hv, hv'⟩ | ⟨v, v', hv, hv', hread⟩ := rel_cases (h.get key)
  · rw [hv, hv', bind_none]
  · rw [hv, hv']
    exact hf v v' hread

theorem valueLeftStr (h : Reads value value') :
    Agent.valueLeftStr value = Agent.valueLeftStr value' := by
  rw [Agent.valueLeftStr, Agent.valueLeftStr, h.asStr, h.bind_get "Left" fun _ _ h => h.asStr]

theorem messageLeftStr (h : Reads value value') (key : String) :
    Agent.messageLeftStr value key = Agent.messageLeftStr value' key :=
  h.bind_get key fun _ _ h => h.valueLeftStr

theorem messageRight (h : Reads value value') (key : String) :
    Option.Rel Reads (Agent.messageRight value key) (Agent.messageRight value' key) := by
  rw [Agent.messageRight, Agent.messageRight]
  obtain ⟨hv, hv'⟩ | ⟨v, v', hv, hv', hread⟩ := rel_cases (h.get key)
  · rw [hv, hv']
    exact .none
  · rw [hv, hv']
    refine .some ?_
    dsimp only
    obtain ⟨hw, hw'⟩ | ⟨w, w', hw, hw', hright⟩ := rel_cases (hread.get "Right")
    · rwa [hw, hw']
    · rwa [hw, hw']

theorem parseToolCall (h : Reads value value') (index : Nat) :
    Agent.parseToolCall value index = Agent.parseToolCall value' index := by
  have hstr {v v' : Value} (h : Reads v v') (key : String) :
      (v.get key).bind Value.asStr = (v'.get key).bind Value.asStr :=
    h.bind_get key fun _ _ h => h.asStr
  have hread (v : Value) : Agent.parseToolCall v index =
      ((v.get "id").bind Value.asStr).bind fun id => (v.get "function").bind fun function =>
        ((function.get "name").bind Value.asStr).bind fun name =>
          ((function.get "arguments").bind Value.asStr).bind fun arguments =>
            some ⟨index, id, ⟨name, arguments⟩⟩ := by
    rw [Agent.parseToolCall]
    simp only [bind_assoc]
    rfl
  rw [hread, hread, hstr h]
  congr 1
  funext id
  refine h.bind_get "function" fun function function' hfunction => ?_
  rw [hstr hfunction, hstr hfunction]

theorem parseToolCalls (h : Reads value value') :
    Agent.parseToolCalls value = Agent.parseToolCalls value' := by
  have hfrom : ∀ {items items' : List Value} (n : Nat), List.Forall₂ Reads items items' →
      (items.zipIdx n).filterMap (fun (entry, index) => Agent.parseToolCall entry index) =
        (items'.zipIdx n).filterMap (fun (entry, index) => Agent.parseToolCall entry index) := by
    intro items items' n hitems
    induction hitems generalizing n with
    | nil => rfl
    | cons hentry _ ih =>
      rw [zipIdx_cons, zipIdx_cons, filterMap_cons, filterMap_cons, ih]
      simp only [hentry.parseToolCall n]
  exact hfrom 0 h.items

theorem readToolCalls (h : Reads value value') :
    Agent.readToolCalls value = Agent.readToolCalls value' := by
  rw [Agent.readToolCalls, Agent.readToolCalls]
  obtain ⟨hv, hv'⟩ | ⟨v, v', hv, hv', hread⟩ := rel_cases (h.messageRight "tool_calls")
  · obtain ⟨hw, hw'⟩ | ⟨w, w', hw, hw', hread⟩ := rel_cases (h.messageRight "function")
    · rw [hv, hv', hw, hw']
    · rw [hv, hv', hw, hw']
      exact hread.parseToolCalls
  · rw [hv, hv']
    exact hread.parseToolCalls

theorem addSerialized (h : Reads value value') (conversation : Conversation) (roleName : String) :
    Agent.addSerialized conversation roleName value =
      Agent.addSerialized conversation roleName value' := by
  have hanswer : toolAnswer value = toolAnswer value' := by
    rw [toolAnswer, toolAnswer, h.messageLeftStr, h.messageLeftStr]
  rw [Agent.addSerialized, Agent.addSerialized, hanswer, h.messageLeftStr, h.readToolCalls]

theorem readMessages (h : List.Forall₂ Reads messages messages') (skips : Bool)
    (conversation : Conversation) :
    Agent.readMessages skips conversation messages =
      Agent.readMessages skips conversation messages' := by
  induction h generalizing skips conversation with
  | nil => rfl
  | cons hmessage _ ih =>
    rw [Agent.readMessages, Agent.readMessages, hmessage.messageLeftStr]
    simp only [hmessage.addSerialized, ih]

theorem requestBuilder (h : Reads (.array messages) (.array messages')) (tools : List τ)
    (replacementSystemPrompt : Option String) :
    requestBuilderFromSerializedMessages messages tools replacementSystemPrompt =
      requestBuilderFromSerializedMessages messages' tools replacementSystemPrompt := by
  cases h with
  | array h =>
    rw [requestBuilderFromSerializedMessages, requestBuilderFromSerializedMessages, readMessages h]

end Reads

end ColossalCode.Agent
