import ColossalCode.ModelServer.Faces
import Mathlib.Data.List.Forall2
import Mathlib.Data.List.TakeWhile

/-! Chat messages as they are handed to the engine. The conversion of a message does not fail. -/
namespace ColossalCode.ModelServer
open List Option Text

open Agent (Entry Message MessageContent)
open Faces (ToolCall)
open Protocol (Value)

inductive MessageRole where
  | system
  | user
  | assistant
  | tool

inductive ChatContent where
  | text (text : String)
  | image (data mimeType : String)
  | imageUrl (url : String)
  deriving DecidableEq

structure ChatMessage where
  role : MessageRole
  content : List ChatContent
  toolCalls : List ToolCall
  name : Option String
  toolCallId : Option String

def roleAsStr : MessageRole → String
  | .system => "system"
  | .user => "user"
  | .assistant => "assistant"
  | .tool => "tool"

def imagePart (url : String) : Entry :=
  [("type", .string "image_url"), ("image_url", .object [("url", .string url)])]

def textPart (text : String) : Entry := [("type", .string "text"), ("text", .string text)]

/-- What the loop over the parts of a message has collected. -/
structure Collected where
  urls : List String
  textParts : List String
  structuredParts : List Entry
  hasMedia : Bool

def Collected.media (c : Collected) (url : String) : Collected :=
  { c with
    hasMedia := true
    urls := c.urls ++ [url]
    structuredParts := c.structuredParts ++ [imagePart url] }

def Collected.push (c : Collected) : ChatContent → Collected
  | .text text =>
    if c.hasMedia then { c with structuredParts := c.structuredParts ++ [textPart text] }
    else { c with textParts := c.textParts ++ [text] }
  | .image data mimeType => c.media ("data:" ++ mimeType ++ ";base64," ++ data)
  | .imageUrl url => c.media url

/-- The separator of the first texts is a backslash and an `n` where there is an image, and a line
feed where there is none. -/
def Collected.finish (c : Collected) : MessageContent × List String :=
  if c.hasMedia then
    (.entries (if c.textParts.isEmpty then c.structuredParts
      else c.structuredParts ++ [textPart (join "\\n" c.textParts)]), c.urls)
  else (.text (join "\n" c.textParts), c.urls)

def convertMessageContent (content : List ChatContent) : MessageContent × List String :=
  if content.isEmpty then (.text "", [])
  else (content.foldl Collected.push ⟨[], [], [], false⟩).finish

section Messages

variable (print : Value → String)

def toolCallEntry (call : ToolCall) : Entry :=
  [("id", .string call.id), ("type", .string "function"),
    ("function", .object [("name", .string call.name),
      ("arguments", .string (print call.arguments))])]

def ChatMessage.convert (message : ChatMessage) : Message :=
  [("role", .text (roleAsStr message.role)),
    ("content", (convertMessageContent message.content).1)] ++
    (message.name.map fun name => ("name", MessageContent.text name)).toList ++
    (message.toolCallId.map fun id => ("tool_call_id", MessageContent.text id)).toList ++
    if message.toolCalls.isEmpty then []
    else [("function", .entries (message.toolCalls.map (toolCallEntry print)))]

def convertChatMessages (messages : List ChatMessage) : List Message × List String :=
  messages.foldl (fun (converted, imageUrls) message =>
    (converted ++ [message.convert print],
      imageUrls ++ (convertMessageContent message.content).2)) ([], [])

end Messages

def ChatContent.isText : ChatContent → Bool
  | .text _ => true
  | _ => false

def ChatContent.words : ChatContent → Option String
  | .text words => some words
  | _ => none

def ChatContent.url : ChatContent → Option String
  | .text _ => none
  | .image data mimeType => some ("data:" ++ mimeType ++ ";base64," ++ data)
  | .imageUrl url => some url

/-- A part by itself. -/
def ChatContent.part : ChatContent → Entry
  | .text words => textPart words
  | .image data mimeType => imagePart ("data:" ++ mimeType ++ ";base64," ++ data)
  | .imageUrl url => imagePart url

variable {content first rest : List ChatContent} {c : Collected} {url : String}
  {print : Value → String}

theorem collected_texts (h : ∀ part ∈ first, part.isText = true) (hmedia : c.hasMedia = false) :
    first.foldl Collected.push c = { c with textParts := c.textParts ++ first.filterMap (·.words) } := by
  induction first generalizing c with
  | nil => simp
  | cons part first ih =>
    cases part with
    | text text =>
      have hpush : c.push (.text text) = { c with textParts := c.textParts ++ [text] } := by
        simp [Collected.push, hmedia]
      have hrest := ih (c := { c with textParts := c.textParts ++ [text] })
        (fun part hpart => h part (mem_cons_of_mem _ hpart)) hmedia
      rw [foldl_cons, hpush, hrest]
      simp [ChatContent.words]
    | image data mimeType => cases h _ mem_cons_self
    | imageUrl url => cases h _ mem_cons_self

theorem collected_rest (hmedia : c.hasMedia = true) (rest : List ChatContent) :
    rest.foldl Collected.push c = { c with
      urls := c.urls ++ rest.filterMap (·.url)
      structuredParts := c.structuredParts ++ rest.map (·.part) } := by
  induction rest generalizing c with
  | nil => simp
  | cons part rest ih =>
    rw [foldl_cons]
    cases part with
    | text text =>
      have hpush : c.push (.text text) =
          { c with structuredParts := c.structuredParts ++ [textPart text] } := by
        simp [Collected.push, hmedia]
      have hrest :=
        ih (c := { c with structuredParts := c.structuredParts ++ [textPart text] }) hmedia
      rw [hpush, hrest]
      simp [ChatContent.url, ChatContent.part]
    | image data mimeType =>
      rw [Collected.push, ih rfl]
      simp [Collected.media, ChatContent.url, ChatContent.part, hmedia]
    | imageUrl url =>
      rw [Collected.push, ih rfl]
      simp [Collected.media, ChatContent.url, ChatContent.part, hmedia]

/-- The texts before the first image. -/
def leading (content : List ChatContent) : List ChatContent := content.takeWhile (·.isText)

/-- The parts from the first image on. -/
def fromImage (content : List ChatContent) : List ChatContent := content.dropWhile (·.isText)

theorem leading_append_fromImage (content : List ChatContent) :
    leading content ++ fromImage content = content := takeWhile_append_dropWhile

theorem leading_texts {part : ChatContent} (h : part ∈ leading content) : part.isText = true :=
  mem_takeWhile_imp h

theorem leading_urls (content : List ChatContent) :
    (fromImage content).filterMap (·.url) = content.filterMap (·.url) := by
  have hnone : (leading content).filterMap (·.url) = [] := by
    rw [filterMap_eq_nil_iff]
    intro part hpart
    cases part with
    | text text => rfl
    | image data mimeType => cases leading_texts hpart
    | imageUrl url => cases leading_texts hpart
  conv_rhs => rw [← leading_append_fromImage content, filterMap_append, hnone, nil_append]

theorem leading_words (content : List ChatContent) :
    (leading content).map (·.part) = ((leading content).filterMap (·.words)).map textPart := by
  have hall : ∀ part ∈ leading content, part.isText = true := fun _ h => leading_texts h
  revert hall
  generalize leading content = texts
  intro hall
  induction texts with
  | nil => rfl
  | cons part texts ih =>
    have hrest := ih fun part hpart => hall part (mem_cons_of_mem _ hpart)
    cases part with
    | text words => simpa [ChatContent.words, ChatContent.part] using hrest
    | image data mimeType => cases hall _ mem_cons_self
    | imageUrl url => cases hall _ mem_cons_self

theorem fromImage_head {part : ChatContent} (h : fromImage content = part :: rest) :
    part.isText = false := by
  have hhead := List.head?_dropWhile_not (·.isText) content
  rw [← fromImage, h] at hhead
  simpa using hhead

/-- The loop puts what stands before the first image apart. -/
theorem collected_content (content : List ChatContent) :
    content.foldl Collected.push ⟨[], [], [], false⟩ =
      ⟨content.filterMap (·.url), (leading content).filterMap (·.words),
        (fromImage content).map (·.part), !(fromImage content).isEmpty⟩ := by
  conv_lhs => rw [← leading_append_fromImage content, foldl_append,
    collected_texts (fun part hpart => leading_texts hpart) rfl]
  rw [← leading_urls]
  cases hrest : fromImage content with
  | nil => rfl
  | cons part rest =>
    rw [foldl_cons]
    cases part with
    | text words => cases fromImage_head hrest
    | image data mimeType =>
      rw [collected_rest rfl]
      simp [Collected.push, Collected.media, ChatContent.url, ChatContent.part]
    | imageUrl url =>
      rw [collected_rest rfl]
      simp [Collected.push, Collected.media, ChatContent.url, ChatContent.part]

theorem words_eq_nil_iff (content : List ChatContent) :
    (leading content).filterMap (·.words) = [] ↔ leading content = [] := by
  have hlength := congrArg List.length (leading_words content)
  rw [length_map, length_map] at hlength
  rw [← length_eq_zero_iff, ← hlength, length_eq_zero_iff]

theorem convertMessageContent_eq (content : List ChatContent) :
    convertMessageContent content =
      if fromImage content = [] then
        (.text (join "\n" ((leading content).filterMap (·.words))),
          content.filterMap (·.url))
      else
        (.entries ((fromImage content).map (·.part) ++
          if leading content = [] then []
          else [textPart (join "\\n" ((leading content).filterMap (·.words)))]),
          content.filterMap (·.url)) := by
  have hfinish : (content.foldl Collected.push ⟨[], [], [], false⟩).finish =
      convertMessageContent content := by
    cases content <;> rfl
  rw [← hfinish, collected_content, Collected.finish]
  simp only [Bool.not_eq_true', List.isEmpty_eq_false_iff, List.isEmpty_iff, words_eq_nil_iff]
  by_cases hrest : fromImage content = []
  · rw [if_neg (not_not_intro hrest), if_pos hrest]
  · rw [if_pos hrest, if_neg hrest]
    by_cases hleading : leading content = []
    · rw [if_pos hleading, if_pos hleading, List.append_nil]
    · rw [if_neg hleading, if_neg hleading]

theorem convertMessageContent_urls (content : List ChatContent) :
    (convertMessageContent content).2 = content.filterMap (·.url) := by
  rw [convertMessageContent_eq]
  split <;> rfl

variable (messages : List ChatMessage)

theorem convertChatMessages_eq :
    convertChatMessages print messages = (messages.map (·.convert print),
      messages.flatMap fun message => message.content.filterMap (·.url)) := by
  have hfrom : ∀ (messages : List ChatMessage) (converted : List Message) (urls : List String),
      messages.foldl (fun (converted, imageUrls) message =>
        (converted ++ [message.convert print],
          imageUrls ++ (convertMessageContent message.content).2)) (converted, urls) =
        (converted ++ messages.map (·.convert print),
          urls ++ messages.flatMap fun message => message.content.filterMap (·.url)) := by
    intro messages
    induction messages with
    | nil => simp
    | cons message messages ih =>
      intro converted urls
      rw [foldl_cons]
      dsimp only
      rw [ih, convertMessageContent_urls]
      simp
  rw [convertChatMessages, hfrom]
  rfl

/-- The same parts in the same order. -/
def Keeps (content : List ChatContent) : MessageContent → Prop
  | .text text => content = [.text text] ∨ content = [] ∧ text = ""
  | .entries parts => parts = content.map (·.part)

/-- Every message is converted to a message whose content is as the relation says, and the images
are listed in their order. -/
def Translated (relation : List ChatContent → MessageContent → Prop) (messages : List ChatMessage)
    (result : List Message × List String) : Prop :=
  List.Forall₂ (fun message converted => ∃ content, converted.lookup "content" = some content ∧
    relation message.content content) messages result.1 ∧
  result.2 = messages.flatMap fun message => message.content.filterMap (·.url)

theorem translated_iff {relation : List ChatContent → MessageContent → Prop}
    :
    Translated relation messages (convertChatMessages print messages) ↔
      ∀ message ∈ messages, relation message.content (convertMessageContent message.content).1 := by
  have hcontent (message : ChatMessage) : (message.convert print).lookup "content" =
      some (convertMessageContent message.content).1 := rfl
  rw [convertChatMessages_eq, Translated, forall₂_map_right_iff, forall₂_same]
  simp only [hcontent, some.injEq, exists_eq_left', and_true]

/-- Nothing is moved or put in where a text comes first only if it is alone. -/
theorem convertChatMessages_keeps_iff :
    Translated Keeps messages (convertChatMessages print messages) ↔
      ∀ message ∈ messages, ∀ text rest, message.content = .text text :: rest → rest = [] := by
  rw [translated_iff]
  refine forall₂_congr fun message _ => ?_
  generalize message.content = content
  rw [convertMessageContent_eq]
  cases content with
  | nil => simp [fromImage, leading, Keeps, Text.join]
  | cons part rest =>
    cases part with
    | text words =>
      have hleading : leading (.text words :: rest) = .text words :: leading rest := rfl
      have hrest : fromImage (.text words :: rest) = fromImage rest := rfl
      rw [hleading, hrest]
      constructor
      · intro hkeeps text rest' heq
        cases heq
        by_cases hnone : fromImage rest = []
        · rw [if_pos hnone] at hkeeps
          rcases hkeeps with halone | ⟨hempty, -⟩
          · exact (List.cons.inj halone).2
          · cases hempty
        · rw [if_neg hnone] at hkeeps
          -- the first text is last, after an image
          exfalso
          obtain ⟨part, parts, hparts⟩ := exists_cons_of_ne_nil hnone
          rw [hparts] at hkeeps
          have hfirst := (List.cons.inj hkeeps).1
          cases part with
          | text words' => cases fromImage_head hparts
          | image data mimeType => simp [ChatContent.part, imagePart, textPart] at hfirst
          | imageUrl url => simp [ChatContent.part, imagePart, textPart] at hfirst
      · intro halone
        obtain rfl := halone words rest rfl
        exact .inl rfl
    | image data mimeType => simp [fromImage, leading, Keeps, ChatContent.isText]
    | imageUrl url => simp [fromImage, leading, Keeps, ChatContent.isText]

/-- What the engine is given of the parts of a message: the parts from the first image on are as
they were. The texts before that image are in one text, in their order. -/
def Prompts (content : List ChatContent) : MessageContent → Prop
  | .text text => (∀ part ∈ content, part.isText = true) ∧
      text = join "\n" (content.filterMap (·.words))
  | .entries parts => (∃ part ∈ content, part.isText = false) ∧
      if leading content = [] then parts = content.map (·.part)
      else ∃ place ≤ (fromImage content).length, ∃ separator, parts =
        ((fromImage content).map (·.part)).insertIdx place
          (textPart (join separator ((leading content).filterMap (·.words))))

theorem convertMessageContent_prompts (content : List ChatContent) :
    Prompts content (convertMessageContent content).1 := by
  have hcontent := leading_append_fromImage content
  rw [convertMessageContent_eq]
  by_cases hnone : fromImage content = []
  · rw [if_pos hnone]
    rw [hnone, append_nil] at hcontent
    refine ⟨fun part hpart => ?_, by rw [hcontent]⟩
    rw [← hcontent] at hpart
    exact leading_texts hpart
  · rw [if_neg hnone]
    refine ⟨?_, ?_⟩
    · obtain ⟨part, parts, hparts⟩ := exists_cons_of_ne_nil hnone
      refine ⟨part, ?_, fromImage_head hparts⟩
      rw [← hcontent, hparts]
      exact mem_append_right _ mem_cons_self
    · by_cases hleading : leading content = []
      · rw [if_pos hleading, if_pos hleading, append_nil]
        rw [hleading, nil_append] at hcontent
        rw [hcontent]
      · rw [if_neg hleading, if_neg hleading]
        refine ⟨_, Nat.le_refl _, "\\n", ?_⟩
        rw [← length_map (·.part), insertIdx_length_self]

/-- The images are listed in the order of the messages and their parts. -/
theorem chat_messages_prompted (print : Value → String) (messages : List ChatMessage) :
    Translated Prompts messages (convertChatMessages print messages) :=
  (translated_iff messages).mpr fun message _ => convertMessageContent_prompts message.content

/-- Two texts are run together with a line feed between them. -/
theorem texts_joined :
    let message : ChatMessage := ⟨.user, [.text "first", .text "second"], [], none, none⟩
    ¬ Translated Keeps [message] (convertChatMessages (fun _ => "") [message]) ∧
      (convertMessageContent message.content).1 = .text "first\nsecond" := by
  refine ⟨fun h => ?_, rfl⟩
  have hrest := (convertChatMessages_keeps_iff _).mp h _ mem_cons_self _ _ rfl
  cases hrest

end ColossalCode.ModelServer
