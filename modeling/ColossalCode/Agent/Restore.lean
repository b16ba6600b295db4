import ColossalCode.Agent.Cancelled
import ColossalCode.Agent.Serialized

/-! Restoring a conversation of the agent, or rebuilding it around another system prompt, keeps what
its messages say. -/
namespace ColossalCode.Agent
open List Conversation Message Or

open Protocol (Value)

variable {us : List Utterance} {conversation : Conversation}

structure Shown where
  role : String
  content : String
  calls : List (String × String × String)
  answers : Option String
  deriving DecidableEq

def Entry.shown (entry : Entry) : String × String × String :=
  (entry.idStr.getD "", (entry.functionStr "name").getD "", (entry.functionStr "arguments").getD "")

def Message.shown (message : Message) : Shown where
  role := message.textAt "role"
  content := message.textAt "content"
  calls := message.toolEntries.map Entry.shown
  answers := (message.lookup "tool_call_id").map contentAsText

/-- A message without a text that neither calls nor answers. -/
def Shown.isEmpty (shown : Shown) : Bool :=
  shown.content.isEmpty && shown.calls.isEmpty && shown.answers.isNone

/-- The messages that are not empty. -/
def Conversation.said (messages : Conversation) : List Shown :=
  (messages.map Message.shown).filter fun shown => !shown.isEmpty

/-- The first system message is replaced. -/
def Conversation.replaceSystem (systemPrompt : String) : Conversation → Conversation
  | [] => []
  | message :: messages =>
    if message.textAt "role" = "system" then
      (Utterance.said .system systemPrompt).message :: messages
    else message :: replaceSystem systemPrompt messages

theorem said_append (messages others : Conversation) :
    said (messages ++ others) = messages.said ++ others.said := by
  simp [said]

theorem said_restored (u : Utterance) :
    said (u.restored.map Utterance.message) = said [u.message] := by
  have hempty (role : TextMessageRole) :
      said [(Utterance.said role "").message] = [] := rfl
  cases u with
  | said role text =>
    cases role with
    | system => rfl
    | user | assistant | tool | custom =>
      by_cases htext : text = ""
      · subst htext
        rw [hempty]
        rfl
      · simp [Utterance.restored, htext]
  | called text calls =>
    cases calls with
    | nil =>
      by_cases htext : text = ""
      · subst htext
        rfl
      · simp [Utterance.restored, htext]
        rfl
    | cons call calls => rfl
  | returned content toolCallId => rfl

theorem said_flatMap_restored (us : List Utterance) :
    said ((us.flatMap Utterance.restored).map Utterance.message) =
      said (us.map Utterance.message) := by
  induction us with
  | nil => rfl
  | cons u us ih =>
    rw [flatMap_cons, map_append, said_append, said_restored, ih, ← said_append]
    rfl

/-- What `inject_summary_context` lets the user say. -/
def summaryContext (systemPrompt summary : String) : String :=
  systemPrompt ++ "\n\nThis session is being continued from a previous conversation that ran " ++
    "out of context. The previous conversation has been summarized below:\n\n" ++ summary

def summarySystemMessage : String :=
  "You are Nite 3, a coding agent deployed in the best TUI colossal code. You live inside the " ++
    "terminal, running lean, fast, and sharp. Your role is to serve as the developer's right hand."

section Tools

variable {W : Type} (execute : W → ToolCallResponse → W × Except String String)
  (failureYaml : String → String → String)

/-- The conversations that an agent comes to hold. -/
inductive Produced : Conversation → Prop
  | message (tags : ThinkingTags) (systemPrompt : String) (existing : Option Conversation)
      (userMessage : String) (rounds : List Round) (world : W) (ended : Ended W)
      (conversation : Conversation) : (∀ messages, existing = some messages → Produced messages) →
      processRounds execute failureYaml tags systemPrompt existing userMessage rounds world =
        some ended →
      ended.conversation = some conversation → Produced conversation
  | summary (systemPrompt summary : String) :
      Produced ((addMessage [] .system summarySystemMessage).addMessage .user
        (summaryContext systemPrompt summary))
  | reminder (messages : Conversation) (reminder : String) : Produced messages →
      Produced (messages.addMessage .system reminder)
  | restored {τ : Type} (messages : Conversation) (values : List Value) (tools : List τ)
      (replacementSystemPrompt : Option String) : Produced messages →
      Reads (.array (messages.map serialized)) (.array values) →
      Produced (requestBuilderFromSerializedMessages values tools replacementSystemPrompt).messages
  | rebuilt {τ : Type} (existing : RequestBuilder τ) (systemPrompt : String) (tools : List τ)
      (reminder : Option String) : Produced existing.messages →
      Produced (rebuildRequestBuilder existing systemPrompt tools reminder).messages

end Tools

/-- A system message comes first, and what follows it has been said, called or returned. -/
def Spoken (messages : Conversation) : Prop :=
  ∃ text us, (∀ u ∈ us, u.Plain) ∧
    messages = (Utterance.said .system text :: us).map Utterance.message

variable {W : Type} {execute : W → ToolCallResponse → W × Except String String}
  {failureYaml : String → String → String} {τ : Type}

theorem Spoken.append (h : Spoken conversation) (hus : ∀ u ∈ us, u.Plain) :
    Spoken (conversation ++ us.map Utterance.message) := by
  obtain ⟨text, vs, hvs, rfl⟩ := h
  refine ⟨text, vs ++ us, ?_, by simp⟩
  intro u hu
  exact (mem_append.mp hu).elim (hvs u) (hus u)

theorem Spoken.addMessage (h : Spoken conversation) {role : TextMessageRole}
    (hrole : role = .system ∨ role = .user ∨ role = .assistant) (text : String) :
    Spoken (addMessage conversation role text) := by
  have hplain : ∀ u ∈ [Utterance.said role text], u.Plain := by
    intro u hu
    obtain rfl := mem_singleton.mp hu
    exact hrole
  exact h.append hplain

theorem spoken_begun (text : String) : Spoken (addMessage [] .system text) :=
  ⟨text, [], by simp, rfl⟩

variable {p : Progress W}

theorem Spoken.callTool (h : Spoken p.builder) (text : String) (call : ToolCallResponse) :
    Spoken (Agent.callTool execute failureYaml text p call).builder := by
  have hbuilder : (Agent.callTool execute failureYaml text p call).builder =
      p.builder ++ [Utterance.called text [call], .returned
        (toolResult failureYaml call (execute p.world call).2) call.id].map Utterance.message := by
    simp [Agent.callTool, addMessageWithToolCall, addToolMessage,
      Utterance.message, TextMessageRole.toString]
  rw [hbuilder]
  refine h.append fun u hu => ?_
  rcases mem_pair.mp hu with rfl | rfl <;> trivial

theorem Spoken.callTools (h : Spoken p.builder) (text : String) (calls : List ToolCallResponse) :
    Spoken (calls.foldl (Agent.callTool execute failureYaml text) p).builder := by
  induction calls generalizing p with
  | nil => exact h
  | cons call calls ih => exact ih (h.callTool text call)

theorem runRounds_spoken {tags : ThinkingTags} {rounds : List Round}
    {ended : Ended W} (h : runRounds execute failureYaml tags rounds p = some ended)
    (hp : Spoken p.builder) (hended : ended.conversation = some conversation) :
    Spoken conversation := by
  fun_induction runRounds execute failureYaml tags rounds p with
  | case1 => cases h
  | case2 =>
    cases h
    cases hended
  | case3 responses s rounds p =>
    cases h
    cases hended
    rw [Splitter.cancelledRequest]
    split
    · exact hp
    · exact hp.addMessage (inr (inr rfl)) _
  | case4 =>
    cases h
    cases hended
    exact hp
  | case5 responses rounds p turn q hcalls ih =>
    have hq : Spoken q.builder := hp
    exact ih h (hq.callTools _ _)

theorem spoken_startRequest {existing : Option Conversation} (systemPrompt userMessage : String)
    (h : ∀ messages, existing = some messages → Spoken messages) :
    Spoken (startRequest systemPrompt existing userMessage) := by
  cases existing with
  | none => exact (spoken_begun systemPrompt).addMessage (inr (inl rfl)) userMessage
  | some messages => exact (h messages rfl).addMessage (inr (inl rfl)) userMessage

/-- The JSON of a conversation is read as it was printed, but for the order of keys. -/
def ReadsBack (print : Value → String) (parse : String → Option Value)
    (messages : Conversation) : Prop :=
  ∃ value, parse (print (.array (messages.map serialized))) = some value ∧
    Reads (.array (messages.map serialized)) value

theorem builder_restored (h : ∀ u ∈ us, u.Plain) (tools : List τ) :
    requestBuilderFromSerializedMessages ((us.map Utterance.message).map serialized) tools
      none = ⟨(us.flatMap Utterance.restored).map Utterance.message, tools, .auto, some true⟩ := by
  rw [map_map]
  exact congrArg (RequestBuilder.mk · _ _ _) (readMessages_restored h _)

theorem builder_replaced (h : ∀ u ∈ us, u.Plain) (tools : List τ) (systemPrompt : String) :
    requestBuilderFromSerializedMessages ((us.map Utterance.message).map serialized) tools
      (some systemPrompt) = ⟨(Utterance.said .system systemPrompt ::
        (us.eraseP Utterance.isSystem).flatMap Utterance.restored).map Utterance.message, tools,
          .auto, some true⟩ := by
  rw [map_map]
  exact congrArg (RequestBuilder.mk · _ _ _) (readMessages_replaced h _)

/-- A conversation that begins with a system message still does when it is restored. -/
theorem Spoken.restored (h : Spoken conversation) (tools : List τ)
    (replacementSystemPrompt : Option String) :
    Spoken (requestBuilderFromSerializedMessages (conversation.map serialized) tools
      replacementSystemPrompt).messages := by
  obtain ⟨text, us, hus, rfl⟩ := h
  have hall : ∀ u ∈ Utterance.said .system text :: us, u.Plain :=
    forall_mem_cons.mpr ⟨inl rfl, hus⟩
  cases replacementSystemPrompt with
  | none =>
    rw [builder_restored hall]
    exact ⟨text, us.flatMap Utterance.restored, flatMap_restored_plain hus, rfl⟩
  | some systemPrompt =>
    rw [builder_replaced hall]
    exact ⟨systemPrompt, us.flatMap Utterance.restored, flatMap_restored_plain hus, rfl⟩

theorem Spoken.rebuilt (existing : RequestBuilder τ) (h : Spoken existing.messages)
    (systemPrompt : String) (tools : List τ) (reminder : Option String) :
    Spoken (rebuildRequestBuilder existing systemPrompt tools reminder).messages := by
  have hbuilder := h.restored tools (some systemPrompt)
  cases reminder with
  | none => exact hbuilder
  | some reminder => exact hbuilder.addMessage (inl rfl) reminder

/-- The induction follows what the agent has done. -/
theorem Produced.spoken (h : Produced execute failureYaml conversation) : Spoken conversation := by
  induction h with
  | message tags systemPrompt existing userMessage rounds world ended conversation _ hrun hended
      ih =>
    exact runRounds_spoken hrun (spoken_startRequest systemPrompt userMessage ih) hended
  | summary systemPrompt summary =>
    exact (spoken_begun summarySystemMessage).addMessage (inr (inl rfl)) _
  | reminder messages reminder _ ih => exact ih.addMessage (inl rfl) reminder
  | restored messages values tools replacementSystemPrompt _ hreads ih =>
    rw [← hreads.requestBuilder]
    exact ih.restored tools replacementSystemPrompt
  | rebuilt existing systemPrompt tools reminder _ ih =>
    exact ih.rebuilt existing systemPrompt tools reminder

/-- Rebuilding twice is rebuilding once. -/
theorem rebuild_again {existing : RequestBuilder τ} (h : ∀ u ∈ us, u.Plain)
    (hmessages : existing.messages = us.map Utterance.message) (systemPrompt : String)
    (tools : List τ) :
    rebuildRequestBuilder (rebuildRequestBuilder existing systemPrompt tools none) systemPrompt
      tools none = rebuildRequestBuilder existing systemPrompt tools none := by
  have hplain : ∀ u ∈ us.eraseP Utterance.isSystem, u.Plain := fun u hu =>
    h u (mem_of_mem_eraseP hu)
  have honce : rebuildRequestBuilder existing systemPrompt tools none =
      ⟨(Utterance.said .system systemPrompt ::
        (us.eraseP Utterance.isSystem).flatMap Utterance.restored).map Utterance.message, tools,
          .auto, some true⟩ := by
    dsimp only [rebuildRequestBuilder]
    rw [hmessages]
    exact builder_replaced h tools systemPrompt
  have hall : ∀ u ∈ Utterance.said .system systemPrompt ::
      (us.eraseP Utterance.isSystem).flatMap Utterance.restored, u.Plain :=
    forall_mem_cons.mpr ⟨inl rfl, flatMap_restored_plain hplain⟩
  rw [honce]
  dsimp only [rebuildRequestBuilder]
  rw [builder_replaced hall, eraseP_cons_of_pos rfl, flatMap_restored_again hplain]

section Claims

variable (print : Value → String) (parse : String → Option Value) (tools : List τ)
  (systemPrompt : String)

/-- What is exported is restored as it was said, and rebuilding twice is rebuilding once. -/
def RoundTrips (messages : Conversation) : Prop :=
  ∃ text, exportConversation print messages = some text ∧
    (∃ builder, restoreConversation parse tools none text = some builder ∧
      builder.messages.said = messages.said) ∧
    ∀ existing : RequestBuilder τ, existing.messages = messages →
      rebuildRequestBuilder (rebuildRequestBuilder existing systemPrompt tools none) systemPrompt
        tools none = rebuildRequestBuilder existing systemPrompt tools none

/-- What is exported is restored with another system prompt in the place of the first. -/
def Replaces (messages : Conversation) : Prop :=
  ∃ text, exportConversation print messages = some text ∧
    ∃ builder, restoreConversation parse tools (some systemPrompt) text = some builder ∧
      builder.messages.said = (messages.replaceSystem systemPrompt).said

variable {print parse}

theorem exportConversation_of_ne_nil (h : conversation ≠ []) :
    exportConversation print conversation =
      some (print (.array (conversation.map serialized))) := by
  rw [exportConversation, if_neg (by simpa using h)]

theorem restoreConversation_exported (h : ReadsBack print parse conversation)
    (replacementSystemPrompt : Option String) :
    restoreConversation parse tools replacementSystemPrompt
      (print (.array (conversation.map serialized))) =
        some (requestBuilderFromSerializedMessages (conversation.map serialized) tools
          replacementSystemPrompt) := by
  obtain ⟨value, hparse, hreads⟩ := h
  rw [restoreConversation, hparse]
  cases hreads with
  | array hitems =>
    exact congrArg some ((Reads.array hitems).requestBuilder tools replacementSystemPrompt).symm

theorem roundTrips (h : ∀ u ∈ us, u.Plain) (hne : us ≠ [])
    (hjson : ReadsBack print parse (us.map Utterance.message)) :
    RoundTrips print parse tools systemPrompt (us.map Utterance.message) := by
  refine ⟨_, exportConversation_of_ne_nil (by simpa using hne),
    ⟨_, restoreConversation_exported tools hjson none, ?_⟩,
      fun existing hexisting => rebuild_again h hexisting systemPrompt tools⟩
  rw [builder_restored h]
  exact said_flatMap_restored us

theorem Spoken.replaces (h : Spoken conversation) (hjson : ReadsBack print parse conversation) :
    Replaces print parse tools systemPrompt conversation := by
  obtain ⟨text, us, hus, rfl⟩ := h
  refine ⟨_, exportConversation_of_ne_nil (by simp), _,
    restoreConversation_exported tools hjson (some systemPrompt), ?_⟩
  have hall : ∀ u ∈ Utterance.said .system text :: us, u.Plain :=
    forall_mem_cons.mpr ⟨inl rfl, hus⟩
  have hreplace : replaceSystem systemPrompt
      ((Utterance.said .system text :: us).map Utterance.message) =
        (Utterance.said .system systemPrompt).message :: us.map Utterance.message := rfl
  have hcons (messages : Conversation) :
      said ((Utterance.said .system systemPrompt).message :: messages) =
        said [(Utterance.said .system systemPrompt).message] ++
          said messages :=
    said_append [(Utterance.said .system systemPrompt).message] messages
  rw [builder_replaced hall, hreplace, eraseP_cons_of_pos rfl, map_cons,
    hcons (List.map _ _), hcons (us.map _), said_flatMap_restored]

end Claims

/-- Any messages that are sent survive their export, and those of an agent also another system
prompt. -/
theorem exported_is_restored (execute : W → ToolCallResponse → W × Except String String)
    (failureYaml : String → String → String) (print : Value → String)
    (parse : String → Option Value) (tools : List τ) (systemPrompt : String) :
    (∀ us : List Utterance, (∀ u ∈ us, u.Plain) → us ≠ [] →
      ReadsBack print parse (us.map Utterance.message) →
      RoundTrips print parse tools systemPrompt (us.map Utterance.message)) ∧
    ∀ conversation, Produced execute failureYaml conversation →
      ReadsBack print parse conversation →
      RoundTrips print parse tools systemPrompt conversation ∧
        Replaces print parse tools systemPrompt conversation := by
  refine ⟨fun us h hne hjson => roundTrips tools systemPrompt h hne hjson, ?_⟩
  intro conversation hproduced hjson
  refine ⟨?_, hproduced.spoken.replaces tools systemPrompt hjson⟩
  obtain ⟨text, us, hus, rfl⟩ := hproduced.spoken
  exact roundTrips tools systemPrompt (forall_mem_cons.mpr ⟨inl rfl, hus⟩) (by simp) hjson

/-- A question to an agent that is told to be brief. -/
def asked : Conversation := (addMessage [] .system "Be brief.").addMessage .user "Hi"

def askedJson : String :=
  "[\n  \x7b\n    \"role\": \x7b\n      \"Left\": \"system\"\n    \x7d,\n    \"content\": \x7b\n" ++
    "      \"Left\": \"Be brief.\"\n    \x7d\n  \x7d,\n  \x7b\n    \"role\": \x7b\n" ++
    "      \"Left\": \"user\"\n    \x7d,\n    \"content\": \x7b\n      \"Left\": \"Hi\"\n" ++
    "    \x7d\n  \x7d\n]"

theorem asked_is_restored :
    RoundTrips (fun _ => askedJson) (fun _ => some (.array (asked.map serialized)))
      ["Bash"] "Be kind." asked ∧
    Replaces (fun _ => askedJson) (fun _ => some (.array (asked.map serialized)))
      ["Bash"] "Be kind." asked := by
  refine (exported_is_restored (fun (world : Unit) _ => (world, .ok "")) (fun error _ => error)
    (fun _ => askedJson) (fun _ => some (.array (asked.map serialized))) ["Bash"]
    "Be kind.").2 asked ?_ ⟨_, rfl, .refl _⟩
  exact .message ⟨[], []⟩ "Be brief." none "Hi" [⟨.streamed [.done []], none⟩] () _ asked
    (fun _ h => by cases h) rfl rfl

end ColossalCode.Agent
