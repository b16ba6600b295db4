import ColossalCode.Agent.Generation

/-! What a conversation holds of the turns after a user message. -/
namespace ColossalCode.Agent
open List Conversation Splitter

variable {tags : ThinkingTags}

/-- The text that goes into the conversation is the response shown. -/
def Splitter.Accumulates (s : Splitter) : Prop := s.accumulatedContent = responseText s.sent

section Accumulates

variable {s : Splitter} {messages : List AgentMessage}

theorem send_accumulates (hs : s.Accumulates) (hmessages : responseText messages = []) :
    (s.send messages).Accumulates := by
  unfold Accumulates at *
  rw [send, responseText_append, hmessages, append_nil]
  exact hs

theorem think_accumulates (hs : s.Accumulates) (closeTag chunk : List Char) :
    (s.think closeTag chunk).Accumulates := by
  unfold think
  unfold Accumulates at hs
  split
  · exact hs
  · dsimp only
    split
    · split <;> simp [Accumulates, send, hs]
    · split <;> simp [Accumulates, send, hs]

theorem respond_accumulates (hs : s.Accumulates) (chunk : List Char) :
    (s.respond chunk).Accumulates := by
  unfold respond
  unfold Accumulates at hs
  split
  · exact hs
  · simp [Accumulates, send, hs]

theorem content_accumulates (hs : s.Accumulates) (chunk : List Char) :
    (s.content tags chunk).Accumulates := by
  unfold content
  split
  · exact hs
  · split
    · dsimp only
      split
      · exact hs
      · apply think_accumulates
        exact hs
      · split
        · apply think_accumulates
          exact hs
        · apply respond_accumulates
          exact hs
    · split
      · exact think_accumulates hs _ _
      · exact respond_accumulates hs _

theorem interrupt_accumulates (hs : s.Accumulates) : s.interrupt.Accumulates := by
  unfold interrupt
  split
  · exact send_accumulates hs rfl
  · exact hs

theorem flush_accumulates (hs : s.Accumulates) : s.flush.Accumulates := by
  unfold flush
  dsimp only
  generalize hs' : (if s.pendingPrefix.isEmpty then s else _ : Splitter) = s'
  have hs'' : s'.Accumulates := by
    subst hs'
    split
    · exact hs
    · unfold Accumulates at hs
      simp [Accumulates, send, hs]
  split
  · exact send_accumulates hs'' (responseText_last _)
  · exact hs''

end Accumulates

section Turn

variable {t : Turn}

theorem toolCall_accumulates (ht : t.splitter.Accumulates) (call : ToolCallResponse) :
    (t.toolCall call).splitter.Accumulates := by
  unfold Turn.toolCall
  dsimp only
  split
  · exact send_accumulates ht rfl
  · exact ht

theorem foldl_accumulates {f : Turn → ToolCallResponse → Turn} (ht : t.splitter.Accumulates)
    (hf : ∀ t call, t.splitter.Accumulates → (f t call).splitter.Accumulates)
    (calls : List ToolCallResponse) : (calls.foldl f t).splitter.Accumulates := by
  induction calls generalizing t with
  | nil => exact ht
  | cons call calls ih => exact ih (hf t call ht)

theorem delta_accumulates (ht : t.splitter.Accumulates) (delta : Delta) :
    (t.delta tags delta).splitter.Accumulates := by
  unfold Turn.delta
  split
  · apply foldl_accumulates (interrupt_accumulates ht)
    intro t call ht
    exact toolCall_accumulates ht call
  · exact content_accumulates ht _
  · exact ht

theorem done_accumulates (ht : t.splitter.Accumulates) (choices : List Choice) :
    (t.done choices).splitter.Accumulates := by
  unfold Turn.done
  split
  · split
    · apply foldl_accumulates ht
      intro t call ht
      exact send_accumulates ht rfl
    · exact ht
  · exact ht

theorem read_accumulates (responses : List Response) (ht : t.splitter.Accumulates) :
    (Turn.read tags responses t).splitter.Accumulates := by
  induction responses generalizing t with
  | nil => exact ht
  | cons response responses ih =>
    cases response with
    | chunk choices =>
      unfold Turn.read
      split
      · exact ih (delta_accumulates ht _)
      · exact ih ht
    | done choices => exact done_accumulates ht choices
    | internalError error | validationError error | modelError message =>
      exact send_accumulates ht rfl
    | other => exact ih ht

theorem turn_accumulates (responses : List Response) :
    (readTurn tags responses).splitter.Accumulates :=
  flush_accumulates (read_accumulates responses rfl)

end Turn

section Log

variable {W : Type} (execute : W → ToolCallResponse → W × Except String String)
  (failureYaml : String → String → String)

/-- The calls of a turn with what they return, and the world after them. -/
def returns : List ToolCallResponse → W → List (ToolCallResponse × String) × W
  | [], world => ([], world)
  | call :: calls, world =>
    let (world, outcome) := execute world call
    let (results, world) := returns calls world
    ((call, toolResult failureYaml call outcome) :: results, world)

def callItem (call : ToolCallResponse) : Item :=
  .called call.id call.function.name call.function.arguments

/-- What a turn should leave behind: its text once, then its calls, each with its result. -/
def turnLog (text : String) (results : List (ToolCallResponse × String)) : List Item :=
  Item.text "assistant" text ++
    results.flatMap fun result => [callItem result.1, .returned result.1.id result.2]

/-- The text of a turn, as shown. -/
def Turn.text (t : Turn) : String := String.ofList (responseText t.splitter.sent)

/-- What a turn does leave behind: its text with each of its calls. -/
def turnItems (text : String) (results : List (ToolCallResponse × String)) : List Item :=
  results.flatMap fun result =>
    Item.text "assistant" text ++ [callItem result.1, .returned result.1.id result.2]

/-- The items that turns leave behind one after the other, the tools acting on the world. -/
def overTurns (leaves : String → List (ToolCallResponse × String) → List Item)
    (tags : ThinkingTags) : List (List Response) → W → List Item
  | [], _ => []
  | responses :: turns, world =>
    let turn := readTurn tags responses
    let (results, world) := returns execute failureYaml turn.calls world
    leaves turn.text results ++ overTurns leaves tags turns world

theorem returns_length (calls : List ToolCallResponse) (world : W) :
    (returns execute failureYaml calls world).1.length = calls.length := by
  induction calls generalizing world with
  | nil => rfl
  | cons call calls ih =>
    unfold returns
    simp [ih]

/-- The messages of a tool call: the call with the text of its turn, and its result. -/
def callMessages (text : String) (call : ToolCallResponse) (result : String) : Conversation :=
  (addMessageWithToolCall [] .assistant text [call]).addToolMessage result call.id

theorem callMessages_items (text : String) (call : ToolCallResponse) (result : String) :
    (callMessages text call result).flatMap Message.items =
      Item.text "assistant" text ++ [callItem call, .returned call.id result] := by
  simp [callMessages, addMessageWithToolCall, addToolMessage,
    Message.items, Message.textAt, Message.toolEntries, contentAsText, TextMessageRole.toString,
    lookup_cons, lookup_nil, Entry.item, Entry.idStr, Entry.functionStr,
    toolEntry, Protocol.Value.get, Protocol.Value.asStr, callItem]

theorem callTool_builder (text : String) (call : ToolCallResponse) (p : Progress W) :
    (callTool execute failureYaml text p call).builder =
      p.builder ++ callMessages text call
        (toolResult failureYaml call (execute p.world call).2) := by
  simp [callTool, callMessages, addMessageWithToolCall, addToolMessage]

/-- The calls of a turn add their items, and nothing else changes in the conversation. -/
theorem callTools_builder (text : String) (calls : List ToolCallResponse) (p : Progress W) :
    ∃ added, (calls.foldl (callTool execute failureYaml text) p).builder = p.builder ++ added ∧
      added.flatMap Message.items =
        turnItems text (returns execute failureYaml calls p.world).1 ∧
      (calls.foldl (callTool execute failureYaml text) p).world =
        (returns execute failureYaml calls p.world).2 := by
  induction calls generalizing p with
  | nil => exact ⟨[], (append_nil _).symm, rfl, rfl⟩
  | cons call calls ih =>
    obtain ⟨added, hbuilder, hitems, hworld⟩ := ih (callTool execute failureYaml text p call)
    refine ⟨callMessages text call (toolResult failureYaml call (execute p.world call).2) ++ added,
      ?_, ?_, hworld⟩
    · rw [foldl_cons, hbuilder, callTool_builder, append_assoc]
    · rw [flatMap_append, callMessages_items, hitems]
      rfl

variable {replies : List Reply} {responses final : List Response} {turns : List (List Response)}
  {results : List (ToolCallResponse × String)}

theorem runGeneration_final {p : Progress W} (h : (readTurn tags responses).calls = []) :
    runGeneration execute failureYaml tags (.streamed responses :: replies) p =
      some ⟨.ok (), some p.builder, p.world,
        p.sent ++ (readTurn tags responses).splitter.sent ++ [.done]⟩ := by
  simp [runGeneration, h]

/-- The progress after a turn with tool calls. -/
def afterTools (tags : ThinkingTags) (responses : List Response) (p : Progress W) : Progress W :=
  let turn := readTurn tags responses
  turn.calls.foldl (callTool execute failureYaml (String.ofList turn.splitter.accumulatedContent))
    { p with sent := p.sent ++ turn.splitter.sent }

theorem runGeneration_tools {p : Progress W} (h : (readTurn tags responses).calls ≠ []) :
    runGeneration execute failureYaml tags (.streamed responses :: replies) p =
      runGeneration execute failureYaml tags replies
        (afterTools execute failureYaml tags responses p) := by
  simp [runGeneration, h, afterTools]

/-- A generation ends with the first turn without tool calls, and stores what its turns leave. -/
theorem runGeneration_ends (htools : ∀ responses ∈ turns, (readTurn tags responses).calls ≠ [])
    (hfinal : (readTurn tags final).calls = []) (p : Progress W) :
    ∃ ended added,
      runGeneration execute failureYaml tags ((turns ++ [final]).map .streamed) p = some ended ∧
      ended.result = .ok () ∧ ended.conversation = some (p.builder ++ added) ∧
      added.flatMap Message.items =
        overTurns execute failureYaml turnItems tags (turns ++ [final]) p.world := by
  induction turns generalizing p with
  | nil =>
    refine ⟨_, [], runGeneration_final execute failureYaml hfinal, rfl, ?_, ?_⟩
    · rw [append_nil]
    · simp [overTurns, hfinal, returns, turnItems]
  | cons responses turns ih =>
    have hcalls := htools responses mem_cons_self
    obtain ⟨first, hbuilder, hitems, hworld⟩ := callTools_builder execute failureYaml
      (String.ofList (readTurn tags responses).splitter.accumulatedContent)
      (readTurn tags responses).calls
      { p with sent := p.sent ++ (readTurn tags responses).splitter.sent }
    obtain ⟨ended, added, hrun, hok, hstored, hrest⟩ := ih
      (fun rest hrest => htools rest (mem_cons_of_mem _ hrest))
      (afterTools execute failureYaml tags responses p)
    have htext : String.ofList (readTurn tags responses).splitter.accumulatedContent =
        (readTurn tags responses).text := congrArg String.ofList (turn_accumulates responses)
    refine ⟨ended, first ++ added, ?_, hok, ?_, ?_⟩
    · rw [cons_append, map_cons, runGeneration_tools execute failureYaml hcalls, hrun]
    · rw [hstored, afterTools, hbuilder, append_assoc]
    · rw [flatMap_append, hitems, hrest, afterTools, hworld, htext]
      rfl

theorem turnItems_eq {text : String}
    (h : text = "" ∨ results.length = 1) : turnItems text results = turnLog text results := by
  rcases h with rfl | hone
  · simp [turnItems, turnLog, Item.text]
  · obtain ⟨result, rfl⟩ := length_eq_one_iff.mp hone
    simp [turnItems, turnLog]

/-- A text that stands with several calls is repeated where the second call should stand. -/
theorem turnItems_ne {text : String} {rest rest' : List Item} (hresults : results ≠ [])
    (h : ¬ (text = "" ∨ results.length = 1)) :
    turnItems text results ++ rest ≠ turnLog text results ++ rest' := by
  rw [not_or] at h
  match results, hresults with
  | [result], _ => exact absurd rfl h.2
  | first :: second :: results, _ => simp [turnItems, turnLog, Item.text, h.1, callItem]

/-- The turn has no text, or exactly one tool call to go with it. -/
def SaidOnce (tags : ThinkingTags) (responses : List Response) : Prop :=
  (readTurn tags responses).text = "" ∨ (readTurn tags responses).calls.length = 1

theorem overTurns_eq_iff (htools : ∀ responses ∈ turns, (readTurn tags responses).calls ≠ [])
    (hfinal : (readTurn tags final).calls = []) (world : W) :
    overTurns execute failureYaml turnItems tags (turns ++ [final]) world =
        overTurns execute failureYaml turnLog tags (turns ++ [final]) world ↔
      ∀ responses ∈ turns ++ [final], SaidOnce tags responses := by
  induction turns generalizing world with
  | nil =>
    by_cases htext : (readTurn tags final).text = ""
    · simp [overTurns, hfinal, returns, turnItems, turnLog, SaidOnce, Item.text, htext]
    · simp [overTurns, hfinal, returns, turnItems, turnLog, SaidOnce, Item.text, htext]
  | cons responses turns ih =>
    have hcalls := htools responses mem_cons_self
    have hrest := ih fun rest hrest => htools rest (mem_cons_of_mem _ hrest)
    have hlength := returns_length execute failureYaml (readTurn tags responses).calls world
    rw [cons_append, forall_mem_cons, ← hrest
      (returns execute failureYaml (readTurn tags responses).calls world).2]
    unfold SaidOnce
    simp only [overTurns]
    rw [← hlength]
    by_cases honce : (readTurn tags responses).text = "" ∨
        (returns execute failureYaml (readTurn tags responses).calls world).1.length = 1
    · simp only [turnItems_eq honce, append_cancel_left_eq, honce, true_and]
    · have hresults : (returns execute failureYaml (readTurn tags responses).calls world).1 ≠
        [] := by
        rw [← length_pos_iff, hlength]
        exact length_pos_iff.mpr hcalls
      simp only [honce, false_and, iff_false]
      exact turnItems_ne hresults honce

/-- The conversation that is stored is the old one, the user message, and what the turns should
leave, if and only if every turn has no text or exactly one tool call. -/
theorem conversation_recorded (turns : List (List Response)) (final : List Response)
    (htools : ∀ responses ∈ turns, (readTurn tags responses).calls ≠ [])
    (hfinal : (readTurn tags final).calls = []) (systemPrompt : String)
    (conversation : Option Conversation) (userMessage : String) (world : W) :
    ∃ ended added,
      processMessage execute failureYaml tags systemPrompt conversation userMessage
        ((turns ++ [final]).map .streamed) world = some ended ∧
      ended.result = .ok () ∧
      ended.conversation =
        some (startRequest systemPrompt conversation userMessage ++ added) ∧
      (added.flatMap Message.items =
          overTurns execute failureYaml turnLog tags (turns ++ [final]) world ↔
        ∀ responses ∈ turns ++ [final], SaidOnce tags responses) := by
  obtain ⟨ended, added, hrun, hok, hstored, hadded⟩ :=
    runGeneration_ends execute failureYaml htools hfinal
      ⟨world, startRequest systemPrompt conversation userMessage, []⟩
  refine ⟨ended, added, hrun, hok, hstored, ?_⟩
  rw [hadded]
  exact overTurns_eq_iff execute failureYaml htools hfinal world

end Log

/-- A tool that returns its arguments. -/
def echo (world : Unit) (call : ToolCallResponse) : Unit × Except String String :=
  (world, .ok call.function.arguments)

def say (text : String) : Response := .chunk [⟨none, 0, ⟨some text.toList, "assistant", none⟩⟩]

def sayCall (ids : List String) : List Response :=
  let calls := ids.mapIdx fun index id => ⟨index, id, ⟨"read", id⟩⟩
  [say "Look.", .chunk [⟨none, 0, ⟨none, "assistant", some calls⟩⟩], .done []]

def answer (text : String) : List Response := [say text, .done []]

theorem conversation_recorded_call :
    ∃ ended added,
      processMessage echo (fun error _ => error) thinkTags "" (some []) "Hi"
        [.streamed (sayCall ["a"]), .streamed [.done []]] () = some ended ∧
      ended.conversation = some (addMessage [] .user "Hi" ++ added) ∧
      added.flatMap Message.items =
        [.said "assistant" "Look.", .called "a" "read" "a", .returned "a" "a"] := by
  have hcalls : ∀ responses ∈ [sayCall ["a"]], (readTurn thinkTags responses).calls ≠ [] := by
    intro responses hresponses
    rw [mem_singleton.mp hresponses]
    exact cons_ne_nil _ _
  obtain ⟨ended, added, hrun, -, hstored, hiff⟩ := conversation_recorded echo
    (fun error _ => error) [sayCall ["a"]] [.done []] hcalls rfl "" (some []) "Hi" ()
  refine ⟨ended, added, hrun, hstored, hiff.mpr ?_⟩
  intro responses hresponses
  rcases mem_cons.mp hresponses with rfl | hfinal
  · exact .inr rfl
  · rw [mem_singleton.mp hfinal]
    exact .inl rfl

/-- The final answer is not recorded, and a text before two calls is recorded twice. -/
theorem text_lost_or_repeated :
    (processMessage echo (fun error _ => error) thinkTags "" (some []) "Hi"
        [.streamed (answer "Hello.")] ()).bind Ended.conversation =
      some (addMessage [] .user "Hi") ∧
    overTurns echo (fun error _ => error) turnLog thinkTags [answer "Hello."] () =
      [.said "assistant" "Hello."] ∧
    ((processMessage echo (fun error _ => error) thinkTags "" (some []) "Hi"
        [.streamed (sayCall ["a", "b"]), .streamed [.done []]] ()).bind
          Ended.conversation).map (List.flatMap Message.items) =
      some [.said "user" "Hi", .said "assistant" "Look.", .called "a" "read" "a",
        .returned "a" "a", .said "assistant" "Look.", .called "b" "read" "b",
        .returned "b" "b"] :=
  ⟨rfl, rfl, rfl⟩

end ColossalCode.Agent
