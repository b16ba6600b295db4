import ColossalCode.Agent.Generation

/-! What a generation has come to wherever it looks for a cancel while it reads a response. How many
new summaries there are to send comes from outside. -/
namespace ColossalCode.Agent

namespace Splitter

/-- At the checks in the loop over the pieces of `inPieces`. -/
def pieceStates : Splitter → Nat → List Char → List Splitter
  | _, 0, _ => []
  | s, rounds + 1, remaining =>
    if remaining.isEmpty then []
    else if 100 < remaining.length then
      let piece := remaining.take 100
      let sent := s.send [.thinkingContent piece (estimateTokensHeuristic piece)]
      s :: sent :: sent.pieceStates rounds (remaining.drop 100)
    else [s]

def thinkStates (s : Splitter) (closeTag chunk : List Char) (first second : Nat) :
    List Splitter :=
  if chunk.isEmpty then []
  else
    let buffer := s.thinkingBuffer ++ chunk
    match Chunks.find closeTag buffer with
    | some endIdx =>
      let finalThinking := buffer.take endIdx
      let s := { s with inThinking := false, thinkingBuffer := buffer }.send
        (lastThinking finalThinking)
      (if finalThinking.isEmpty then [] else s :: List.replicate first s) ++
        List.replicate second s
    | none =>
      let s := { s with thinkingBuffer := buffer }
      if buffer.length > heldBack then
        let toSend := buffer.take (buffer.length - heldBack)
        s.pieceStates toSend.length toSend ++
          List.replicate first (s.send (thinkingPieces toSend))
      else []

/-- At the checks while the content of a chunk is read. -/
def contentStates (tags : ThinkingTags) (s : Splitter) (chunk : List Char) (first second : Nat) :
    List Splitter :=
  if chunk.isEmpty then []
  else if s.allowThinkingStart then
    let pending := s.pendingPrefix ++ chunk
    match analyzeThinkingStart pending tags.openTag with
    | .needMoreData => [{ s with pendingPrefix := pending }]
    | .detected contentStartIdx =>
      { s with allowThinkingStart := false, inThinking := true, pendingPrefix := [] }.thinkStates
        tags.closeTag (pending.drop contentStartIdx) first second
    | .notThinking =>
      let s := { s with allowThinkingStart := false, pendingPrefix := [] }
      if s.inThinking then s.thinkStates tags.closeTag pending first second
      else [s.respond pending]
  else if s.inThinking then s.thinkStates tags.closeTag chunk first second
  else [s.respond chunk]

end Splitter

/-- A response is read: whether the loop goes on, the turn it leads to, and what the turn has come to
at the checks until then. -/
def Turn.receive (tags : ThinkingTags) (t : Turn) (response : Response) (first second : Nat) :
    Bool × Turn × List Splitter :=
  match response with
  | .chunk choices =>
    match choices.head? with
    | some choice =>
      (true, t.delta tags choice.delta,
        match choice.delta.toolCalls, choice.delta.content with
        | none, some content => t.splitter.contentStates tags content first second
        | _, _ => [])
    | none => (true, t, [])
  | .other => (true, t, [])
  | .done choices => (false, t.done choices, [])
  | .internalError error => (false, t.send [.error ("Internal error: " ++ error)], [])
  | .validationError error => (false, t.send [.error ("Validation error: " ++ error)], [])
  | .modelError message => (false, t.send [.error ("Model error: " ++ message)], [])

/-- What a cancelled turn sends before it stores its conversation. -/
def Splitter.cancelled (s : Splitter) : List AgentMessage :=
  if !s.accumulatedContent.isEmpty && !s.inThinking then
    [.agentResponse s.accumulatedContent (estimateTokensHeuristic s.accumulatedContent)]
  else []

/-- The conversation that a cancelled turn stores. -/
def Splitter.cancelledRequest (s : Splitter) (builder : Conversation) : Conversation :=
  if s.accumulatedContent.isEmpty then builder
  else builder.addMessage .assistant (String.ofList s.accumulatedContent)

end ColossalCode.Agent

/-! What a generation that ends with an error leaves of the conversation it was given. -/
namespace ColossalCode.Agent

/-- A round of a generation: the answer to its request and, where a check finds a cancel requested,
what the turn has come to there. -/
structure Round where
  reply : Reply
  cancelled : Option Splitter

section Rounds

variable {W : Type} (execute : W → ToolCallResponse → W × Except String String)
  (failureYaml : String → String → String)

/-- `run_generation` with its cancels; there is no end as long as a round is yet to come. -/
def runRounds (tags : ThinkingTags) : List Round → Progress W → Option (Ended W)
  | [], _ => none
  | ⟨.refused error, _⟩ :: _, p => some ⟨.error error, none, p.world, p.sent⟩
  | ⟨.streamed _, some s⟩ :: _, p =>
    some ⟨.ok (), some (s.cancelledRequest p.builder), p.world,
      p.sent ++ s.sent ++ s.cancelled ++ [.done]⟩
  | ⟨.streamed responses, none⟩ :: rounds, p =>
    let turn := readTurn tags responses
    let p := { p with sent := p.sent ++ turn.splitter.sent }
    if turn.calls.isEmpty then some ⟨.ok (), some p.builder, p.world, p.sent ++ [.done]⟩
    else
      runRounds tags rounds
        (turn.calls.foldl
          (callTool execute failureYaml (String.ofList turn.splitter.accumulatedContent)) p)

/-- `process_message` with its cancels. -/
def processRounds (tags : ThinkingTags) (systemPrompt : String)
    (conversation : Option Conversation) (userMessage : String) (rounds : List Round) (world : W) :
    Option (Ended W) :=
  runRounds execute failureYaml tags rounds
    ⟨world, startRequest systemPrompt conversation userMessage, []⟩

/-- The backend refuses a request before a turn without tool calls, or a cancelled one, ends the
generation. -/
def MeetsRefusal (tags : ThinkingTags) : List Round → Prop
  | [] => False
  | ⟨.refused _, _⟩ :: _ => True
  | ⟨.streamed responses, cancelled⟩ :: rounds =>
    cancelled = none ∧ (readTurn tags responses).calls ≠ [] ∧ MeetsRefusal tags rounds

variable {execute failureYaml} {tags : ThinkingTags} {rounds : List Round} {p : Progress W}
  {ended : Ended W}

/-- An error is that of a refusal, and nothing is stored then. -/
theorem runRounds_error {error : String}
    (h : runRounds execute failureYaml tags rounds p = some ended)
    (herror : ended.result = .error error) :
    MeetsRefusal tags rounds ∧ ended.conversation = none := by
  fun_induction runRounds execute failureYaml tags rounds p with
  | case1 => cases h
  | case2 =>
    cases h
    exact ⟨trivial, rfl⟩
  | case3 =>
    cases h
    cases herror
  | case4 =>
    cases h
    cases herror
  | case5 responses rounds p turn q hcalls ih =>
    obtain ⟨hmeets, hnone⟩ := ih h
    exact ⟨⟨rfl, fun hnil => hcalls (by rw [hnil]; rfl), hmeets⟩, hnone⟩

theorem meetsRefusal_ends (h : MeetsRefusal tags rounds) (p : Progress W) :
    ∃ ended error, runRounds execute failureYaml tags rounds p = some ended ∧
      ended.result = .error error ∧ ended.conversation = none := by
  fun_induction runRounds execute failureYaml tags rounds p with
  | case1 => cases h
  | case2 error cancelled rounds p => exact ⟨_, error, rfl, rfl, rfl⟩
  | case3 => cases h.1
  | case4 responses rounds p turn q hcalls => exact absurd (List.isEmpty_iff.mp hcalls) h.2.1
  | case5 responses rounds p turn q hcalls ih => exact ih h.2.2

/-- A message that ends with an error keeps what was stored just where nothing was, or where no
request of it is refused. -/
theorem error_keeps_conversation_iff (systemPrompt : String) (conversation : Option Conversation)
    (userMessage : String) (world : W) :
    (∀ ended error, processRounds execute failureYaml tags systemPrompt conversation userMessage
        rounds world = some ended → ended.result = .error error →
      ∀ message ∈ conversation.getD [], message ∈ ended.conversation.getD []) ↔
    conversation.getD [] = [] ∨ ¬ MeetsRefusal tags rounds := by
  constructor
  · intro hkeeps
    by_cases hmeets : MeetsRefusal tags rounds
    · left
      have hends : ∃ ended error, processRounds execute failureYaml tags systemPrompt conversation
          userMessage rounds world = some ended ∧ ended.result = .error error ∧
          ended.conversation = none := meetsRefusal_ends hmeets _
      obtain ⟨ended, error, hended, herror, hnone⟩ := hends
      have hall := hkeeps ended error hended herror
      rw [hnone] at hall
      exact List.eq_nil_iff_forall_not_mem.mpr fun message hmem =>
        List.not_mem_nil (hall message hmem)
    · exact .inr hmeets
  · intro h ended error hended herror message hmem
    rcases h with hnil | hmeets
    · rw [hnil] at hmem
      cases hmem
    · exact absurd (runRounds_error hended herror).1 hmeets

end Rounds

/-- A conversation of one message, and a request that the backend refuses. -/
theorem refusal_loses_conversation : ¬ ∀ (tags : ThinkingTags) (systemPrompt : String)
    (conversation : Conversation) (userMessage : String) (replies : List Reply) (ended : Ended Unit)
    (error : String),
    processMessage (fun world _ => (world, .ok "")) (fun _ _ => "") tags systemPrompt
      (some conversation) userMessage replies () = some ended →
    ended.result = .error error →
    ∀ message ∈ conversation, ∃ stored, ended.conversation = some stored ∧ message ∈ stored := by
  intro hall
  obtain ⟨stored, hstored, -⟩ := hall ⟨[], []⟩ ""
    (Conversation.addMessage [] .user "Hello.") "Go on." [.refused "connection refused"] _
    "connection refused" rfl rfl _ (List.mem_singleton_self _)
  cases hstored

end ColossalCode.Agent
