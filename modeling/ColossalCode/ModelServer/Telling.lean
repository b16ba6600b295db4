import ColossalCode.ModelServer.Faces

/-! When all clients of the model server are told the same. -/
namespace ColossalCode.ModelServer.Faces
open List Option Exchange OpenAIEvent Story EngineResponse

open Protocol (Value)
open Agent (ToolCallResponse)

variable {fromStr : String → Option Value} {toolCallsJson : List ToolCallResponse → String}
  {chunks : List (List ChunkChoice)} {choice : Choice} {rest : List Choice}
  {pieces : List (List CompletionChunkChoice)} {last : List CompletionChoice}

theorem join_map_eq_empty {α : Type*} {xs : List α} {text : α → String} :
    String.join (xs.map text) = "" ↔ ∀ x ∈ xs, text x = "" := by
  rw [← String.toList_inj, String.toList_join]
  simp

theorem lastReason_append (reasons more : List (Option String)) :
    lastReason (reasons ++ more) = (lastReason more).or (lastReason reasons) := by
  simp [lastReason, filterMap_append, List.getLast?_append]

theorem chatEvents_eq (chunks : List (List ChunkChoice)) (ending : Ending Choice) :
    chatEvents chunks ending = chunks.map (fun chunk => .chunk (chunk.map chatChunkChoice)) ++
      ending.chat.flatMap handleChatCompletions := by
  unfold chatEvents
  rw [flatMap_append]
  congr 1
  induction chunks with
  | nil => rfl
  | cons chunk chunks ih => simpa [handleChatCompletions] using ih

theorem completionEvents_eq (pieces : List (List CompletionChunkChoice))
    (ending : Ending CompletionChoice) : completionEvents pieces ending =
      pieces.map (fun chunk => .chunk (chunk.map completionChunkChoice)) ++
        ending.completion.flatMap handleCompletions := by
  unfold completionEvents
  rw [flatMap_append]
  congr 1
  induction pieces with
  | nil => rfl
  | cons chunk pieces ih => simpa [handleCompletions] using ih

variable {γ δ : Type} {ending : Ending CompletionChoice}

theorem countP_chunks (chunks : List δ) (choices : δ → List γ) :
    (chunks.map fun chunk => OpenAIEvent.chunk (choices chunk)).countP OpenAIEvent.isDone = 0 := by
  rw [countP_eq_zero]
  intro event hevent
  obtain ⟨chunk, -, rfl⟩ := mem_map.mp hevent
  simp [OpenAIEvent.isDone]

/-- Only a `Done` ends a stream. -/
theorem done_of_chat_ends {ending : Ending Choice} (h : EndsOnce (chatEvents chunks ending)) :
    ∃ choices, ending = .done choices := by
  obtain ⟨-, hcount⟩ := h
  rw [chatEvents_eq, countP_append, countP_chunks, Nat.zero_add] at hcount
  cases ending with
  | done choices => exact ⟨choices, rfl⟩
  | modelError | internalError | validationError | closed =>
    simp [Ending.chat, handleChatCompletions, OpenAIEvent.isDone] at hcount

theorem done_of_completion_ends
    (h : EndsOnce (completionEvents pieces ending)) : ∃ choices, ending = .done choices := by
  obtain ⟨-, hcount⟩ := h
  rw [completionEvents_eq, countP_append, countP_chunks, Nat.zero_add] at hcount
  cases ending with
  | done choices => exact ⟨choices, rfl⟩
  | modelError | internalError | validationError | closed =>
    simp [Ending.completion, handleCompletions, OpenAIEvent.isDone] at hcount

theorem chat_done_ends (choices : List Choice) : EndsOnce (chatEvents chunks (.done choices)) := by
  unfold EndsOnce
  rw [chatEvents_eq, countP_append, countP_chunks, Ending.chat]
  simp only [flatMap_cons, flatMap_nil, append_nil, handleChatCompletions]
  constructor
  · rw [← append_assoc, List.getLast?_append]
    rfl
  · split
    · split
      · split <;> rfl
      · rfl
    · rfl

theorem completion_done_ends (choices : List CompletionChoice) :
    EndsOnce (completionEvents pieces (.done choices)) := by
  unfold EndsOnce
  rw [completionEvents_eq, countP_append, countP_chunks, Ending.completion]
  simp only [flatMap_cons, flatMap_nil, append_nil, handleCompletions]
  constructor
  · rw [← append_assoc, List.getLast?_append]
    rfl
  · split
    · split <;> rfl
    · rfl

/-- The choices that a `Done` brings to the stream. -/
def doneChoices (choice : Choice) : List OpenAIChatChunkChoice :=
  if choice.message.content.getD "" = "" then []
  else [⟨0, some choice.message.role, choice.message.content,
    choice.message.toolCalls.map nested, some choice.finishReason⟩]

theorem choices_chunks (chunks : List (List δ)) (f : δ → γ) :
    (chunks.map fun chunk => OpenAIEvent.chunk (chunk.map f)).flatMap OpenAIEvent.choices =
      chunks.flatten.map f := by
  induction chunks with
  | nil => rfl
  | cons chunk chunks ih => simp [OpenAIEvent.choices, ih]

theorem choices_chat : (chatEvents chunks (.done (choice :: rest))).flatMap choices =
    chunks.flatten.map chatChunkChoice ++ doneChoices choice := by
  rw [chatEvents_eq, flatMap_append, choices_chunks]
  congr 1
  unfold doneChoices
  cases hcontent : choice.message.content with
  | none => simp [Ending.chat, handleChatCompletions, hcontent, choices]
  | some content =>
    by_cases hempty : content = "" <;>
      simp [Ending.chat, handleChatCompletions, hcontent, hempty, choices]

theorem noError_chunks (chunks : List δ) (choices : δ → List γ) :
    (chunks.map fun chunk => OpenAIEvent.chunk (choices chunk)).any OpenAIEvent.isError = false := by
  rw [List.any_eq_false]
  intro event hevent
  obtain ⟨chunk, -, rfl⟩ := List.mem_map.mp hevent
  simp [OpenAIEvent.isError]

theorem noError_chat (choices : List Choice) :
    (chatEvents chunks (.done choices)).any isError = false := by
  rw [chatEvents_eq, any_append, noError_chunks, Bool.false_or, Ending.chat]
  simp only [flatMap_cons, flatMap_nil, append_nil, handleChatCompletions]
  split
  · split
    · split <;> rfl
    · rfl
  · rfl

theorem noError_completion (choices : List CompletionChoice) :
    (completionEvents pieces (.done choices)).any isError = false := by
  rw [completionEvents_eq, any_append, noError_chunks, Bool.false_or, Ending.completion]
  simp only [flatMap_cons, flatMap_nil, append_nil, handleCompletions]
  split
  · split <;> rfl
  · rfl

theorem chat_text :
    (readChatEvents fromStr (chatEvents chunks (.done (choice :: rest)))).text =
      String.join (chunks.flatten.map fun c => c.delta.content.getD "") ++
        choice.message.content.getD "" := by
  simp only [readChatEvents, choices_chat, List.map_append, List.map_map, String.join_append]
  congr 1
  unfold doneChoices
  split
  · rename_i hempty
    simp [hempty]
  · simp

theorem chat_calls :
    (readChatEvents fromStr (chatEvents chunks (.done (choice :: rest)))).toolCalls = [] ↔
      (∀ c ∈ chunks.flatten, c.delta.toolCalls = none) ∧
        (choice.message.content.getD "" = "" ∨ choice.message.toolCalls = none) := by
  have hnested (calls : Option (List ToolCallResponse)) :
      ((calls.map nested).getD []).map (readCall fromStr) = [] ↔ calls = none := by
    cases calls <;> simp [nested]
  simp only [readChatEvents, choices_chat, flatMap_append, append_eq_nil_iff,
    flatMap_eq_nil_iff, List.mem_map, forall_exists_index, and_imp, forall_apply_eq_imp_iff₂]
  refine and_congr ?_ ?_
  · exact forall_congr' fun c => imp_congr_right fun _ => hnested _
  · unfold doneChoices
    by_cases hempty : choice.message.content.getD "" = ""
    · simp [hempty]
    · simp only [hempty, if_false, mem_singleton, forall_eq, false_or]
      exact hnested choice.message.toolCalls

theorem chat_reason :
    (readChatEvents fromStr (chatEvents chunks (.done (choice :: rest)))).finishReason =
      if choice.message.content.getD "" = "" then lastReason (chunks.flatten.map (·.finishReason))
      else some choice.finishReason := by
  simp only [readChatEvents, choices_chat, List.map_append, List.map_map, lastReason_append]
  unfold doneChoices
  split
  · rfl
  · rfl

theorem api_chat_text (choices : List Choice) :
    (readApiEvents ((chunks.map EngineResponse.chunk ++ Ending.chat (.done choices)).map
      (chatStreamEvent toolCallsJson))).text =
        String.join (chunks.flatten.map fun c => deltaToken toolCallsJson c.delta) := by
  simp only [readApiEvents, Ending.chat, List.map_append, List.map_map, String.join_append]
  have hlast : String.join (List.map (ApiEvent.text ∘ chatStreamEvent toolCallsJson)
      [.done choices]) = "" := by
    simp [chatStreamEvent, ApiEvent.text]
  rw [hlast, String.append_empty]
  induction chunks with
  | nil => rfl
  | cons chunk chunks ih =>
    simp only [List.map_cons, String.join_cons, List.flatten_cons, List.map_append,
      String.join_append, ih]
    rfl

theorem api_chat_reason :
    (readApiEvents ((chunks.map EngineResponse.chunk ++ Ending.chat (.done (choice :: rest))).map
      (chatStreamEvent toolCallsJson))).finishReason = some choice.finishReason := by
  simp only [readApiEvents, Ending.chat, List.map_append, List.map_map, lastReason_append]
  rfl

theorem api_chat_failed (choices : List Choice) :
    (readApiEvents ((chunks.map EngineResponse.chunk ++ Ending.chat (.done choices)).map
      (chatStreamEvent toolCallsJson))).failed = false := by
  simp only [readApiEvents, Ending.chat, List.map_append, List.any_append, List.any_map]
  simp [chatStreamEvent, ApiEvent.isError, Function.comp_def]

def endText (last : List CompletionChoice) : String := (last.head?.map (·.text)).getD ""

def doneCompletionChoices (last : List CompletionChoice) : List OpenAICompletionChunkChoice :=
  if endText last = "" then []
  else last.head?.toList.map fun choice => ⟨choice.text, 0, some choice.finishReason⟩

theorem choices_completion : (completionEvents pieces (.done last)).flatMap choices =
    pieces.flatten.map completionChunkChoice ++ doneCompletionChoices last := by
  rw [completionEvents_eq, flatMap_append, choices_chunks]
  congr 1
  unfold doneCompletionChoices endText
  cases last with
  | nil => rfl
  | cons choice rest =>
    by_cases hempty : choice.text = "" <;>
      simp [Ending.completion, handleCompletions, hempty, choices]

theorem completion_text : (readCompletionEvents (completionEvents pieces (.done last))).text =
    String.join (pieces.flatten.map (·.text)) ++ endText last := by
  simp only [readCompletionEvents, choices_completion, List.map_append, List.map_map,
    String.join_append]
  congr 1
  unfold doneCompletionChoices
  split
  · rename_i hempty
    simp [hempty]
  · cases last <;> simp [endText]

theorem completion_reason_empty (hempty : endText last = "") :
    (readCompletionEvents (completionEvents pieces (.done last))).finishReason =
      lastReason (pieces.flatten.map (·.finishReason)) := by
  simp only [readCompletionEvents, choices_completion, List.map_append, List.map_map,
    lastReason_append, doneCompletionChoices, hempty, if_true]
  rfl

theorem api_completion_text :
    (readApiEvents ((pieces.map completionChunk ++
      Ending.completion (.done last)).map completionStreamEvent)).text =
        String.join (pieces.flatten.map (·.text)) := by
  simp only [readApiEvents, Ending.completion, List.map_append, List.map_map, String.join_append]
  have hlast : String.join (List.map (ApiEvent.text ∘ completionStreamEvent)
      [.completionDone last]) = "" := by
    simp [completionStreamEvent, ApiEvent.text]
  rw [hlast, String.append_empty]
  induction pieces with
  | nil => rfl
  | cons chunk pieces ih =>
    simp only [List.map_cons, String.join_cons, List.flatten_cons, List.map_append,
      String.join_append, ih]
    rfl

theorem api_completion_reason :
    (readApiEvents ((pieces.map completionChunk ++
      Ending.completion (.done last)).map completionStreamEvent)).finishReason =
        (last.head?.map (·.finishReason)).or
          (lastReason (pieces.map fun chunk => chunk.findSome? (·.finishReason))) := by
  simp only [readApiEvents, Ending.completion, List.map_append, List.map_map, lastReason_append]
  cases last <;> rfl

theorem api_completion_failed :
    (readApiEvents ((pieces.map completionChunk ++
      Ending.completion (.done last)).map completionStreamEvent)).failed = false := by
  simp only [readApiEvents, Ending.completion, List.map_append, List.any_append, List.any_map]
  simp [completionStreamEvent, ApiEvent.isError, Function.comp_def]

theorem Story.ext {s t : Story} (htext : s.text = t.text) (hcalls : s.toolCalls = t.toolCalls)
    (hreason : s.finishReason = t.finishReason) (hfailed : s.failed = t.failed) : s = t := by
  cases s
  cases t
  simp_all

theorem deltaToken_plain {delta : Delta} (hcalls : delta.toolCalls = none) :
    deltaToken toolCallsJson delta = delta.content.getD "" := by
  unfold deltaToken
  cases delta.content <;> simp [hcalls]

theorem chat_plain_of_toldAlike {ending : Ending Choice}
    (h : (chat chunks ending).ToldAlike fromStr toolCallsJson) :
    (chat chunks ending).Plain := by
  obtain ⟨choices, rfl⟩ := done_of_chat_ends h.ended
  obtain ⟨told, hall, -⟩ := h.story
  simp only [stories, mem_cons, not_mem_nil, or_false, forall_eq_or_imp,
    forall_eq] at hall
  obtain ⟨hstream, hapi, hwhole, hapiWhole⟩ := hall
  have hfailed : told.failed = false := by
    rw [← hapi]
    exact api_chat_failed choices
  cases choices with
  | nil =>
    rw [← hwhole] at hfailed
    cases hfailed
  | cons choice rest =>
    have htext : told.text = choice.message.content.getD "" := by
      rw [← hwhole]
      cases hcontent : choice.message.content <;>
        simp [Ending.chat, MistralModelManager.chat, convertChatResponse, readOpenAIChat, hcontent]
    have hcalls : told.toolCalls = [] := by
      rw [← hwhole]
      rfl
    have hreason : told.finishReason =
        some (if choice.finishReason.isEmpty then "stop" else choice.finishReason) := by
      rw [← hwhole]
      rfl
    -- the stream holds the text of its end after the text of its chunks
    have hnoText : ∀ c ∈ chunks.flatten, c.delta.content.getD "" = "" := by
      have hboth := congrArg Story.text hstream
      rw [chat_text, htext, String.append_eq_right_iff] at hboth
      exact join_map_eq_empty.mp hboth
    obtain ⟨hnoCalls, -⟩ := chat_calls.mp ((congrArg Story.toolCalls hstream).trans hcalls)
    have hempty : choice.message.content.getD "" = "" := by
      rw [← htext, ← hapi, api_chat_text, join_map_eq_empty]
      intro c hc
      rw [deltaToken_plain (hnoCalls c hc)]
      exact hnoText c hc
    have hdoneCalls : choice.message.toolCalls.getD [] = [] := by
      have hread := congrArg Story.toolCalls hapiWhole
      rw [hcalls] at hread
      simpa [Ending.chat, MistralModelManager.chat, convertChatResponse, readApiChat,
        convertToolCalls] using hread
    have hgiven : some choice.finishReason = told.finishReason := by
      rw [← hapi]
      exact api_chat_reason.symm
    refine ⟨choice, rest, rfl, hempty, hdoneCalls, fun c hc => ⟨hnoText c hc, hnoCalls c hc⟩, ?_, ?_⟩
    · intro hnone
      rw [hreason, hnone] at hgiven
      exact absurd (Option.some.inj hgiven) (by decide)
    · have hlast := congrArg Story.finishReason hstream
      rw [chat_reason, if_pos hempty] at hlast
      exact hlast.trans hgiven.symm

theorem chat_toldAlike_of_plain {ending : Ending Choice} (h : (chat chunks ending).Plain) :
    (chat chunks ending).ToldAlike fromStr toolCallsJson := by
  obtain ⟨choice, rest, rfl, hempty, hdoneCalls, hplain, hne, hlast⟩ := h
  have hnoText : String.join (chunks.flatten.map fun c => c.delta.content.getD "") = "" :=
    join_map_eq_empty.mpr fun c hc => (hplain c hc).1
  have htoken : String.join (chunks.flatten.map fun c => deltaToken toolCallsJson c.delta) = "" := by
    rw [join_map_eq_empty]
    intro c hc
    rw [deltaToken_plain (hplain c hc).2]
    exact (hplain c hc).1
  have hnoCalls : (chunks.flatten.flatMap fun c => c.delta.toolCalls.getD []) = [] := by
    rw [flatMap_eq_nil_iff]
    intro c hc
    rw [(hplain c hc).2]
    rfl
  have hnotEmpty : choice.finishReason.isEmpty = false := by simpa using hne
  refine ⟨⟨⟨"", [], some choice.finishReason, false⟩, ?_, ?_, ?_, ?_⟩, chat_done_ends _⟩
  · simp only [stories, mem_cons, not_mem_nil, or_false, forall_eq_or_imp,
      forall_eq]
    refine ⟨Story.ext ?_ ?_ ?_ ?_, Story.ext ?_ rfl api_chat_reason (api_chat_failed _), ?_, ?_⟩
    · rw [chat_text, hnoText, hempty]
      rfl
    · exact chat_calls.mpr ⟨fun c hc => (hplain c hc).2, .inl hempty⟩
    · rw [chat_reason, if_pos hempty, hlast]
    · exact noError_chat _
    · rw [api_chat_text, htoken]
    · cases hcontent : choice.message.content <;>
        simp_all [Ending.chat, MistralModelManager.chat, convertChatResponse, readOpenAIChat]
    · cases hcontent : choice.message.content <;>
        simp_all [Ending.chat, MistralModelManager.chat, convertChatResponse, readApiChat,
          convertToolCalls]
  · simp only [generatedText]
    rw [hnoText, hempty]
    rfl
  · simp [generatedCalls, hnoCalls, hdoneCalls, convertToolCalls]
  · intro herror
    cases herror

theorem generate_done : MistralModelManager.generate (Ending.completion (.done last)) =
    .ok (convertCompletionResponse last) := rfl

theorem convertCompletion_output (last : List CompletionChoice) :
    (convertCompletionResponse last).output = endText last := by
  cases last <;> rfl

/-- Both whole answers give the same reason only if it is one of two. -/
theorem same_reason {f : FinishReason} (h : finishReasonToStr f = f.serialized) :
    finishReasonToStr f = "stop" ∨ finishReasonToStr f = "length" := by
  cases f with
  | stop => exact .inl rfl
  | length => exact .inr rfl
  | toolCall => exact absurd h (by decide)
  | error => exact absurd h (by decide)

theorem parse_known {reason : String} (h : reason = "stop" ∨ reason = "length") :
    finishReasonToStr (parseFinishReason reason) = reason ∧
      (parseFinishReason reason).serialized = reason := by
  rcases h with rfl | rfl <;> decide

theorem completion_plain_of_toldAlike
    (h : (completion pieces ending).ToldAlike fromStr toolCallsJson) :
    (completion pieces ending).Plain := by
  obtain ⟨last, rfl⟩ := done_of_completion_ends h.ended
  obtain ⟨told, hall, -⟩ := h.story
  simp only [stories, mem_cons, not_mem_nil, or_false, forall_eq_or_imp,
    forall_eq] at hall
  obtain ⟨hstream, hapi, hwhole, hapiWhole⟩ := hall
  rw [generate_done] at hwhole hapiWhole
  have htext : told.text = endText last := by
    rw [← hwhole]
    exact convertCompletion_output last
  have hnoText : ∀ c ∈ pieces.flatten, c.text = "" := by
    have hboth := congrArg text hstream
    rw [completion_text, htext, String.append_eq_right_iff] at hboth
    exact join_map_eq_empty.mp hboth
  have hempty : endText last = "" := by
    rw [← htext, ← hapi, api_completion_text, join_map_eq_empty]
    exact hnoText
  have hreason : told.finishReason =
      some (finishReasonToStr (convertCompletionResponse last).finishReason) := by
    rw [← hwhole]
    rfl
  have hknown := same_reason (Option.some.inj (hreason.symm.trans
    (congrArg finishReason hapiWhole).symm))
  have hgiven := congrArg finishReason hapi
  rw [api_completion_reason, hreason] at hgiven
  have hlast := congrArg finishReason hstream
  rw [completion_reason_empty hempty, hreason] at hlast
  refine ⟨last, rfl, ?_, hnoText, _, hknown, hlast, ?_⟩
  · intro choice hchoice
    simpa [endText, mem_def.mp hchoice] using hempty
  · cases last with
    | nil => exact ⟨rfl, by simpa using hgiven⟩
    | cons choice rest => exact Option.some.inj hgiven

theorem completion_toldAlike_of_plain (h : (completion pieces ending).Plain) :
    (completion pieces ending).ToldAlike fromStr toolCallsJson := by
  obtain ⟨last, rfl, hend, hplain, reason, hknown, hlast, hgiven⟩ := h
  have hnoText : String.join (pieces.flatten.map (·.text)) = "" := join_map_eq_empty.mpr hplain
  have hempty : endText last = "" := by
    cases last with
    | nil => rfl
    | cons choice rest => exact hend choice rfl
  have hwhole : finishReasonToStr (convertCompletionResponse last).finishReason = reason ∧
      (convertCompletionResponse last).finishReason.serialized = reason ∧
      (last.head?.map (·.finishReason)).or
        (lastReason (pieces.map fun chunk => chunk.findSome? (·.finishReason))) = some reason := by
    cases last with
    | nil =>
      obtain ⟨rfl, hpieces⟩ := hgiven
      exact ⟨rfl, rfl, by simpa using hpieces⟩
    | cons choice rest =>
      obtain ⟨hprinted, hserialized⟩ := parse_known hknown
      have hchoice : choice.finishReason = reason := hgiven
      refine ⟨?_, ?_, by simp [hchoice]⟩
      · simpa [convertCompletionResponse, hchoice] using hprinted
      · simpa [convertCompletionResponse, hchoice] using hserialized
  obtain ⟨hprinted, hserialized, hreported⟩ := hwhole
  refine ⟨⟨⟨"", [], some reason, false⟩, ?_, ?_, ?_, ?_⟩, completion_done_ends _⟩
  · simp only [stories, mem_cons, not_mem_nil, or_false, forall_eq_or_imp,
      forall_eq, generate_done]
    refine ⟨ext ?_ rfl ?_ (noError_completion _), ext ?_ rfl ?_ api_completion_failed,
      ext ?_ rfl ?_ rfl, ext ?_ rfl ?_ rfl⟩
    · rw [completion_text, hnoText, hempty]
      rfl
    · rw [completion_reason_empty hempty, hlast]
    · rw [api_completion_text, hnoText]
    · rw [api_completion_reason, hreported]
    · exact (convertCompletion_output last).trans hempty
    · exact congrArg some hprinted
    · exact (convertCompletion_output last).trans hempty
    · exact congrArg some hserialized
  · cases last with
    | nil => simp only [generatedText, hnoText]
    | cons choice rest =>
      simp only [generatedText, hnoText]
      exact (hend choice rfl).symm
  · rfl
  · intro herror
    cases herror

/-- All clients are told the same of an exchange if and only if there is nothing to tell. -/
theorem told_alike_iff (fromStr : String → Option Value)
    (toolCallsJson : List ToolCallResponse → String) (e : Exchange) :
    e.ToldAlike fromStr toolCallsJson ↔ e.Plain := by
  cases e with
  | chat chunks ending => exact ⟨chat_plain_of_toldAlike, chat_toldAlike_of_plain⟩
  | completion pieces ending =>
    exact ⟨completion_plain_of_toldAlike, completion_toldAlike_of_plain⟩

/-- A text comes once under `/v1`, and not at all from the stream under `/api`. -/
theorem text_told_by_some : ¬ ∀ (fromStr : String → Option Value)
    (toolCallsJson : List ToolCallResponse → String) (e : Exchange),
    e.ToldAlike fromStr toolCallsJson := by
  intro hall
  have h := hall (fun _ => none) (fun _ => "")
    (.chat [] (.done [⟨"stop", 0, ⟨some "text", "assistant", none⟩⟩]))
  obtain ⟨told, hsame, -⟩ := h.story
  have hstream := congrArg text (hsame _ mem_cons_self)
  have hapi := congrArg text (hsame _ (mem_cons_of_mem _ mem_cons_self))
  exact absurd (hstream.trans hapi.symm) (by decide)

end ColossalCode.ModelServer.Faces
