import ColossalCode.Backend.OpenAiStream
import ColossalCode.Backend.AnthropicStream
import ColossalCode.Backend.ResponsesStream

/-! When the final response of a decoder says what its chunks have said. -/
namespace ColossalCode.Backend
open List Anthropic

open Agent (Response)
open Protocol (Value)

namespace OpenAi

/-- The text of a choice that a reader of its chunk sees. -/
def StreamChoice.read (choice : StreamChoice) : List Char :=
  if choice.calls = [] then choice.text else []

theorem updateStreamingToolCalls_eq_nil {calls : List StreamToolCall}
    {state : List StreamingToolCallState} :
    (updateStreamingToolCalls calls state).2 = [] ↔ calls = [] := by
  cases calls <;> simp [updateStreamingToolCalls]

theorem choice_text (d : Decoder) (choice : StreamChoice) :
    ∃ sent, (d.choice choice).sent = d.sent ++ sent ∧ Unfinished sent ∧
      streamedText sent = choice.text ∧ consumedText sent = choice.read := by
  have hcalls : (updateStreamingToolCalls choice.calls d.toolState).2 = [] ↔ choice.calls = [] :=
    updateStreamingToolCalls_eq_nil
  unfold Decoder.choice
  generalize updateStreamingToolCalls choice.calls d.toolState = updated at hcalls ⊢
  dsimp only
  by_cases htext : choice.text = []
  · by_cases hsilent : updated.2 = [] ∧ choice.finishReason = none
    · rw [if_pos (by simp [htext, hsilent])]
      exact ⟨[], by simp, by simp [Unfinished], by simp [streamedText, htext],
        by simp [consumedText, StreamChoice.read, htext]⟩
    · rw [if_neg (by simpa [htext] using hsilent)]
      refine ⟨_, rfl, unfinished_chunk _, ?_, ?_⟩
      · simp [streamedText, deltaText, htext]
      · simp [consumedText, readText, htext, StreamChoice.read]
  · rw [if_neg (by simp [htext])]
    refine ⟨_, rfl, unfinished_chunk _, ?_, ?_⟩
    · simp [streamedText, deltaText, htext]
    · by_cases hnone : choice.calls = []
      · have hnone' := hcalls.mpr hnone
        simp [consumedText, readText, htext, StreamChoice.read, hnone', someCalls, hnone]
      · have hsome : updated.2 ≠ [] := by rwa [Ne, hcalls]
        simp [consumedText, readText, htext, StreamChoice.read, hsome, someCalls, hnone]

theorem choices_text (choices : List StreamChoice) (d : Decoder) :
    (choices.foldl Decoder.choice d).accumulatedContent =
        d.accumulatedContent ++ choices.flatMap StreamChoice.text ∧
      ∃ sent, (choices.foldl Decoder.choice d).sent = d.sent ++ sent ∧ Unfinished sent ∧
        streamedText sent = choices.flatMap StreamChoice.text ∧
        consumedText sent = choices.flatMap StreamChoice.read := by
  induction choices generalizing d with
  | nil => exact ⟨by simp, [], by simp, by simp [Unfinished], rfl, rfl⟩
  | cons choice choices ih =>
    obtain ⟨first, hfirst, hunfinished, hstreamed, hconsumed⟩ := choice_text d choice
    obtain ⟨haccumulated, rest, hrest, hunfinished', hstreamed', hconsumed'⟩ := ih (d.choice choice)
    rw [foldl_cons]
    refine ⟨?_, first ++ rest, ?_, unfinished_append hunfinished hunfinished', ?_, ?_⟩
    · rw [haccumulated, flatMap_cons, ← append_assoc]
      rfl
    · rw [hrest, hfirst, append_assoc]
    · rw [streamedText_append, hstreamed, hstreamed', flatMap_cons]
    · rw [consumedText_append, hconsumed, hconsumed', flatMap_cons]

theorem decode_chunks (events : List (List StreamChoice)) (rest : List Event) (d : Decoder) :
    decode (events.map .chunk ++ rest) d = decode rest (events.flatten.foldl Decoder.choice d) := by
  induction events generalizing d with
  | nil => rfl
  | cons choices events ih =>
    rw [map_cons, cons_append, decode, ih, flatten_cons, foldl_append]

theorem decode_end {rest : List Event} (hrest : rest = [] ∨ rest.head? = some .done) (d : Decoder) :
    decode rest d = d.finalDone := by
  rcases hrest with rfl | hdone
  · rfl
  · cases rest with
    | nil => rfl
    | cons event rest =>
      cases Option.some.inj hdone
      rfl

/-- The chunks say what the final response does; a reader misses the text of a chunk with tool
calls. -/
theorem complete_iff (events : List (List StreamChoice)) (rest : List Event)
    (hrest : rest = [] ∨ rest.head? = some .done) :
    let sent := decode (events.map .chunk ++ rest) .init
    finalText sent = some (streamedText sent) ∧
      (Complete sent ↔
        ∀ choices ∈ events, ∀ choice ∈ choices, choice.text = [] ∨ choice.calls = []) := by
  dsimp only
  obtain ⟨haccumulated, sent, hsent, hunfinished, hstreamed, hconsumed⟩ :=
    choices_text events.flatten .init
  rw [decode_chunks, decode_end hrest, Decoder.finalDone, haccumulated, hsent]
  simp only [Decoder.init, nil_append]
  rw [complete_done_iff hunfinished, hstreamed, hconsumed, finalText_done hunfinished,
    streamedText_append, hstreamed]
  refine ⟨by simp [streamedText, deltaText], ?_⟩
  have hread : ∀ choice : StreamChoice, choice.read = choice.text ∨ choice.read = [] := by
    intro choice
    unfold StreamChoice.read
    split
    · exact .inl rfl
    · exact .inr rfl
  have hiff := flatMap_eq_iff hread events.flatten
  rw [eq_comm] at hiff
  simp only [true_and, hiff, mem_flatten]
  constructor
  · intro h choices hchoices choice hchoice
    have := h choice ⟨choices, hchoices, hchoice⟩
    unfold StreamChoice.read at this
    split at this
    · exact .inr ‹_›
    · exact .inl this.symm
  · rintro h choice ⟨choices, hchoices, hchoice⟩
    unfold StreamChoice.read
    rcases h choices hchoices choice hchoice with htext | hcalls
    · rw [htext, ite_self]
    · rw [if_pos hcalls]

end OpenAi

namespace Anthropic

def ContentBlock.startText (block : ContentBlock) : List Char :=
  if block.blockType = "text" then block.text.getD [] else []

def EventDelta.addedText (delta : EventDelta) : List Char :=
  if delta.deltaType = some "text_delta" then delta.text.getD [] else []

/-- The text that a block starts with. -/
def Event.startText (event : Event) : List Char :=
  if event.eventType = "content_block_start" then
    (event.contentBlock.map (·.startText)).getD []
  else []

/-- The text that is added to a block. -/
def Event.addedText (event : Event) : List Char :=
  if event.eventType = "content_block_delta" then (event.delta.map (·.addedText)).getD [] else []

variable (d : Decoder)

theorem startBlock_text (block : ContentBlock) :
    (d.startBlock block).sent = d.sent ∧
      (d.startBlock block).accumulatedContent = d.accumulatedContent ++ block.startText := by
  unfold Decoder.startBlock ContentBlock.startText
  split <;> simp_all

/-- What a step adds to the text, and what it streams of it. -/
def Adds (d d' : Decoder) (text streamed : List Char) : Prop :=
  d'.accumulatedContent = d.accumulatedContent ++ text ∧
    ∃ sent, d'.sent = d.sent ++ sent ∧ Unfinished sent ∧ streamedText sent = streamed ∧
      consumedText sent = streamed

theorem adds_nothing {d d' : Decoder} (haccumulated : d'.accumulatedContent = d.accumulatedContent)
    (hsent : d'.sent = d.sent) : Adds d d' [] [] :=
  ⟨by rw [haccumulated, append_nil], [], by rw [hsent, append_nil], by simp [Unfinished],
    rfl, rfl⟩

theorem blockDelta_adds (delta : EventDelta) :
    Adds d (d.blockDelta delta) delta.addedText delta.addedText := by
  unfold Decoder.blockDelta EventDelta.addedText
  split
  · rename_i htype
    rw [if_pos htype]
    split
    · rename_i text htext
      rw [htext]
      exact ⟨rfl, _, rfl, unfinished_chunk _, by simp [streamedText, deltaText],
        by simp [consumedText, readText]⟩
    · rename_i htext
      rw [htext]
      exact adds_nothing rfl rfl
  · rename_i htype
    rw [if_neg (by simp [htype])]
    split
    · unfold Decoder.inputJson
      split <;> exact adds_nothing rfl rfl
    · exact adds_nothing rfl rfl
  · rename_i htype _
    rw [if_neg htype]
    exact adds_nothing rfl rfl

theorem event_adds (event : Event) :
    Adds d (d.event event) (event.startText ++ event.addedText) event.addedText := by
  unfold Decoder.event Event.startText Event.addedText
  split
  · rename_i htype
    rw [if_pos htype, if_neg (by simp [htype]), append_nil]
    cases event.contentBlock with
    | none => exact adds_nothing rfl rfl
    | some block =>
      obtain ⟨hsent, haccumulated⟩ := startBlock_text d block
      exact ⟨haccumulated, [], by simp [hsent], by simp [Unfinished], rfl, rfl⟩
  · rename_i htype
    rw [if_neg (by simp [htype]), if_pos htype, nil_append]
    cases event.delta with
    | none => exact adds_nothing rfl rfl
    | some delta => exact blockDelta_adds d delta
  · rename_i htype
    rw [if_neg (by simp [htype]), if_neg (by simp [htype])]
    exact adds_nothing rfl rfl
  · rename_i htype
    rw [if_neg (by simp [htype]), if_neg (by simp [htype])]
    exact adds_nothing rfl rfl
  · rename_i hstart hdelta _ _
    rw [if_neg hstart, if_neg hdelta]
    exact adds_nothing rfl rfl

theorem events_adds (events : List Event) (d : Decoder) :
    Adds d (events.foldl Decoder.event d)
      (events.flatMap fun event => event.startText ++ event.addedText)
      (events.flatMap Event.addedText) := by
  induction events generalizing d with
  | nil => exact adds_nothing rfl rfl
  | cons event events ih =>
    obtain ⟨hfirst, first, hsent, hunfinished, hstreamed, hconsumed⟩ := event_adds d event
    obtain ⟨hrest, rest, hsent', hunfinished', hstreamed', hconsumed'⟩ := ih (d.event event)
    rw [foldl_cons]
    refine ⟨?_, first ++ rest, ?_, unfinished_append hunfinished hunfinished', ?_, ?_⟩
    · rw [hrest, hfirst, flatMap_cons, append_assoc]
    · rw [hsent', hsent, append_assoc]
    · rw [streamedText_append, hstreamed, hstreamed', flatMap_cons]
    · rw [consumedText_append, hconsumed, hconsumed', flatMap_cons]

/-- The event ends the stream. -/
def Event.Ends (event : Event) : Prop :=
  event.eventType = "message_stop" ∨ event.eventType = "error"

theorem decode_events {events : List Event} (hevents : ∀ event ∈ events, ¬ event.Ends)
    (rest : List (Except String Event)) (d : Decoder) :
    decode (events.map .ok ++ rest) d = decode rest (events.foldl Decoder.event d) := by
  induction events generalizing d with
  | nil => rfl
  | cons event events ih =>
    have hevent := hevents event mem_cons_self
    rw [Event.Ends, not_or] at hevent
    rw [map_cons, cons_append, decode, if_neg hevent.1, if_neg hevent.2,
      ih fun event hmem => hevents event (mem_cons_of_mem _ hmem), foldl_cons]

/-- The text that a block starts with is in the final response only. -/
theorem complete_iff {events : List Event} (hevents : ∀ event ∈ events, ¬ event.Ends) {stop : Event}
    (hstop : stop.eventType = "message_stop") (rest : List (Except String Event)) :
    Complete (decode (events.map .ok ++ .ok stop :: rest) .init) ↔
      ∀ event ∈ events, event.startText = [] := by
  obtain ⟨haccumulated, sent, hsent, hunfinished, hstreamed, hconsumed⟩ := events_adds events .init
  rw [decode_events hevents, decode, if_pos hstop, Decoder.done, haccumulated, hsent]
  simp only [Decoder.init, nil_append]
  have hpart : ∀ event : Event, event.addedText = event.startText ++ event.addedText ∨
      event.addedText = [] := by
    intro event
    by_cases hstart : event.eventType = "content_block_start"
    · exact .inr (if_neg (by simp [hstart]))
    · exact .inl (by rw [Event.startText, if_neg hstart, nil_append])
  have hiff := flatMap_eq_iff hpart events
  rw [eq_comm] at hiff
  rw [complete_done_iff hunfinished, hstreamed, hconsumed, and_self, hiff]
  refine forall₂_congr fun event _ => ?_
  rw [self_eq_append_left]

end Anthropic

namespace Responses

/-- The text that an event streams. -/
def deltaOf (event : Value) : List Char :=
  if kind event = "response.output_text.delta" then ((strAt "delta" event).getD "").toList else []

/-- The whole text that an event holds. -/
def snapshotOf (event : Value) : List Char :=
  if kind event = "response.output_text.done" then ((strAt "text" event).getD "").toList
  else if kind event = "response.completed" then
    extractTextFromOutput ((event.get "response").getD event)
  else []

/-- The first event with a text, if there is one, streams it. -/
def DeltaFirst : List Value → Prop
  | [] => True
  | event :: events => deltaOf event ≠ [] ∨ (snapshotOf event = [] ∧ DeltaFirst events)

/-- An event that ends the stream by itself counts for its text. -/
def Decoder.step (d : Decoder) (event : Value) : Decoder :=
  if kind event = "response.completed" then
    d.textDone (extractTextFromOutput ((event.get "response").getD event))
  else d.event event

variable (d : Decoder)

theorem textDone_accumulated (text : List Char) :
    (d.textDone text).accumulated = if d.accumulated = [] then text else d.accumulated := by
  unfold Decoder.textDone
  by_cases h : d.accumulated = [] <;> simp [h]

theorem textDone_sent (text : List Char) : (d.textDone text).sent = d.sent := by
  unfold Decoder.textDone
  split <;> rfl

/-- What a step makes of the text, and what it streams. -/
def Steps (d d' : Decoder) (event : Value) : Prop :=
  d'.accumulated =
      (if deltaOf event ≠ [] then d.accumulated ++ deltaOf event
      else if d.accumulated = [] then snapshotOf event else d.accumulated) ∧
    ∃ sent, d'.sent = d.sent ++ sent ∧ Unfinished sent ∧ streamedText sent = deltaOf event ∧
      consumedText sent = deltaOf event

variable {event : Value} {events : List (String × Value)}
  {rest : List (String × Except String Value)}

theorem steps_silent {d d' : Decoder} (hdelta : deltaOf event = [])
    (haccumulated : d'.accumulated =
      if d.accumulated = [] then snapshotOf event else d.accumulated)
    (hsent : d'.sent = d.sent) : Steps d d' event := by
  refine ⟨?_, [], by rw [hsent, append_nil], by simp [Unfinished], hdelta.symm, hdelta.symm⟩
  rw [if_neg (by simp [hdelta]), haccumulated]

theorem event_other (hdelta : kind event ≠ "response.output_text.delta")
    (hdone : kind event ≠ "response.output_text.done") :
    (d.event event).accumulated = d.accumulated ∧ (d.event event).sent = d.sent := by
  unfold Decoder.event
  split
  · exact absurd ‹_› hdelta
  · exact absurd ‹_› hdone
  · split <;> exact ⟨rfl, rfl⟩
  · split <;> exact ⟨rfl, rfl⟩
  · exact ⟨rfl, rfl⟩
  · exact ⟨rfl, rfl⟩
  · exact ⟨rfl, rfl⟩

theorem step_steps (event : Value) : Steps d (d.step event) event := by
  by_cases hcompleted : kind event = "response.completed"
  · have hsnapshot : snapshotOf event =
        extractTextFromOutput ((event.get "response").getD event) := by
      rw [snapshotOf, hcompleted]
      rfl
    rw [Decoder.step, if_pos hcompleted, ← hsnapshot]
    refine steps_silent ?_ (textDone_accumulated _ _) (textDone_sent _ _)
    rw [deltaOf, hcompleted]
    rfl
  · rw [Decoder.step, if_neg hcompleted]
    by_cases hdone : kind event = "response.output_text.done"
    · have hsnapshot : snapshotOf event = ((strAt "text" event).getD "").toList := if_pos hdone
      have hevent : d.event event = d.textDone (snapshotOf event) := by
        simp only [hsnapshot, Decoder.event, hdone]
      rw [hevent]
      refine steps_silent ?_ (textDone_accumulated _ _) (textDone_sent _ _)
      rw [deltaOf, hdone]
      rfl
    · have hsnapshot : snapshotOf event = [] := by rw [snapshotOf, if_neg hdone, if_neg hcompleted]
      by_cases hkind : kind event = "response.output_text.delta"
      · have hdelta : deltaOf event = ((strAt "delta" event).getD "").toList := if_pos hkind
        have hevent : d.event event = d.textDelta (deltaOf event) := by
          simp only [hdelta, Decoder.event, hkind]
        rw [hevent, Decoder.textDelta]
        by_cases hempty : deltaOf event = []
        · rw [if_pos (by simp [hempty])]
          refine steps_silent hempty ?_ rfl
          rw [hsnapshot]
          by_cases h : d.accumulated = [] <;> simp [h]
        · rw [if_neg (by simp [hempty])]
          refine ⟨by rw [if_pos hempty], _, rfl, unfinished_chunk _, ?_, ?_⟩
          · simp [streamedText, Backend.deltaText]
          · simp [consumedText, readText]
      · obtain ⟨haccumulated, hsent⟩ := event_other d hkind hdone
        refine steps_silent (if_neg hkind) ?_ hsent
        rw [haccumulated, hsnapshot]
        by_cases h : d.accumulated = [] <;> simp [h]

theorem steps_sent (events : List Value) (d : Decoder) :
    ∃ sent, (events.foldl Decoder.step d).sent = d.sent ++ sent ∧ Unfinished sent ∧
      streamedText sent = events.flatMap deltaOf ∧ consumedText sent = events.flatMap deltaOf := by
  induction events generalizing d with
  | nil => exact ⟨[], by simp, by simp [Unfinished], rfl, rfl⟩
  | cons event events ih =>
    obtain ⟨-, first, hfirst, hunfinished, hstreamed, hconsumed⟩ := step_steps d event
    obtain ⟨rest, hrest, hunfinished', hstreamed', hconsumed'⟩ := ih (d.step event)
    refine ⟨first ++ rest, ?_, unfinished_append hunfinished hunfinished', ?_, ?_⟩
    · rw [foldl_cons, hrest, hfirst, append_assoc]
    · rw [streamedText_append, hstreamed, hstreamed', flatMap_cons]
    · rw [consumedText_append, hconsumed, hconsumed', flatMap_cons]

/-- After a text, only deltas add to it. -/
theorem steps_later (events : List Value) {d : Decoder} (h : d.accumulated ≠ []) :
    (events.foldl Decoder.step d).accumulated = d.accumulated ++ events.flatMap deltaOf := by
  induction events generalizing d with
  | nil => simp
  | cons event events ih =>
    have hstep : (d.step event).accumulated = d.accumulated ++ deltaOf event := by
      rw [(step_steps d event).1]
      by_cases hdelta : deltaOf event = [] <;> simp [hdelta, h]
    rw [foldl_cons, ih (by simp [hstep, h]), hstep, flatMap_cons, append_assoc]

theorem steps_first (events : List Value) {d : Decoder} (h : d.accumulated = []) :
    (events.foldl Decoder.step d).accumulated = events.flatMap deltaOf ↔ DeltaFirst events := by
  induction events generalizing d with
  | nil => simp [h, DeltaFirst]
  | cons event events ih =>
    have hstep := (step_steps d event).1
    rw [h] at hstep
    rw [foldl_cons, flatMap_cons, DeltaFirst]
    by_cases hdelta : deltaOf event = []
    · rw [if_neg (by simp [hdelta]), if_pos rfl] at hstep
      by_cases hsnapshot : snapshotOf event = []
      · rw [hdelta, nil_append, ih (hstep.trans hsnapshot)]
        simp [hsnapshot]
      · rw [steps_later events (hstep ▸ hsnapshot), hstep]
        simp [hdelta, hsnapshot]
    · rw [if_pos hdelta, nil_append] at hstep
      rw [steps_later events (hstep ▸ hdelta), hstep]
      simp [hdelta]

/-- The event ends the stream. -/
def Ends (event : Value) : Prop :=
  kind event = "error" ∨ kind event = "response.error" ∨ kind event = "response.failed" ∨
    kind event = "response.completed"

theorem decode_event (hevent : ¬ Ends event) (stopsAtFailed : Bool) (text : String)
    (rest : List (String × Except String Value)) (d : Decoder) :
    decodeWith stopsAtFailed ((text, .ok event) :: rest) d =
      decodeWith stopsAtFailed rest (d.step event) := by
  unfold Ends at hevent
  push Not at hevent
  obtain ⟨herror, hresponse, hfailed, hcompleted⟩ := hevent
  rw [decodeWith, Decoder.step, if_neg hcompleted]
  split
  · exact absurd ‹_› herror
  · exact absurd ‹_› hresponse
  · exact absurd ‹_› hcompleted
  · exact absurd ‹_› hfailed
  · rfl

theorem decode_completed (hcompleted : kind event = "response.completed")
    (stopsAtFailed : Bool) (text : String) (rest : List (String × Except String Value))
    (d : Decoder) :
    decodeWith stopsAtFailed ((text, .ok event) :: rest) d = (d.step event).done := by
  rw [decodeWith, hcompleted, Decoder.step, if_pos hcompleted]
  rfl

theorem decode_events (hevents : ∀ event ∈ events, ¬ Ends event.2)
    (rest : List (String × Except String Value)) (d : Decoder) :
    decodeWith true ((events.map fun event => (event.1, .ok event.2)) ++ rest) d =
      decodeWith true rest ((events.map Prod.snd).foldl Decoder.step d) := by
  induction events generalizing d with
  | nil => rfl
  | cons event events ih =>
    rw [map_cons, cons_append, decode_event (hevents event mem_cons_self),
      ih fun event hmem => hevents event (mem_cons_of_mem _ hmem)]
    rfl

/-- The stream is over, or `response.completed` comes next. -/
def Closed : List (String × Except String Value) → Prop
  | [] => True
  | (_, .ok event) :: _ => kind event = "response.completed"
  | (_, .error _) :: _ => False

/-- The event that closes the stream. -/
def closing : List (String × Except String Value) → List Value
  | (_, .ok event) :: _ => [event]
  | _ => []

theorem decode_closed (hrest : Closed rest)
    (d : Decoder) : decodeWith true rest d = ((closing rest).foldl Decoder.step d).done := by
  match rest, hrest with
  | [], _ => rfl
  | (text, .ok event) :: rest, hclosed => exact decode_completed hclosed true text rest d

/-- A text that comes whole before any delta is in the final response only. -/
theorem complete_iff (hevents : ∀ event ∈ events, ¬ Ends event.2) (hrest : Closed rest) :
    Complete (decodeWith true ((events.map fun event => (event.1, .ok event.2)) ++ rest) .init) ↔
      DeltaFirst (events.map Prod.snd ++ closing rest) := by
  rw [decode_events hevents, decode_closed hrest, ← foldl_append]
  obtain ⟨sent, hsent, hunfinished, hstreamed, hconsumed⟩ :=
    steps_sent (events.map Prod.snd ++ closing rest) .init
  rw [Decoder.done, makeDone, hsent]
  simp only [Decoder.init, nil_append]
  rw [complete_done_iff hunfinished, hstreamed, hconsumed, and_self]
  exact steps_first _ rfl

theorem decode_unfailed {entries : List (String × Except String Value)}
    (h : ∀ entry ∈ entries, entry.2.toOption.map kind ≠ some "response.failed") (d : Decoder) :
    decodeWith true entries d = decodeWith false entries d := by
  induction entries generalizing d with
  | nil => rfl
  | cons entry rest ih =>
    obtain ⟨hentry, hrest⟩ := forall_mem_cons.mp h
    obtain ⟨text, error | event⟩ := entry
    · rfl
    · rw [decodeWith, decodeWith]
      split
      · rfl
      · rfl
      · rfl
      · exact absurd (congrArg some ‹_›) hentry
      · exact ih hrest _

end Responses

/-- The three decoders send the same responses wherever the bytes of a stream are cut. -/
theorem responses_cut (readChunk : List Char → Except String (List OpenAi.StreamChoice))
    (readEvent : String → Except String Event) (parse : String → Except String Value)
    (print : Value → String) (chunks : List (List UInt8)) :
    OpenAi.processSseStream readChunk chunks =
        OpenAi.processSseStream readChunk [chunks.flatten] ∧
      Anthropic.processAnthropicSse readEvent chunks =
        Anthropic.processAnthropicSse readEvent [chunks.flatten] ∧
      Responses.processResponsesSse parse print chunks =
        Responses.processResponsesSse parse print [chunks.flatten] := by
  refine ⟨?_, ?_, ?_⟩
  · rw [OpenAi.processSseStream, OpenAi.processSseStream, payloads_cut]
  · rw [Anthropic.processAnthropicSse, Anthropic.processAnthropicSse, payloads_cut]
  · simp only [Responses.processResponsesSse, Responses.framer.feed_receive, flatten_singleton]

/-- The chunks of the OpenAI chat stream always say what its final response does, and a reader of
the chunks misses the text of those with tool calls; the other two backends leave text out of their
chunks that a block starts with, or that comes whole before any delta. -/
theorem streamed_text_complete_iff (chunks : List (List OpenAi.StreamChoice))
    {after : List OpenAi.Event} (hafter : after = [] ∨ after.head? = some .done)
    {blocks : List Event} (hblocks : ∀ event ∈ blocks, ¬ event.Ends)
    {stop : Event} (hstop : stop.eventType = "message_stop")
    (afterStop : List (Except String Event))
    {events : List (String × Value)} (hevents : ∀ event ∈ events, ¬ Responses.Ends event.2)
    {rest : List (String × Except String Value)} (hrest : Responses.Closed rest) :
    (finalText (OpenAi.decode (chunks.map .chunk ++ after) .init) =
        some (streamedText (OpenAi.decode (chunks.map .chunk ++ after) .init)) ∧
      (Complete (OpenAi.decode (chunks.map .chunk ++ after) .init) ↔
        ∀ choices ∈ chunks, ∀ choice ∈ choices, choice.text = [] ∨ choice.calls = [])) ∧
    (Complete (Anthropic.decode (blocks.map .ok ++ .ok stop :: afterStop) .init) ↔
      ∀ event ∈ blocks, event.startText = []) ∧
    (Complete (Responses.decodeWith true
        ((events.map fun event => (event.1, .ok event.2)) ++ rest) .init) ↔
      Responses.DeltaFirst (events.map Prod.snd ++ Responses.closing rest)) :=
  ⟨OpenAi.complete_iff chunks after hafter, Anthropic.complete_iff hblocks hstop afterStop,
    Responses.complete_iff hevents hrest⟩

def helloChoice (calls : Option (List OpenAi.StreamToolCall)) : OpenAi.StreamChoice :=
  ⟨0, ⟨some (.text "Hello".toList), none, calls⟩, none⟩

def readCall : OpenAi.StreamToolCall := ⟨some 0, some "a", some ⟨some "read", some ""⟩⟩

def helloDelta : Event :=
  ⟨"content_block_delta", some ⟨some "text_delta", some "Hello".toList, none, none⟩, none, none⟩

def helloBlock : Event :=
  ⟨"content_block_start", none, some ⟨"text", none, none, some "Hello".toList⟩, none⟩

def messageStop : Event := ⟨"message_stop", none, none, none⟩

def textEvent (kind key : String) : Value :=
  .object [("type", .string kind), (key, .string "Hello")]

theorem streamed_text_complete_hello :
    Complete (OpenAi.decode [.chunk [helloChoice none], .done] .init) ∧
    Complete (Anthropic.decode [.ok helloDelta, .ok messageStop] .init) ∧
    Complete (Responses.decodeWith true
      [("", .ok (textEvent "response.output_text.delta" "delta"))] .init) := by
  have hevents : ∀ event ∈ [("", textEvent "response.output_text.delta" "delta")],
      ¬ Responses.Ends event.2 := by
    intro event hevent
    rw [mem_singleton.mp hevent]
    simp [Responses.Ends, Responses.kind, Responses.strAt, textEvent, Value.get, Value.asStr]
  have hblocks : ∀ event ∈ [helloDelta], ¬ event.Ends := by
    simp [Event.Ends, helloDelta]
  have hafter : [OpenAi.Event.done] = [] ∨ [OpenAi.Event.done].head? = some .done := .inr rfl
  have hstop : messageStop.eventType = "message_stop" := rfl
  have hclosed : Responses.Closed [] := trivial
  obtain ⟨⟨-, hopenAi⟩, hanthropic, hresponses⟩ :=
    streamed_text_complete_iff [[helloChoice none]] hafter hblocks hstop [] hevents hclosed
  refine ⟨hopenAi.mpr ?_, hanthropic.mpr ?_, hresponses.mpr ?_⟩
  · simp [helloChoice, OpenAi.StreamChoice.calls]
  · simp [helloDelta, Event.startText]
  · left
    decide

/-- A text block that starts with its text, a text that comes whole, and a text with a tool call. -/
theorem text_left_out :
    finalText (Anthropic.decode [.ok helloBlock, .ok messageStop] .init) = some "Hello".toList ∧
    streamedText (Anthropic.decode [.ok helloBlock, .ok messageStop] .init) = [] ∧
    finalText (Responses.decodeWith true
      [("", .ok (textEvent "response.output_text.done" "text"))] .init) = some "Hello".toList ∧
    streamedText (Responses.decodeWith true
      [("", .ok (textEvent "response.output_text.done" "text"))] .init) = [] ∧
    finalText (OpenAi.decode [.chunk [helloChoice (some [readCall])], .done] .init) =
      some "Hello".toList ∧
    consumedText (OpenAi.decode [.chunk [helloChoice (some [readCall])], .done] .init) = [] :=
  ⟨rfl, rfl, rfl, rfl, rfl, rfl⟩

end ColossalCode.Backend
