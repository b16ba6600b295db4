import ColossalCode.Backend.OpenAiCalls
import ColossalCode.Backend.ResponsesCalls

/-! Tool calls put together from fragments that arrive interleaved. -/
namespace ColossalCode.Backend
open Prod Responses OpenAi

open Protocol (Value)

/-- A call is put together from the fragments addressed to it, in whatever order those of other
calls come in between. The OpenAI decoder emits each call as it stands, the Responses decoder
none. -/
theorem tool_calls_assembled {chunks chunks' : List (List StreamChoice)}
    {after after' : List Event} (hafter : after = [] ∨ after.head? = some .done)
    (hafter' : after' = [] ∨ after'.head? = some .done)
    (hindexed : Indexed (fragmentsOf chunks))
    (hindexed' : Indexed (fragmentsOf chunks'))
    {events events' : List (String × Value)} (hevents : ∀ event ∈ events, ¬ Ends event.2)
    (hevents' : ∀ event ∈ events', ¬ Ends event.2)
    {rest rest' : List (String × Except String Value)} (hrest : Closed rest)
    (hrest' : Closed rest') (haddressed : Addressed [] (events.map snd))
    (haddressed' : Addressed [] (events'.map snd)) :
    let sent := decode (chunks.map .chunk ++ after) .init
    let sent' := decode (chunks'.map .chunk ++ after') .init
    let decoded := Responses.decodeWith true
      ((events.map fun event => (event.1, .ok event.2)) ++ rest) .init
    let decoded' := Responses.decodeWith true
      ((events'.map fun event => (event.1, .ok event.2)) ++ rest') .init
    ((∀ n, (∀ call ∈ fragmentsOf chunks, ∀ idx ∈ call.index, idx < n) →
        finalCalls sent = assembledCalls n (fragmentsOf chunks)) ∧
      (∀ calls ∈ finalCalls sent, ∀ call ∈ calls,
        ((streamedCalls sent).filter (·.index == call.index)).getLast? = some call) ∧
      ((∀ idx, own idx (fragmentsOf chunks') =
          own idx (fragmentsOf chunks)) →
        finalCalls sent' = finalCalls sent)) ∧
    finalCalls decoded = Responses.assembledCalls (events.map snd) ∧
    streamedCalls decoded = [] ∧
    ((∀ id, Responses.own id (events'.map snd) = Responses.own id (events.map snd)) →
      (Responses.contents (finalCalls decoded')).Perm (Responses.contents (finalCalls decoded)) ∧
      (Responses.announced (events'.map snd) = Responses.announced (events.map snd) →
        finalCalls decoded' = finalCalls decoded)) := by
  dsimp only
  obtain ⟨hfinal, hlast⟩ := calls_assembled hafter hindexed
  obtain ⟨hdecoded, hstreamed⟩ := Responses.decode_calls hevents hrest haddressed
  obtain ⟨hdecoded', -⟩ := Responses.decode_calls hevents' hrest' haddressed'
  refine ⟨⟨hfinal, hlast, calls_interleaved hafter hafter' hindexed hindexed'⟩, hdecoded,
    hstreamed, ?_⟩
  intro hown
  rw [hdecoded, hdecoded']
  refine ⟨Responses.contents_perm hown, ?_⟩
  intro hannounced
  rw [Responses.assembledCalls, Responses.assembledCalls, hannounced]
  simp only [hown]

def callChoice (index : Nat) (id name : Option String) (arguments : String) : StreamChoice :=
  ⟨0, ⟨none, none, some [⟨some index, id, some ⟨name, some arguments⟩⟩]⟩, none⟩

def functionCall (id callId name : String) : Value :=
  .object [("type", .string "function_call"), ("id", .string id), ("call_id", .string callId),
    ("name", .string name)]

def itemAdded (id callId name : String) : Value :=
  .object [("type", .string "response.output_item.added"), ("item", functionCall id callId name)]

def argumentsPart (id delta : String) : Value :=
  .object [("type", .string "response.function_call_arguments.delta"), ("item_id", .string id),
    ("delta", .string delta)]

def interleavedChunks : List (List StreamChoice) :=
  [[callChoice 0 (some "a") (some "read") "x"], [callChoice 1 (some "b") (some "write") "y"],
    [callChoice 0 none none "z"]]

def interleavedEvents : List Value :=
  [itemAdded "i" "a" "read", itemAdded "j" "b" "write", argumentsPart "i" "x",
    argumentsPart "j" "y",
    argumentsPart "i" "z"]

theorem tool_calls_assembled_interleaved :
    finalCalls (decode (interleavedChunks.map .chunk ++ []) .init) =
      some [⟨0, "a", ⟨"read", "xz"⟩⟩, ⟨1, "b", ⟨"write", "y"⟩⟩] ∧
    finalCalls (decodeWith true
      (((interleavedEvents.map fun event => ("", event)).map
        fun event => (event.1, .ok event.2)) ++ []) .init) =
      some [⟨0, "a", ⟨"read", "xz"⟩⟩, ⟨1, "b", ⟨"write", "y"⟩⟩] := by
  have hafter : ([] : List Event) = [] ∨ ([] : List Event).head? = some .done :=
    .inl rfl
  have hindexed : Indexed (fragmentsOf interleavedChunks) := by
    simp [Indexed, fragmentsOf, interleavedChunks, callChoice,
      StreamChoice.calls]
  have hevents : ∀ event ∈ interleavedEvents.map fun event => ("", event),
      ¬ Ends event.2 := by
    simp [interleavedEvents, itemAdded, argumentsPart, Ends, kind,
      strAt, Value.get, Value.asStr]
  have haddressed : Addressed []
      ((interleavedEvents.map fun event => ("", event)).map snd) := by
    have hitem : ∀ id callId name, callItem (itemAdded id callId name) =
        some (functionCall id callId name) := fun _ _ _ => rfl
    have hid : ∀ id callId name, strAt "id" (functionCall id callId name) = some id :=
      fun _ _ _ => rfl
    have hindex : ∀ id callId name,
        u64At "output_index" (functionCall id callId name) = none := fun _ _ _ => rfl
    have hnone : ∀ id delta, callItem (argumentsPart id delta) = none := fun _ _ => rfl
    have harguments : ∀ id delta, IsArguments (argumentsPart id delta) :=
      fun _ _ => .inl rfl
    have hadded : ∀ id callId name, ¬ IsArguments (itemAdded id callId name) := by
      simp [IsArguments, kind, strAt, itemAdded, Value.get,
        Value.asStr]
    have hitemId : ∀ id delta, strAt "item_id" (argumentsPart id delta) = some id :=
      fun _ _ => rfl
    simp [interleavedEvents, Addressed, announce, address, hitem, hid,
      hindex, hnone, harguments, hadded, hitemId]
  have hclosed : Closed [] := trivial
  obtain ⟨⟨hfinal, -⟩, hdecoded, -⟩ := tool_calls_assembled hafter hafter hindexed hindexed hevents
    hevents hclosed hclosed haddressed haddressed
  refine ⟨(hfinal 2 ?_).trans rfl, hdecoded.trans rfl⟩
  simp [fragmentsOf, interleavedChunks, callChoice, StreamChoice.calls]

def idChoice : StreamChoice := ⟨0, ⟨none, none, some [⟨some 0, some "a", none⟩]⟩, none⟩

/-- A call with an id only is emitted but not in the final response, and the Responses decoder emits
no call. -/
theorem call_lost_or_silent :
    streamedCalls (decode [.chunk [idChoice]] .init) = [⟨0, "a", ⟨"", ""⟩⟩] ∧
    finalCalls (decode [.chunk [idChoice]] .init) = none ∧
    streamedCalls (decodeWith true [("", .ok (itemAdded "i" "a" "read"))] .init) = [] ∧
    finalCalls (decodeWith true [("", .ok (itemAdded "i" "a" "read"))] .init) =
      some [⟨0, "a", ⟨"read", ""⟩⟩] :=
  ⟨rfl, rfl, rfl, rfl⟩

end ColossalCode.Backend
