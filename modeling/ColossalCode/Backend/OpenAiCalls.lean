import ColossalCode.Backend.StreamedText

/-! The tool calls of the OpenAI chat stream, put together from fragments that arrive interleaved.
-/
namespace ColossalCode.Backend.OpenAi
open List Option StreamingToolCallState

open Agent (ToolCallResponse)

variable {fragments : List StreamToolCall} {state : List StreamingToolCallState} {idx : Nat}

/-- Each fragment says to which call it belongs. -/
def Indexed (fragments : List StreamToolCall) : Prop := ∀ call ∈ fragments, call.index ≠ none

/-- The fragments of a call. -/
def own (idx : Nat) (fragments : List StreamToolCall) : List StreamToolCall :=
  fragments.filter (·.index == some idx)

/-- The name in a fragment, unless it is empty. -/
def StreamToolCall.name? (call : StreamToolCall) : Option String :=
  (call.function.bind (·.name)).filter (!·.isEmpty)

def announcedId (fragments : List StreamToolCall) : Option String :=
  (fragments.filterMap (·.id)).getLast?

def announcedName (fragments : List StreamToolCall) : String :=
  (fragments.filterMap (·.name?)).getLast?.getD ""

def argumentText (fragments : List StreamToolCall) : String :=
  String.join (fragments.filterMap fun call => call.function.bind (·.arguments))

/-- The call that fragments make, unless they have neither a name nor arguments. -/
def assembled (idx : Nat) (fragments : List StreamToolCall) : Option ToolCallResponse :=
  if announcedName fragments = "" ∧ argumentText fragments = "" then none
  else some ⟨idx, (announcedId fragments).getD (callId idx),
    ⟨announcedName fragments, argumentText fragments⟩⟩

theorem add_all (fragments : List StreamToolCall) :
    fragments.foldl add default =
      ⟨announcedId fragments, announcedName fragments, argumentText fragments⟩ := by
  induction fragments using List.reverseRecOn with
  | nil => rfl
  | append_singleton fragments call ih =>
    rw [foldl_append, ih]
    unfold announcedId announcedName argumentText
    have hid : ((fragments ++ [call]).filterMap (·.id)).getLast? =
        call.id.or (fragments.filterMap (·.id)).getLast? := by
      cases hcall : call.id <;> simp [hcall]
    have hname : ((fragments ++ [call]).filterMap (·.name?)).getLast? =
        call.name?.or (fragments.filterMap (·.name?)).getLast? := by
      cases hcall : call.name? <;> simp [hcall]
    have harguments : String.join
        ((fragments ++ [call]).filterMap fun call => call.function.bind (·.arguments)) =
          String.join (fragments.filterMap fun call => call.function.bind (·.arguments)) ++
            (call.function.bind (·.arguments)).getD "" := by
      cases hcall : call.function.bind (·.arguments) <;> simp [hcall, String.join]
    rw [hid, hname, harguments, foldl_cons, foldl_nil, add,
      StreamToolCall.name?]
    cases hn : call.function.bind (·.name) with
    | none => cases ha : call.function.bind (·.arguments) <;> simp
    | some name =>
      by_cases hempty : name = "" <;>
        cases ha : call.function.bind (·.arguments) <;> simp [hempty, Option.filter]

/-- Each slot holds what its own fragments make of it. -/
theorem slots_own (state : List StreamingToolCallState) (hindexed : Indexed fragments) (idx : Nat) :
    (fragments.foldl updateToolCall state).getD idx default =
      (own idx fragments).foldl add (state.getD idx default) := by
  induction fragments generalizing state with
  | nil => rfl
  | cons call fragments ih =>
    obtain ⟨i, hi⟩ := ne_none_iff_exists'.mp (hindexed call mem_cons_self)
    have hrest := ih (updateToolCall state call)
      fun call hcall => hindexed call (mem_cons_of_mem _ hcall)
    rw [foldl_cons, hrest, updateToolCall, slot_getD, StreamToolCall.idx, hi, getD_some,
      own, own, filter_cons, hi]
    by_cases hidx : i = idx <;> simp [hidx]

theorem slots_length (fragments : List StreamToolCall) (state : List StreamingToolCallState)
    {n : Nat} (hindexed : Indexed fragments) (hstate : state.length ≤ n)
    (hn : ∀ call ∈ fragments, ∀ idx ∈ call.index, idx < n) :
    (fragments.foldl updateToolCall state).length ≤ n := by
  induction fragments generalizing state with
  | nil => exact hstate
  | cons call fragments ih =>
    obtain ⟨i, hi⟩ := ne_none_iff_exists'.mp (hindexed call mem_cons_self)
    have hlt := hn call mem_cons_self i hi
    refine ih (updateToolCall state call)
      (fun call hcall => hindexed call (mem_cons_of_mem _ hcall)) ?_
      (fun call hcall => hn call (mem_cons_of_mem _ hcall))
    rw [updateToolCall, slot_length, StreamToolCall.idx, hi, getD_some]
    omega

/-- The calls with an index below `n`, in the order of their indexes. -/
def assembledCalls (n : Nat) (fragments : List StreamToolCall) : Option (List ToolCallResponse) :=
  someCalls ((List.range n).filterMap fun idx => assembled idx (own idx fragments))

/-- The calls at the end, one for each index that fragments with a name or arguments name. -/
theorem finalize_own {n : Nat} (hindexed : Indexed fragments)
    (hn : ∀ call ∈ fragments, ∀ idx ∈ call.index, idx < n) :
    finalizeStreamToolCalls (fragments.foldl updateToolCall []) = assembledCalls n fragments := by
  have hlength := slots_length fragments [] hindexed (Nat.zero_le n) hn
  have hslot : ∀ idx, (fragments.foldl updateToolCall []).getD idx default =
      ⟨announcedId (own idx fragments), announcedName (own idx fragments),
        argumentText (own idx fragments)⟩ := by
    intro idx
    rw [slots_own [] hindexed, ← add_all]
    rfl
  have hcall : ∀ idx, assembled idx (own idx fragments) =
      if ((fragments.foldl updateToolCall []).getD idx default).name.isEmpty &&
        ((fragments.foldl updateToolCall []).getD idx default).arguments.isEmpty then none
      else some (((fragments.foldl updateToolCall []).getD idx default).response idx) := by
    intro idx
    rw [hslot, assembled]
    simp [response]
  rw [finalizeStreamToolCalls, assembledCalls, zipIdx_filterMap]
  congr 1
  rw [← range_filterMap hlength]
  · exact filterMap_congr fun idx _ => (hcall idx).symm
  · intro idx hidx
    dsimp only
    rw [getD_eq_getElem?_getD, List.getElem?_eq_none hidx]
    rfl

/-- The fragments of several deltas are added like those of one. -/
theorem update_append (first second : List StreamToolCall) (state : List StreamingToolCallState) :
    (updateStreamingToolCalls (first ++ second) state).2 =
      (updateStreamingToolCalls first state).2 ++
        (updateStreamingToolCalls second (first.foldl updateToolCall state)).2 := by
  induction first generalizing state with
  | nil => rfl
  | cons call first ih =>
    rw [cons_append, updateStreamingToolCalls, updateStreamingToolCalls]
    simp only [cons_append, foldl_cons]
    rw [ih]

theorem update_state (calls : List StreamToolCall) (state : List StreamingToolCallState) :
    (updateStreamingToolCalls calls state).1 = calls.foldl updateToolCall state := by
  induction calls generalizing state with
  | nil => rfl
  | cons call calls ih =>
    rw [updateStreamingToolCalls]
    exact ih _

/-- The last call emitted for an index is what its slot holds at the end. -/
theorem update_last (fragments : List StreamToolCall) (state : List StreamingToolCallState)
    (hindexed : Indexed fragments) (idx : Nat) :
    ((updateStreamingToolCalls fragments state).2.filter (·.index == idx)).getLast? =
      if own idx fragments = [] then none
      else some (((fragments.foldl updateToolCall state).getD idx default).response idx) := by
  induction fragments generalizing state with
  | nil => rfl
  | cons call fragments ih =>
    obtain ⟨i, hi⟩ := ne_none_iff_exists'.mp (hindexed call mem_cons_self)
    have hrestIndexed : Indexed fragments := fun call hcall =>
      hindexed call (mem_cons_of_mem _ hcall)
    have hrest := ih (updateToolCall state call) hrestIndexed
    have hcall : call.idx state = i := by rw [StreamToolCall.idx, hi, getD_some]
    rw [updateStreamingToolCalls, hcall, foldl_cons]
    simp only [filter_cons, response]
    by_cases hidx : i = idx
    · subst hidx
      have hown : own i (call :: fragments) = call :: own i fragments := by
        simp [own, hi]
      rw [hown, if_pos (by simp), if_neg (by simp), List.getLast?_cons, hrest]
      by_cases hlast : own i fragments = []
      · have hslot := slots_own (updateToolCall state call) hrestIndexed i
        rw [hlast, foldl_nil] at hslot
        rw [if_pos hlast, hslot]
        rfl
      · rw [if_neg hlast]
        rfl
    · have hown : own idx (call :: fragments) = own idx fragments := by
        simp [own, hi, hidx]
      rw [hown, if_neg (by simpa using hidx), hrest]
      rfl


theorem choice_calls (d : Decoder) (choice : StreamChoice) :
    (d.choice choice).toolState = choice.calls.foldl updateToolCall d.toolState ∧
      streamedCalls (d.choice choice).sent =
        streamedCalls d.sent ++ (updateStreamingToolCalls choice.calls d.toolState).2 := by
  refine ⟨update_state choice.calls d.toolState, ?_⟩
  unfold Decoder.choice
  generalize updateStreamingToolCalls choice.calls d.toolState = updated
  generalize (if choice.text.isEmpty then none else some choice.text) = content
  dsimp only
  split
  · rename_i hsilent
    have hnone : updated.2 = [] := by simp_all
    rw [hnone, append_nil]
  · rw [streamedCalls_append]
    by_cases hnone : updated.2 = [] <;> simp [streamedCalls, deltaCalls, someCalls, hnone]

theorem choices_calls (choices : List StreamChoice) (d : Decoder) :
    (choices.foldl Decoder.choice d).toolState =
        (choices.flatMap StreamChoice.calls).foldl updateToolCall d.toolState ∧
      streamedCalls (choices.foldl Decoder.choice d).sent = streamedCalls d.sent ++
        (updateStreamingToolCalls (choices.flatMap StreamChoice.calls) d.toolState).2 := by
  induction choices generalizing d with
  | nil => simp [updateStreamingToolCalls]
  | cons choice choices ih =>
    obtain ⟨hstate, hstreamed⟩ := choice_calls d choice
    obtain ⟨hstate', hstreamed'⟩ := ih (d.choice choice)
    rw [foldl_cons, flatMap_cons, foldl_append, hstate', hstreamed', hstate,
      hstreamed, update_append, append_assoc]
    exact ⟨rfl, rfl⟩

/-- The fragments in the chunks of a stream. -/
def fragmentsOf (events : List (List StreamChoice)) : List StreamToolCall :=
  events.flatten.flatMap StreamChoice.calls

theorem decode_calls (events : List (List StreamChoice)) {rest : List Event}
    (hrest : rest = [] ∨ rest.head? = some .done) :
    finalCalls (decode (events.map .chunk ++ rest) .init) =
        finalizeStreamToolCalls ((fragmentsOf events).foldl updateToolCall []) ∧
      streamedCalls (decode (events.map .chunk ++ rest) .init) =
        (updateStreamingToolCalls (fragmentsOf events) []).2 := by
  obtain ⟨-, sent, hsent, hunfinished, -⟩ := choices_text events.flatten .init
  obtain ⟨hstate, hstreamed⟩ := choices_calls events.flatten .init
  rw [decode_chunks, decode_end hrest, Decoder.finalDone, finalCalls_done, hstate,
    streamedCalls_append, hstreamed]
  · refine ⟨rfl, ?_⟩
    simp [streamedCalls, deltaCalls, Decoder.init, fragmentsOf]
  · rw [hsent]
    exact hunfinished

theorem exists_bound (fragments : List StreamToolCall) :
    ∃ n, ∀ call ∈ fragments, ∀ idx ∈ call.index, idx < n := by
  induction fragments with
  | nil => exact ⟨0, by simp⟩
  | cons call fragments ih =>
    obtain ⟨n, hn⟩ := ih
    refine ⟨max n (call.index.getD 0 + 1), ?_⟩
    intro call' hcall' idx hidx
    rcases mem_cons.mp hcall' with rfl | hmem
    · rw [mem_def.mp hidx, getD_some]
      omega
    · have := hn call' hmem idx hidx
      omega

/-- The calls of a stream whose fragments name their index: one for each index, put together from
its own fragments only, and as it was emitted last. -/
theorem calls_assembled {events : List (List StreamChoice)} {rest : List Event}
    (hrest : rest = [] ∨ rest.head? = some .done) (hindexed : Indexed (fragmentsOf events)) :
    let sent := decode (events.map .chunk ++ rest) .init
    (∀ n, (∀ call ∈ fragmentsOf events, ∀ idx ∈ call.index, idx < n) →
      finalCalls sent = assembledCalls n (fragmentsOf events)) ∧
    ∀ calls ∈ finalCalls sent, ∀ call ∈ calls,
      ((streamedCalls sent).filter (·.index == call.index)).getLast? = some call := by
  obtain ⟨hfinal, hstreamed⟩ := decode_calls events hrest
  dsimp only
  rw [hfinal, hstreamed]
  refine ⟨fun n hn => finalize_own hindexed hn, ?_⟩
  intro calls hcalls call hcall
  obtain ⟨n, hn⟩ := exists_bound (fragmentsOf events)
  rw [finalize_own hindexed hn, assembledCalls, someCalls] at hcalls
  split at hcalls
  · cases hcalls
  · cases hcalls
    obtain ⟨idx, -, hassembled⟩ := mem_filterMap.mp hcall
    unfold assembled at hassembled
    split at hassembled
    · cases hassembled
    · rename_i hsome
      cases hassembled
      have hown : own idx (fragmentsOf events) ≠ [] := by
        intro hnone
        rw [hnone] at hsome
        exact hsome ⟨rfl, rfl⟩
      rw [update_last _ [] hindexed, if_neg hown, slots_own [] hindexed]
      have hadd := add_all (own idx (fragmentsOf events))
      rw [show ([] : List StreamingToolCallState).getD idx default = default from rfl, hadd]
      rfl

/-- The order in which the fragments of different calls come does not matter. -/
theorem calls_interleaved {events events' : List (List StreamChoice)} {rest rest' : List Event}
    (hrest : rest = [] ∨ rest.head? = some .done) (hrest' : rest' = [] ∨ rest'.head? = some .done)
    (hindexed : Indexed (fragmentsOf events)) (hindexed' : Indexed (fragmentsOf events'))
    (hown : ∀ idx, own idx (fragmentsOf events') = own idx (fragmentsOf events)) :
    finalCalls (decode (events'.map .chunk ++ rest') .init) =
      finalCalls (decode (events.map .chunk ++ rest) .init) := by
  obtain ⟨n, hn⟩ := exists_bound (fragmentsOf events ++ fragmentsOf events')
  have hleft := fun call hcall => hn call (mem_append_left _ hcall)
  have hright := fun call hcall => hn call (mem_append_right _ hcall)
  rw [(decode_calls events hrest).1, (decode_calls events' hrest').1, finalize_own hindexed hleft,
    finalize_own hindexed' hright, assembledCalls, assembledCalls]
  simp only [hown]

end ColossalCode.Backend.OpenAi
