import ColossalCode.Backend.StreamedText

/-! The tool calls of the Responses stream: one slot for each item, in the order in which the items
come up. -/
namespace ColossalCode.Backend.Responses
open List Option Prod

open Agent (Response ToolCallResponse)
open Protocol (Value)

/-- The function call item of an event. -/
def callItem (event : Value) : Option Value :=
  if kind event = "response.output_item.added" ∨ kind event = "response.output_item.done" then
    (event.get "item").filter fun item => strAt "type" item = some "function_call"
  else none

def IsArguments (event : Value) : Prop :=
  kind event = "response.function_call_arguments.delta" ∨
    kind event = "response.function_call_arguments.done"

instance (event : Value) : Decidable (IsArguments event) := instDecidableOr

/-- The id of the item that an event about a call names. -/
def address (event : Value) : Option String :=
  match callItem event with
  | some item => strAt "id" item
  | none => if IsArguments event then strAt "item_id" event else none

/-- The items that events about calls name, in the order in which they come up. -/
def announce (known : List String) (event : Value) : List String :=
  match address event with
  | some id => if id ∈ known then known else known ++ [id]
  | none => known

def announced (events : List Value) : List String := events.foldl announce []

/-- Each event about a call names its item, and an output index is read only where it is the place
of that item. -/
def Addressed : List String → List Value → Prop
  | _, [] => True
  | known, event :: events =>
    (∀ item ∈ callItem event, ∃ id, strAt "id" item = some id ∧
      ∀ idx ∈ u64At "output_index" item, idx = known.idxOf id) ∧
    (IsArguments event → ∃ id, strAt "item_id" event = some id ∧
      (id ∈ known ∨ ∀ idx ∈ u64At "output_index" event, idx = known.idxOf id)) ∧
    Addressed (announce known event) events

/-- The events of a call. -/
def own (id : String) (events : List Value) : List Value :=
  events.filter (address · == some id)

/-- What an event does to the arguments: they are taken whole, or a delta is added. -/
def argumentStep (arguments : String) (event : Value) : String :=
  match callItem event with
  | some item => (strAt "arguments" item).getD arguments
  | none =>
    if kind event = "response.function_call_arguments.delta" then
      arguments ++ (strAt "delta" event).getD ""
    else if kind event = "response.function_call_arguments.done" then
      (strAt "arguments" event).getD arguments
    else arguments

def announcedName (events : List Value) : String :=
  ((events.filterMap callItem).filterMap (strAt "name")).getLast?.getD ""

/-- The id of the call, or else of its item. -/
def announcedId (id : String) (events : List Value) : String :=
  ((events.filterMap callItem).getLast?.bind fun item =>
    ((item.get "call_id").or (item.get "id")).bind Value.asStr).getD id

def argumentText (events : List Value) : String := events.foldl argumentStep ""

/-- The call that events make, unless they have neither a name nor arguments. -/
def assembled (id : String) (idx : Nat) (events : List Value) : Option ToolCallResponse :=
  if announcedName events = "" ∧ argumentText events = "" then none
  else some ⟨idx, announcedId id events, ⟨announcedName events, argumentText events⟩⟩

/-- What an event does to the tool calls. -/
def toolStep (state : List ToolState) (event : Value) : List ToolState :=
  match callItem event with
  | some item => ingestFunctionCallItem item state
  | none =>
    if kind event = "response.function_call_arguments.delta" then argumentsDelta event state
    else if kind event = "response.function_call_arguments.done" then argumentsDone event state
    else state

theorem ingest_other {item : Value} (h : strAt "type" item ≠ some "function_call")
    (state : List ToolState) : ingestFunctionCallItem item state = state := if_pos h

theorem step_tools (d : Decoder) (event : Value) :
    (d.step event).toolState = toolStep d.toolState event := by
  unfold Decoder.step toolStep callItem
  by_cases hcompleted : kind event = "response.completed"
  · rw [if_pos hcompleted, hcompleted]
    unfold Decoder.textDone
    split <;> rfl
  · rw [if_neg hcompleted]
    have hitem : ∀ item : Option Value,
        (match item with
          | some item => { d with toolState := ingestFunctionCallItem item d.toolState }
          | none => d).toolState =
        (match item.filter fun item => decide (strAt "type" item = some "function_call") with
          | some item => ingestFunctionCallItem item d.toolState
          | none => d.toolState) := by
      intro item
      cases item with
      | none => rfl
      | some item =>
        by_cases htype : strAt "type" item = some "function_call"
        · simp [Option.filter, htype]
        · simp [Option.filter, htype, ingest_other htype]
    unfold Decoder.event
    split
    · rename_i hkind
      simp only [hkind, Decoder.textDelta]
      split <;> simp
    · rename_i hkind
      simp only [hkind, Decoder.textDone]
      split <;> simp
    · rename_i hkind
      simp only [hkind, true_or, if_true]
      exact hitem _
    · rename_i hkind
      simp only [hkind, or_true, if_true]
      exact hitem _
    · rename_i hkind
      simp [hkind]
    · rename_i hkind
      simp [hkind]
    · rename_i hadded hdone hdelta harguments
      rw [if_neg (not_or.mpr ⟨hadded, hdone⟩)]
      simp only [if_neg hdelta, if_neg harguments]

section Known

variable {known : List String} {f : String → ToolState} {id : String}

theorem position_known (f : String → ToolState) (hf : ∀ id, (f id).itemId = some id)
    (known : List String) (id : String) :
    position (some id) (known.map f) = if id ∈ known then some (known.idxOf id) else none := by
  unfold position
  induction known with
  | nil => rfl
  | cons first known ih =>
    rw [map_cons, List.findIdx?_cons, ih, hf, idxOf_cons]
    by_cases hfirst : first = id
    · simp [hfirst]
    · have hbeq : (first == id) = false := by simpa using hfirst
      by_cases hid : id ∈ known <;> simp [hbeq, hid, Ne.symm hfirst]

/-- A change to the slot of an item. -/
theorem modify_known (hknown : known.Nodup) (hid : id ∈ known) (g : ToolState → ToolState) :
    (known.map f).modify (known.idxOf id) g =
      known.map fun other => if other = id then g (f other) else f other := by
  induction known with
  | nil => cases hid
  | cons first known ih =>
    obtain ⟨hfirst, hrest⟩ := nodup_cons.mp hknown
    rw [idxOf_cons]
    by_cases heq : first = id
    · subst heq
      have hothers : known.map (fun other => if other = first then g (f other) else f other) =
          known.map f := by
        refine map_congr_left fun other hother => if_neg ?_
        rintro rfl
        exact hfirst hother
      simp [hothers]
    · have hmem : id ∈ known := (mem_cons.mp hid).resolve_left (Ne.symm heq)
      have hbeq : (first == id) = false := by simpa using heq
      simp [heq, hbeq, ih hrest hmem]

/-- A new slot comes last. -/
theorem modify_unknown (state : List ToolState) (g : ToolState → ToolState) :
    (resizedTo (state.length + 1) state).modify state.length g = state ++ [g default] := by
  have hresized : resizedTo (state.length + 1) state = state ++ [default] := by
    simp [resizedTo]
  rw [hresized, modify_last]

end Known

/-- What the events of an item make of its slot. -/
def entryOf (id : String) (events : List Value) : ToolState where
  itemId := some id
  callId := (events.filterMap callItem).getLast?.bind fun item =>
    ((item.get "call_id").or (item.get "id")).bind Value.asStr
  name := announcedName events
  arguments := argumentText events

/-- One more event, about the arguments. -/
def ToolState.argued (entry : ToolState) (event : Value) : ToolState :=
  { entry with arguments := argumentStep entry.arguments event }

variable {events : List Value} {id : String} {event : Value} {known : List String}
  {rest : List (String × Except String Value)}

theorem entryOf_item {item : Value}
    (hitem : callItem event = some item) (hid : strAt "id" item = some id) :
    entryOf id (events ++ [event]) = (entryOf id events).ingest item := by
  unfold entryOf ToolState.ingest announcedName argumentText
  rw [filterMap_append, foldl_append]
  simp only [filterMap_cons, filterMap_nil, foldl_cons, foldl_nil, hitem,
    argumentStep, List.getLast?_concat, bind_some, hid, filterMap_append]
  cases hname : strAt "name" item <;> simp

theorem entryOf_arguments (hitem : callItem event = none) :
    entryOf id (events ++ [event]) = (entryOf id events).argued event := by
  unfold entryOf ToolState.argued announcedName argumentText
  rw [filterMap_append, foldl_append]
  simp [hitem]

theorem callItem_arguments (h : IsArguments event) : callItem event = none := by
  rcases h with h | h <;> simp [callItem, h]

/-- The slots after events: one for each item that has come up, with what its own events make of
it. -/
def slots (events : List Value) : List ToolState :=
  (announced events).map fun id => entryOf id (own id events)

theorem announced_snoc (events : List Value) (event : Value) :
    announced (events ++ [event]) = announce (announced events) event := by
  rw [announced, foldl_append]
  rfl

theorem own_snoc (id : String) (events : List Value) (event : Value) :
    own id (events ++ [event]) =
      own id events ++ if address event = some id then [event] else [] := by
  rw [own, filter_append, own, filter_singleton]
  by_cases h : address event = some id
  · simp [h]
  · have hbeq : (address event == some id) = false := by simpa using h
    simp [h, hbeq]

theorem announce_none (haddress : address event = none) :
    announce known event = known := by
  rw [announce, haddress]

theorem announce_of_mem
    (haddress : address event = some id) (hmem : id ∈ known) : announce known event = known := by
  rw [announce, haddress]
  exact if_pos hmem

theorem announce_of_not_mem (haddress : address event = some id) (hmem : id ∉ known) :
    announce known event = known ++ [id] := by
  rw [announce, haddress]
  exact if_neg hmem

theorem nodup_announced (events : List Value) : (announced events).Nodup := by
  induction events using List.reverseRecOn with
  | nil => exact nodup_nil
  | append_singleton events event ih =>
    rw [announced_snoc]
    cases haddress : address event with
    | none => rwa [announce_none haddress]
    | some id =>
      by_cases hmem : id ∈ announced events
      · rwa [announce_of_mem haddress hmem]
      · rw [announce_of_not_mem haddress hmem, nodup_append]
        refine ⟨ih, nodup_cons.mpr ⟨not_mem_nil, nodup_nil⟩, ?_⟩
        intro other hother last hlast heq
        rw [heq, mem_singleton.mp hlast] at hother
        exact hmem hother

theorem mem_announced (events : List Value) (id : String) :
    id ∈ announced events ↔ own id events ≠ [] := by
  induction events using List.reverseRecOn with
  | nil => simp [announced, own]
  | append_singleton events event ih =>
    rw [announced_snoc, own_snoc]
    cases haddress : address event with
    | none => simp [announce_none haddress, ih]
    | some first =>
      by_cases hid : first = id
      · subst hid
        rw [if_pos rfl]
        by_cases hmem : first ∈ announced events
        · rw [announce_of_mem haddress hmem]
          simp [hmem]
        · rw [announce_of_not_mem haddress hmem]
          simp
      · rw [if_neg (fun heq => hid (Option.some.inj heq)), append_nil, ← ih]
        by_cases hmem : first ∈ announced events
        · rw [announce_of_mem haddress hmem]
        · rw [announce_of_not_mem haddress hmem, mem_append, mem_singleton]
          exact or_iff_left (Ne.symm hid)

theorem own_eq_nil (h : id ∉ announced events) :
    own id events = [] := by
  rwa [mem_announced, not_not] at h

theorem callItem_type {item : Value} (h : callItem event = some item) :
    strAt "type" item = some "function_call" := by
  unfold callItem at h
  split at h
  · exact of_decide_eq_true (filter_eq_some_iff.mp h).2
  · cases h

section Step

/-- An event that is addressed to no call. -/
theorem slots_other (hitem : callItem event = none) (harguments : ¬ IsArguments event) :
    toolStep (slots events) event = slots (events ++ [event]) := by
  have hnone : address event = none := by simp [address, hitem, harguments]
  have hstate : toolStep (slots events) event = slots events := by
    rw [IsArguments, not_or] at harguments
    rw [toolStep, hitem]
    simp only [if_neg harguments.1, if_neg harguments.2]
  rw [hstate, slots, slots, announced_snoc, announce_none hnone]
  refine map_congr_left fun id _ => ?_
  rw [own_snoc, hnone]
  simp

/-- The slots with one for the item of the event. -/
def opened (events : List Value) (event : Value) : List ToolState :=
  (announce (announced events) event).map fun id => entryOf id (own id events)

theorem opened_of_mem (haddress : address event = some id) (hmem : id ∈ announced events) :
    opened events event = slots events := by
  rw [opened, announce_of_mem haddress hmem, slots]

theorem opened_of_not_mem (haddress : address event = some id) (hmem : id ∉ announced events) :
    opened events event = slots events ++ [entryOf id []] := by
  rw [opened, announce_of_not_mem haddress hmem, map_append, map_singleton,
    own_eq_nil hmem, slots]

/-- The event changes the slot of the item it is addressed to. -/
theorem slots_changed (haddress : address event = some id) (change : ToolState → ToolState)
    (hchange : ∀ events, entryOf id (events ++ [event]) = change (entryOf id events)) :
    (opened events event).modify ((announced events).idxOf id) change =
      slots (events ++ [event]) := by
  have hnodup := nodup_announced (events ++ [event])
  have hmem : id ∈ announced (events ++ [event]) := by
    rw [mem_announced, own_snoc, haddress]
    simp
  have hidx : (announced events).idxOf id = (announced (events ++ [event])).idxOf id := by
    rw [announced_snoc]
    by_cases hold : id ∈ announced events
    · rw [announce_of_mem haddress hold]
    · rw [announce_of_not_mem haddress hold, idxOf_append, if_neg hold,
        idxOf_eq_length hold]
      simp
  rw [opened, ← announced_snoc, hidx, modify_known hnodup hmem, slots]
  refine map_congr_left fun other _ => ?_
  rw [own_snoc, haddress]
  by_cases hother : other = id
  · subst hother
    rw [if_pos rfl, if_pos rfl, hchange]
  · rw [if_neg hother, if_neg (fun heq => hother (Option.some.inj heq).symm), append_nil]

theorem position_slots (events : List Value) (id : String) :
    position (some id) (slots events) =
      if id ∈ announced events then some ((announced events).idxOf id) else none :=
  position_known (fun id => entryOf id (own id events)) (fun _ => rfl) _ id

theorem idxOf_slots (hmem : id ∉ announced events) :
    (announced events).idxOf id = (slots events).length := by
  rw [idxOf_eq_length hmem, slots, length_map]

theorem idxOf_slots_lt (hmem : id ∈ announced events) :
    (announced events).idxOf id < (slots events).length := by
  rw [slots, length_map]
  exact idxOf_lt_length_of_mem hmem

theorem getD_eq {α : Type} {o : Option α} {default x : α} (h : ∀ y ∈ o, y = x)
    (hdefault : default = x) : o.getD default = x := by
  cases o with
  | none => exact hdefault
  | some y => exact h y rfl

/-- A function call item. -/
theorem slots_item {item : Value} (hitem : callItem event = some item)
    (hid : strAt "id" item = some id)
    (hindex : ∀ idx ∈ u64At "output_index" item, idx = (announced events).idxOf id) :
    toolStep (slots events) event = slots (events ++ [event]) := by
  have haddress : address event = some id := by
    rw [address, hitem]
    exact hid
  have hposition : (position (some id) (slots events)).getD (slots events).length =
      (announced events).idxOf id := by
    rw [position_slots]
    by_cases hmem : id ∈ announced events
    · rw [if_pos hmem, getD_some]
    · rw [if_neg hmem, getD_none, idxOf_slots hmem]
  rw [← slots_changed haddress (·.ingest item) (fun _ => entryOf_item hitem hid), toolStep, hitem]
  dsimp only
  rw [ingestFunctionCallItem, if_neg (not_not.mpr (callItem_type hitem)), hid,
    getD_eq hindex hposition]
  dsimp only
  by_cases hmem : id ∈ announced events
  · rw [opened_of_mem haddress hmem, resizedTo_of_le (idxOf_slots_lt hmem)]
  · rw [opened_of_not_mem haddress hmem, idxOf_slots hmem, modify_unknown, modify_last]
    rfl

/-- The place of the item that an event about arguments names. -/
theorem toolIndex_slots (haddress : address event = some id) (hid : strAt "item_id" event = some id)
    (hindex : id ∈ announced events ∨
      ∀ idx ∈ u64At "output_index" event, idx = (announced events).idxOf id) :
    toolIndexForEvent event (slots events) =
      ((announced events).idxOf id, opened events event) := by
  rw [toolIndexForEvent, hid, bind_some, position_slots]
  by_cases hmem : id ∈ announced events
  · rw [if_pos hmem, opened_of_mem haddress hmem]
  · rw [if_neg hmem, opened_of_not_mem haddress hmem]
    dsimp only
    rw [getD_eq (hindex.resolve_left hmem) (idxOf_slots hmem).symm, idxOf_slots hmem,
      modify_unknown]
    rfl

/-- An event about the arguments of a call. -/
theorem slots_arguments (harguments : IsArguments event) (hid : strAt "item_id" event = some id)
    (hindex : id ∈ announced events ∨
      ∀ idx ∈ u64At "output_index" event, idx = (announced events).idxOf id) :
    toolStep (slots events) event = slots (events ++ [event]) := by
  have hitem := callItem_arguments harguments
  have haddress : address event = some id := by
    rw [address, hitem]
    exact (if_pos harguments).trans hid
  have htarget := toolIndex_slots haddress hid hindex
  rw [← slots_changed haddress (·.argued event) (fun _ => entryOf_arguments hitem), toolStep, hitem]
  dsimp only
  by_cases hdelta : kind event = "response.function_call_arguments.delta"
  · rw [if_pos hdelta, argumentsDelta, htarget]
    cases htext : strAt "delta" event with
    | some delta => simp [ToolState.argued, argumentStep, hitem, hdelta, htext]
    | none =>
      have hsame : ∀ entry : ToolState, entry.argued event = entry := by
        intro entry
        simp [ToolState.argued, argumentStep, hitem, hdelta, htext]
      simp only [hsame]
      exact (modify_id _ _).symm
  · have hdone := harguments.resolve_left hdelta
    rw [if_neg hdelta, if_pos hdone, argumentsDone, htarget]
    cases htext : strAt "arguments" event with
    | some arguments => simp [ToolState.argued, argumentStep, hitem, hdone, htext]
    | none =>
      have hsame : ∀ entry : ToolState, entry.argued event = entry := by
        intro entry
        simp [ToolState.argued, argumentStep, hitem, hdone, htext]
      simp only [hsame]
      exact (modify_id _ _).symm

end Step

theorem slots_run (rest : List Value) (haddressed : Addressed (announced events) rest) :
    rest.foldl toolStep (slots events) = slots (events ++ rest) := by
  induction rest generalizing events with
  | nil => rw [append_nil]; rfl
  | cons event rest ih =>
    obtain ⟨hitem, harguments, hrest⟩ := haddressed
    have hstep : toolStep (slots events) event = slots (events ++ [event]) := by
      cases hcall : callItem event with
      | some item =>
        obtain ⟨id, hid, hindex⟩ := hitem item hcall
        exact slots_item hcall hid hindex
      | none =>
        by_cases hkind : IsArguments event
        · obtain ⟨id, hid, hindex⟩ := harguments hkind
          exact slots_arguments hkind hid hindex
        · exact slots_other hcall hkind
    rw [← announced_snoc] at hrest
    rw [foldl_cons, hstep, ih hrest, append_assoc]
    rfl

/-- The calls of a stream, in the order in which their items come up. -/
def assembledCalls (events : List Value) : Option (List ToolCallResponse) :=
  someCalls ((announced events).zipIdx.filterMap fun (id, idx) => assembled id idx (own id events))

theorem finalize_slots (events : List Value) :
    finalizeTools (slots events) = assembledCalls events := by
  rw [finalizeTools, assembledCalls, slots, zipIdx_map, filterMap_map]
  congr 1
  refine filterMap_congr fun (id, idx) _ => ?_
  dsimp only [Function.comp_apply, Prod.map]
  unfold assembled ToolState.response announcedId entryOf
  by_cases hname : announcedName (own id events) = "" <;>
    by_cases harguments : argumentText (own id events) = "" <;> simp [hname, harguments]

theorem steps_calls (events : List Value) (d : Decoder) :
    (events.foldl Decoder.step d).toolState = events.foldl toolStep d.toolState ∧
      streamedCalls (events.foldl Decoder.step d).sent = streamedCalls d.sent := by
  induction events generalizing d with
  | nil => exact ⟨rfl, rfl⟩
  | cons event events ih =>
    obtain ⟨hstate, hsent⟩ := ih (d.step event)
    rw [foldl_cons, foldl_cons, hstate, hsent, step_tools]
    refine ⟨rfl, ?_⟩
    unfold Decoder.step
    split
    · rw [textDone_sent]
    · by_cases hdelta : kind event = "response.output_text.delta"
      · simp only [Decoder.event, hdelta, Decoder.textDelta]
        split
        · rfl
        · simp [streamedCalls, deltaCalls]
      · by_cases hdone : kind event = "response.output_text.done"
        · simp only [Decoder.event, hdone, textDone_sent]
        · rw [(event_other d hdelta hdone).2]

theorem closing_tools (hrest : Closed rest)
    (state : List ToolState) : (closing rest).foldl toolStep state = state := by
  match rest, hrest with
  | [], _ => rfl
  | (_, .ok event) :: _, hclosed =>
    have hcompleted : kind event = "response.completed" := hclosed
    simp [closing, toolStep, callItem, hcompleted]

theorem decode_calls {events : List (String × Value)} (hevents : ∀ event ∈ events, ¬ Ends event.2)
    (hrest : Closed rest) (haddressed : Addressed [] (events.map snd)) :
    finalCalls (decodeWith true ((events.map fun event => (event.1, .ok event.2)) ++ rest) .init) =
        assembledCalls (events.map snd) ∧
      streamedCalls
        (decodeWith true ((events.map fun event => (event.1, .ok event.2)) ++ rest) .init) =
          [] := by
  obtain ⟨sent, hsent, hunfinished, -⟩ :=
    steps_sent (events.map snd ++ closing rest) .init
  obtain ⟨hstate, hstreamed⟩ := steps_calls (events.map snd ++ closing rest) .init
  have hslots : (events.map snd).foldl toolStep (slots []) = slots (events.map snd) :=
    slots_run (events.map snd) haddressed
  have htools : finalizeTools
      ((events.map snd ++ closing rest).foldl toolStep Decoder.init.toolState) =
        assembledCalls (events.map snd) := by
    rw [foldl_append, closing_tools hrest]
    exact (congrArg finalizeTools hslots).trans (finalize_slots _)
  rw [decode_events hevents, decode_closed hrest, ← foldl_append, Decoder.done, makeDone]
  refine ⟨?_, ?_⟩
  · have hinit : Unfinished Decoder.init.sent := by simp [Unfinished, Decoder.init]
    rw [hsent, finalCalls_done (unfinished_append hinit hunfinished), hstate]
    exact htools
  · rw [streamedCalls_append, hstreamed]
    simp [streamedCalls, deltaCalls, Decoder.init]

/-- What a call says, apart from its place. -/
def contents (calls : Option (List ToolCallResponse)) :
    List (String × Agent.CalledFunction) :=
  (calls.getD []).map fun call => (call.id, call.function)

theorem contents_assembled (events : List Value) :
    contents (assembledCalls events) = (announced events).filterMap fun id =>
      (assembled id 0 (own id events)).map fun call => (call.id, call.function) := by
  have hplace : ∀ id idx events,
      (assembled id idx events).map (fun call => (call.id, call.function)) =
        (assembled id 0 events).map fun call => (call.id, call.function) := by
    intro id idx events
    unfold assembled
    split <;> rfl
  rw [contents, assembledCalls, someCalls_getD, map_filterMap]
  conv => rhs; rw [← zipIdx_map_fst 0 (announced events), filterMap_map]
  exact filterMap_congr fun (id, idx) _ => hplace id idx _

/-- The order in which the events of different items come does not matter to a call. -/
theorem contents_perm {events' : List Value} (hown : ∀ id, own id events' = own id events) :
    (contents (assembledCalls events')).Perm (contents (assembledCalls events)) := by
  rw [contents_assembled, contents_assembled]
  simp only [hown]
  apply List.Perm.filterMap
  rw [perm_ext_iff_of_nodup (nodup_announced events') (nodup_announced events)]
  intro id
  rw [mem_announced, mem_announced, hown]

end ColossalCode.Backend.Responses
