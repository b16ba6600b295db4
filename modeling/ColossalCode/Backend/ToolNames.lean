import ColossalCode.Backend.StreamedText

/-! The names of tools as they are sent to Anthropic and read back from its stream. -/
namespace ColossalCode.Backend.Anthropic
open List Option

open Agent (Response)

variable {name other : String} {d : Decoder} {events : List Event}

theorem startsWith_iff {text start : String} :
    Text.startsWith text start = true ↔ start.toList <+: text.toList :=
  isPrefixOf_iff_prefix

theorem prefixedToolName_plain (h : Text.startsWith name toolPrefix = false) :
    prefixedToolName name = toolPrefix ++ name := by
  rw [prefixedToolName, h]
  rfl

theorem startsWith_toolPrefix (name : String) :
    Text.startsWith (toolPrefix ++ name) toolPrefix = true := by
  rw [startsWith_iff, String.toList_append]
  exact prefix_append _ _

theorem strippedToolName_append (name : String) :
    strippedToolName (toolPrefix ++ name) = name := by
  rw [strippedToolName, startsWith_toolPrefix, if_pos rfl, String.toList_append]
  have hlength : toolPrefix.toList.length = 4 := rfl
  rw [← hlength, drop_left, String.ofList_toList]

/-- A name that carries the prefix already loses it on the way back. -/
theorem stripped_prefixed_iff :
    strippedToolName (prefixedToolName name) = name ↔ Text.startsWith name toolPrefix = false := by
  cases h : Text.startsWith name toolPrefix with
  | false =>
    rw [prefixedToolName_plain h, strippedToolName_append]
    simp
  | true =>
    have hshorter : strippedToolName (prefixedToolName name) = String.ofList (name.toList.drop 4) := by
      rw [prefixedToolName, h, if_pos rfl, strippedToolName, h, if_pos rfl]
    rw [hshorter]
    constructor
    · intro hsame
      have hlength := congrArg (fun text : String => text.toList.length) hsame
      have hlong : 4 ≤ name.toList.length := (startsWith_iff.mp h).length_le
      rw [String.toList_ofList, length_drop] at hlength
      omega
    · intro hfalse
      cases hfalse

/-- The tool that a block calls, as the stream names it. -/
def calledTool (event : Event) : Option String :=
  if event.eventType = "content_block_start" then
    (event.contentBlock.filter fun block => block.blockType = "tool_use").map fun block =>
      block.name.getD ""
  else none

def toolNames (d : Decoder) : List String := d.toolState.map ToolState.name

theorem toolNames_inputJson (json : String) : toolNames (d.inputJson json) = toolNames d := by
  unfold Decoder.inputJson
  split
  · apply ext_getElem?
    intro i
    simp only [toolNames, List.getElem?_map, List.getElem?_modify]
    cases d.toolState[i]? with
    | none => rfl
    | some entry => split <;> rfl
  · rfl

theorem toolNames_blockDelta (delta : EventDelta) : toolNames (d.blockDelta delta) = toolNames d := by
  unfold Decoder.blockDelta
  split
  · split <;> rfl
  · split
    · exact toolNames_inputJson _
    · rfl
  · rfl

theorem toolNames_startBlock (block : ContentBlock) : toolNames (d.startBlock block) =
    toolNames d ++ (if block.blockType = "tool_use" then
      [strippedToolName (block.name.getD "")] else []) := by
  unfold Decoder.startBlock
  split
  · rename_i htype
    rw [htype]
    simp [toolNames]
  · rename_i htype
    rw [htype]
    simp [toolNames]
  · rename_i hother
    rw [if_neg hother]
    simp [toolNames]

theorem toolNames_event (event : Event) : toolNames (d.event event) =
    toolNames d ++ ((calledTool event).map strippedToolName).toList := by
  unfold Decoder.event calledTool
  split
  · rename_i hstart
    rw [if_pos hstart]
    cases event.contentBlock with
    | none => simp
    | some block =>
      rw [toolNames_startBlock, filter_some]
      by_cases htool : block.blockType = "tool_use" <;> simp [htool]
  · rename_i hdelta
    rw [if_neg (by simp [hdelta])]
    cases event.delta with
    | none => simp
    | some delta => simp [toolNames_blockDelta]
  · rename_i hstop
    rw [if_neg (by simp [hstop])]
    simp [toolNames]
  · rename_i hmessage
    rw [if_neg (by simp [hmessage])]
    simp [toolNames]
  · rename_i hother _ _ _
    rw [if_neg hother]
    simp

theorem toolNames_events (events : List Event) (d : Decoder) :
    toolNames (events.foldl Decoder.event d) =
      toolNames d ++ (events.filterMap calledTool).map strippedToolName := by
  induction events generalizing d with
  | nil => simp
  | cons event events ih =>
    rw [foldl_cons, ih, toolNames_event, append_assoc]
    cases h : calledTool event <;> simp [h]

/-- The names of the calls in the final response. -/
def dispatchedNames (sent : List Response) : List String :=
  ((finalCalls sent).getD []).map fun call => call.function.name

/-- A call without a name is left out. -/
theorem finalizeTools_names (state : List ToolState) :
    ((finalizeTools state).getD []).map (fun call => call.function.name) =
      (state.map ToolState.name).filter fun name => !name.isEmpty := by
  have hfrom : ∀ (state : List ToolState) (n : Nat),
      ((state.zipIdx n).filterMap fun p =>
        if p.1.name.isEmpty then none else some (p.1.response p.2)).map
          (fun call => call.function.name) =
        (state.map ToolState.name).filter fun name => !name.isEmpty := by
    intro state
    induction state with
    | nil => exact fun _ => rfl
    | cons entry state ih =>
      intro n
      rw [zipIdx_cons, map_cons, filter_cons, filterMap_cons]
      cases hname : entry.name.isEmpty with
      | true => simpa [hname] using ih (n + 1)
      | false => simpa [hname, ToolState.response] using ih (n + 1)
  rw [finalizeTools, someCalls_getD]
  exact hfrom state 0

theorem dispatchedNames_stream (hevents : ∀ event ∈ events, ¬ event.Ends) {stop : Event}
    (hstop : stop.eventType = "message_stop") (rest : List (Except String Event)) :
    dispatchedNames (decode (events.map .ok ++ .ok stop :: rest) .init) =
      ((events.filterMap calledTool).map strippedToolName).filter fun name => !name.isEmpty := by
  obtain ⟨-, sent, hsent, hunfinished, -, -⟩ := events_adds events .init
  rw [decode_events hevents, decode, if_pos hstop, Decoder.done, hsent]
  have hinit : Decoder.init.sent ++ sent = sent := rfl
  rw [hinit, dispatchedNames, finalCalls_done hunfinished]
  simp only [finalizeTools_names]
  have hnames := toolNames_events events .init
  rw [toolNames] at hnames
  rw [hnames]
  rfl

/-- The tools can be told apart as they are sent, and are called by the names they were given. -/
structure Lawful (names : List String) : Prop where
  restored : ∀ name ∈ names, strippedToolName (prefixedToolName name) = name
  distinct : ∀ name ∈ names, ∀ other ∈ names, prefixedToolName name = prefixedToolName other →
    name = other
  /-- Of a stream that calls some of the tools by the names that were sent. -/
  dispatched : ∀ (events : List Event) (stop : Event) (called : List String),
    (∀ event ∈ events, ¬ event.Ends) → stop.eventType = "message_stop" →
    (∀ name ∈ called, name ∈ names) →
    events.filterMap calledTool = called.map prefixedToolName →
    dispatchedNames (decode (events.map .ok ++ [.ok stop]) .init) = called

/-- The stream that calls one tool. -/
def calling (name : String) : List Event :=
  [⟨"content_block_start", none, some ⟨"tool_use", none, some name, none⟩, none⟩]

def messageStop : Event := ⟨"message_stop", none, none, none⟩

/-- A set of tools is sent lawfully if none has a name that is empty or has the prefix already. -/
theorem tool_names_lawful_iff (names : List String) :
    Lawful names ↔ ∀ name ∈ names, name ≠ "" ∧ Text.startsWith name toolPrefix = false := by
  constructor
  · intro h name hname
    refine ⟨fun hempty => ?_, stripped_prefixed_iff.mp (h.restored name hname)⟩
    -- a call of the tool without a name is dropped from the final response
    have hcalled := h.dispatched (calling (prefixedToolName name)) messageStop [name]
      (by simp [calling, Event.Ends]) rfl (by simpa using hname) rfl
    subst hempty
    revert hcalled
    decide
  · intro h
    have hrestored : ∀ name ∈ names, strippedToolName (prefixedToolName name) = name :=
      fun name hname => stripped_prefixed_iff.mpr (h name hname).2
    refine ⟨hrestored, fun name hname other hother heq => ?_, ?_⟩
    · rw [← hrestored name hname, heq, hrestored other hother]
    · intro events stop called hevents hstop hcalled hnames
      rw [dispatchedNames_stream hevents hstop, hnames, List.map_map]
      have hsame : called.map (strippedToolName ∘ prefixedToolName) = called := by
        conv_rhs => rw [← List.map_id called]
        exact List.map_congr_left fun name hname => hrestored name (hcalled name hname)
      rw [hsame, List.filter_eq_self]
      intro name hname
      have hnonempty := (h name (hcalled name hname)).1
      simpa using hnonempty

/-- Next to a tool that has the prefix in its name, a tool without it is sent under the same
name. -/
theorem prefixed_name_collides :
    ¬ Lawful ["mcp_search", "search"] ∧
      prefixedToolName "mcp_search" = prefixedToolName "search" ∧
      strippedToolName (prefixedToolName "mcp_search") = "search" := by
  refine ⟨fun h => ?_, by decide, by decide⟩
  have := h.restored "mcp_search" mem_cons_self
  revert this
  decide

end ColossalCode.Backend.Anthropic
