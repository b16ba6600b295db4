import ColossalCode.Agent.Messages
import ColossalCode.Backend.Sse

/-! What the stream decoders share: tool calls kept by their index, payloads without white space
around them, and the text they stream. -/
namespace ColossalCode.Backend
open List Option

open Agent (Response ChunkChoice Choice ResponseMessage ToolCallResponse)

/-- `resize_with(n, Default::default)`, where the list is shorter than that. -/
def resizedTo {α : Type} [Inhabited α] (n : Nat) (state : List α) : List α :=
  state ++ List.replicate (n - state.length) default

/-- `data.trim()` -/
def trimmed (data : List Char) : String := Text.trim (String.ofList data)

/-- The calls, or nothing if there is none. -/
def someCalls {α : Type} (calls : List α) : Option (List α) :=
  if calls.isEmpty then none else some calls

/-- `format!("call-{}", idx)` -/
def callId (idx : Nat) : String := "call-" ++ toString idx

/-- The content deltas of a response. -/
def deltaText : Response → List Char
  | .chunk choices => choices.flatMap fun choice => choice.delta.content.getD []
  | _ => []

/-- The text that `run_generation` reads from a response: the content of its first choice, unless
that has tool calls. -/
def readText : Response → List Char
  | .chunk (choice :: _) =>
    if choice.delta.toolCalls.isNone then choice.delta.content.getD [] else []
  | _ => []

def streamedText (sent : List Response) : List Char := sent.flatMap deltaText

def consumedText (sent : List Response) : List Char := sent.flatMap readText

/-- The tool calls in a chunk. -/
def deltaCalls : Response → List ToolCallResponse
  | .chunk choices => choices.flatMap fun choice => choice.delta.toolCalls.getD []
  | _ => []

def streamedCalls (sent : List Response) : List ToolCallResponse := sent.flatMap deltaCalls

/-- The message of the final response. -/
def finalMessage : List Response → Option ResponseMessage
  | [] => none
  | .done choices :: _ => choices.head?.map (·.message)
  | _ :: sent => finalMessage sent

def finalText (sent : List Response) : Option (List Char) :=
  (finalMessage sent).bind (·.content)

def finalCalls (sent : List Response) : Option (List ToolCallResponse) :=
  (finalMessage sent).bind (·.toolCalls)

/-- The final response says what has been streamed, and what `run_generation` has read. -/
def Complete (sent : List Response) : Prop :=
  finalText sent = some (streamedText sent) ∧ finalText sent = some (consumedText sent)

variable {sent : List Response} {α : Type} {f g : α → List Char}

@[simp] theorem streamedText_append (first second : List Response) :
    streamedText (first ++ second) = streamedText first ++ streamedText second :=
  flatMap_append

@[simp] theorem streamedCalls_append (first second : List Response) :
    streamedCalls (first ++ second) = streamedCalls first ++ streamedCalls second :=
  flatMap_append

@[simp] theorem consumedText_append (first second : List Response) :
    consumedText (first ++ second) = consumedText first ++ consumedText second :=
  flatMap_append

/-- Nothing final has been sent. -/
def Unfinished (sent : List Response) : Prop :=
  ∀ response ∈ sent, ∃ choices, response = .chunk choices

theorem unfinished_append {first second : List Response} (hfirst : Unfinished first)
    (hsecond : Unfinished second) : Unfinished (first ++ second) := by
  intro response hresponse
  rcases mem_append.mp hresponse with h | h
  · exact hfirst response h
  · exact hsecond response h

theorem unfinished_chunk (choices : List ChunkChoice) : Unfinished [.chunk choices] := by
  intro response hresponse
  exact ⟨choices, mem_singleton.mp hresponse⟩

theorem finalMessage_done (h : Unfinished sent) (choice : Choice) :
    finalMessage (sent ++ [.done [choice]]) = some choice.message := by
  induction sent with
  | nil => rfl
  | cons response sent ih =>
    obtain ⟨choices, rfl⟩ := h response mem_cons_self
    exact ih fun response hresponse => h response (mem_cons_of_mem _ hresponse)

theorem finalText_done (h : Unfinished sent) (choice : Choice) :
    finalText (sent ++ [.done [choice]]) = choice.message.content := by
  rw [finalText, finalMessage_done h, bind_some]

theorem finalCalls_done (h : Unfinished sent) (choice : Choice) :
    finalCalls (sent ++ [.done [choice]]) = choice.message.toolCalls := by
  rw [finalCalls, finalMessage_done h, bind_some]

/-- A final response is complete if its content has been streamed and read. -/
theorem complete_done_iff (h : Unfinished sent) (finishReason role : String) (content : List Char)
    (toolCalls : Option (List ToolCallResponse)) :
    Complete (sent ++ [.done [⟨finishReason, ⟨some content, role, toolCalls⟩⟩]]) ↔
      content = streamedText sent ∧ content = consumedText sent := by
  unfold Complete
  rw [finalText_done h, streamedText_append, consumedText_append]
  simp [streamedText, consumedText, deltaText, readText]

/-- Where each part is left out or kept, all of them are kept if nothing is missing. -/
theorem flatMap_eq_iff (hpart : ∀ x, f x = g x ∨ f x = []) (l : List α) :
    l.flatMap f = l.flatMap g ↔ ∀ x ∈ l, f x = g x := by
  have hlength : ∀ l : List α, (l.flatMap f).length ≤ (l.flatMap g).length := by
    intro l
    induction l with
    | nil => exact Nat.le_refl _
    | cons x l ih =>
      rw [flatMap_cons, flatMap_cons, length_append, length_append]
      rcases hpart x with h | h
      · rw [h]
        omega
      · rw [h, length_nil]
        omega
  induction l with
  | nil => simp
  | cons x l ih =>
    rw [flatMap_cons, flatMap_cons, forall_mem_cons]
    refine ⟨fun heq => ?_, fun ⟨hx, hrest⟩ => by rw [hx, ih.mpr hrest]⟩
    have hx : f x = g x := by
      rcases hpart x with h | h
      · exact h
      · have hl := hlength l
        have hall := congrArg List.length heq
        rw [length_append, length_append, h, length_nil] at hall
        rw [h, length_eq_zero_iff.mp (show (g x).length = 0 by omega)]
    rw [hx] at heq
    exact ⟨hx, ih.mp (append_cancel_left heq)⟩

end ColossalCode.Backend

/-! A list that grows to the slot that is asked for. -/
namespace ColossalCode.Backend
open List Option

variable {α : Type}

theorem modify_last (l : List α) (x : α) (g : α → α) :
    (l ++ [x]).modify l.length g = l ++ [g x] := by
  induction l with
  | nil => rfl
  | cons y l ih => rw [cons_append, length_cons, modify_succ_cons, ih]; rfl

theorem someCalls_getD (calls : List α) : (someCalls calls).getD [] = calls := by
  cases calls <;> rfl

variable [Inhabited α]

theorem resizedTo_of_le {n : Nat} {state : List α} (h : n ≤ state.length) :
    resizedTo n state = state := by
  rw [resizedTo, Nat.sub_eq_zero_of_le h]
  simp

theorem slot_length (state : List α) (idx : Nat) (f : α → α) :
    ((resizedTo (idx + 1) state).modify idx f).length = max state.length (idx + 1) := by
  rw [length_modify, resizedTo, length_append, length_replicate]
  omega

theorem resizedTo_getD (n : Nat) (state : List α) (j : Nat) :
    (resizedTo n state).getD j default = state.getD j default := by
  unfold resizedTo
  rw [getD_eq_getElem?_getD, getD_eq_getElem?_getD, List.getElem?_append]
  split
  · rfl
  · rename_i hj
    rw [List.getElem?_eq_none (by omega : state.length ≤ j), List.getElem?_replicate]
    split <;> rfl

/-- What is put into a slot changes nothing in the others. -/
theorem slot_getD (state : List α) (idx j : Nat) (f : α → α) :
    ((resizedTo (idx + 1) state).modify idx f).getD j default =
      if idx = j then f (state.getD j default) else state.getD j default := by
  have hlength : (resizedTo (idx + 1) state).length = max state.length (idx + 1) := by
    rw [resizedTo, length_append, length_replicate]
    omega
  have hresized := resizedTo_getD (idx + 1) state j
  rw [getD_eq_getElem?_getD] at hresized
  rw [getD_eq_getElem?_getD, List.getElem?_modify]
  by_cases hidx : idx = j
  · have hj : j < (resizedTo (idx + 1) state).length := by omega
    rw [List.getElem?_eq_getElem hj, getD_some] at hresized
    rw [List.getElem?_eq_getElem hj, if_pos hidx, ← hresized]
    exact if_pos hidx
  · rw [if_neg hidx, ← hresized]
    simp [hidx]

/-- The slots of a list, in their order. -/
theorem zipIdx_filterMap {β : Type} (state : List α) (g : α × Nat → Option β) :
    state.zipIdx.filterMap g =
      (List.range state.length).filterMap fun idx => g (state.getD idx default, idx) := by
  have hzip : state.zipIdx =
      (List.range state.length).map fun idx => (state.getD idx default, idx) := by
    apply ext_getElem
    · simp
    · intro idx hidx hidx'
      rw [length_zipIdx] at hidx
      simp [hidx]
  rw [hzip, filterMap_map]
  rfl

/-- Slots that hold nothing may be added. -/
theorem range_filterMap {β : Type} {g : Nat → Option β} {m n : Nat} (hmn : m ≤ n)
    (h : ∀ idx, m ≤ idx → g idx = none) :
    (List.range n).filterMap g = (List.range m).filterMap g := by
  obtain ⟨k, rfl⟩ := Nat.exists_eq_add_of_le hmn
  rw [range_add, filterMap_append, filterMap_map]
  have hnone : (List.range k).filterMap (g ∘ fun idx => m + idx) = [] := by
    rw [filterMap_eq_nil_iff]
    intro idx _
    exact h _ (Nat.le_add_right m idx)
  rw [hnone, append_nil]

end ColossalCode.Backend
