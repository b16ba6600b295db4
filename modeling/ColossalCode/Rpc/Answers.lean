import ColossalCode.Rpc.Client

/-! What a call should show of the handler's answer, and when its request and response show it. -/
namespace ColossalCode.Rpc
open List Option JsonRpcRequest SendMessageParams

section Exact

variable {σ Message Task SpecStepRef StreamEvent : Type}
  (serde : Serde Message Task SpecStepRef StreamEvent)
  (server : ServerState σ Message Task SpecStepRef StreamEvent) (es : EventSource)

/-- The error that an answer of the client stands for. -/
def recovered : A2AError → Option A2AError
  | .internalError text => A2AError.ofDisplay text
  | _ => none

/-- An error is reported as itself, or as one from which its kind and message can be recovered. -/
def Reported (error answer : A2AError) : Prop := answer = error ∨ recovered answer = some error

/-- What the caller has been given shows the handler's answer: the result, or the events in their
order and then the end. -/
def Shown : Answer Task StreamEvent → List (Seen Task StreamEvent) → Prop
  | .task (.ok task), seen => seen = [.task (.ok task)]
  | .task (.error e), seen => ∃ error, seen = [.task (.error error)] ∧ Reported e error
  | .tasks (.ok tasks), seen => seen = [.tasks (.ok tasks)]
  | .tasks (.error e), seen => ∃ error, seen = [.tasks (.error error)] ∧ Reported e error
  | .events (.ok rx), seen =>
    ∃ n, seen <+: rx.events.map (fun event => .event (.ok event)) ++
      if rx.closes then List.replicate n .ended else []
  | .events (.error e), seen =>
    ∃ error n, seen <+: .event (.error error) :: List.replicate n .ended ∧ Reported e error

/-- The handler method that a call stands for, with the caller's arguments. -/
def Call.invocation : Call Message → Invocation Message SpecStepRef
  | .sendMessage message => .handleMessage message none none
  | .sendMessageStreaming message => .handleStreamingMessage message none none
  | .getTask taskId => .getTask taskId
  | .listTasks contextId limit offset => .listTasks contextId limit offset
  | .cancelTask taskId => .cancelTask taskId
  | .subscribeToTask taskId => .subscribeToTask taskId

/-- The call invoked its method once, and its caller sees the handler's answer. A stream that has
not been read has invoked nothing yet. -/
def Exchange.Faithful (x : Exchange Message Task SpecStepRef StreamEvent) : Prop :=
  (x.call.streaming = true ∧ x.invoked = [] ∧ x.seen = []) ∨
    ∃ answer, x.invoked = [(x.call.invocation, answer)] ∧ Shown answer x.seen

/-- Malformed parameters are answered by `InvalidParams`, and nothing is invoked. -/
def Posted.Faithful (p : Posted Message Task SpecStepRef StreamEvent) : Prop :=
  Malformed serde p.request →
    (∃ text, p.body = .json (.fromError (.invalidParams text) p.request.id)) ∧ p.invoked = []

structure System.Faithful (s : System σ Message Task SpecStepRef StreamEvent) : Prop where
  exchanges : ∀ x ∈ s.exchanges, x.Faithful
  posted : ∀ p ∈ s.posted, p.Faithful serde

/-- The message of a call reads back as it was written. -/
def Call.Carried : Call Message → Prop
  | .sendMessage message | .sendMessageStreaming message =>
    serde.toMessage (serde.ofMessage message) = some message
  | _ => True

/-- The tasks of an answer read back as they were written. -/
def Answer.Carried : Answer Task StreamEvent → Prop
  | .task (.ok result) =>
    (serde.ofTask result).isNull = false ∧ serde.toTask (serde.ofTask result) = some result
  | .tasks (.ok (results, _)) =>
    ∀ result ∈ results, serde.toTask (serde.ofTask result) = some result
  | _ => True

/-- There is an event to read, which reads back as it was written, or the channel is open. -/
def ReadsOn : List StreamEvent → Bool → Prop
  | [], closes => closes = false
  | event :: _, _ => ∃ text, serde.ofEvent event = .ok text ∧ serde.toEvent text = some event

/-- The first read of a stream shows the handler's answer. An error shows only if it is the event
source's own complaint. -/
def Answer.Opens : Answer Task StreamEvent → Prop
  | .events (.ok rx) => ReadsOn serde rx.events rx.closes
  | .events (.error e) => e = .streamError es.rejected
  | _ => False

def Exchange.Reads (state : σ) (x : Exchange Message Task SpecStepRef StreamEvent) : Prop :=
  match x.source with
  | .waiting => x.invoked = [] ∧ x.call.Carried serde ∧
      (server.handler.invoke state x.call.invocation).1.Opens serde es
  | .reading rest closes => ReadsOn serde rest closes
  | .closed => True

/-- Messages, tasks and events read back as they were written, no stream is read on after the last
event of its response, no streaming call is answered by an error, and no parameters of `tasks/list`
are malformed. -/
def Exact (s : System σ Message Task SpecStepRef StreamEvent) : Action Message → Prop
  | .call call => call.streaming = true ∨
      call.Carried serde ∧ (server.handler.invoke s.state call.invocation).1.Carried serde
  | .poll i => ∀ x, s.exchanges[i]? = some x → x.Reads serde server es s.state
  | .post request => Malformed serde request → request.a2aMethod ≠ some .listTasks

/-- The response that an answer is turned into. -/
def Answer.body (id : RequestId) : Answer Task StreamEvent → Body StreamEvent
  | .task result => taskBody serde result id
  | .tasks result => tasksBody serde result id
  | .events result => eventsBody result id

variable {serde server es} {state : σ} {id : RequestId} {message : Message}
  {event : StreamEvent} {text : String}

theorem received_new {method : A2AMethod} {params : Protocol.Value} (h : params.isNull = false) :
    (JsonRpcRequest.new method (some params) id).received =
      JsonRpcRequest.new method (some params) id := by
  simp [JsonRpcRequest.received, JsonRpcRequest.new, Option.filter, h]

theorem parseParams_new {α : Type} {name : String} {read : Protocol.Value → Option α}
    {method : A2AMethod} {params : Protocol.Value} {a : α} (h : read params = some a) :
    (new method (some params) id).parseParams serde name read = .ok a := by
  simp only [parseParams, new, h]

theorem read_message (h : serde.toMessage (serde.ofMessage message) = some message) :
    ofValue serde (messageParams serde message) =
      some ⟨message, none⟩ := by
  rw [ofValue_messageParams, h, map_some]

/-- A call whose message reads back invokes its method once, with the caller's arguments. -/
theorem served_of_carried {call : Call Message} (id : RequestId) (h : call.Carried serde) :
    handleJsonrpc serde server state (call.request serde id).received =
      { body := (server.handler.invoke state call.invocation).1.body serde id
        state := (server.handler.invoke state call.invocation).2
        invoked := [(call.invocation, (server.handler.invoke state call.invocation).1)] } := by
  cases call with
  | sendMessage message =>
    rw [Call.request, sendMessage, received_new rfl]
    simp only [handleJsonrpc, a2aMethod_new, handleSendMessage,
      parseParams_new (read_message h)]
    rfl
  | sendMessageStreaming message =>
    rw [Call.request, sendStreamingMessage, received_new rfl]
    simp only [handleJsonrpc, a2aMethod_new, handleStreamingMessage,
      parseParams_new (read_message h)]
    rfl
  | getTask taskId =>
    rw [Call.request, getTask, received_new rfl]
    simp only [handleJsonrpc, a2aMethod_new, handleGetTask,
      parseParams_new (GetTaskParams.ofValue_taskParams taskId)]
    rfl
  | listTasks contextId limit offset =>
    rw [Call.request, listTasks, received_new rfl]
    simp only [handleJsonrpc, a2aMethod_new, handleListTasks,
      parseParams_new (ListTasksParams.ofValue_listParams contextId limit offset)]
    rfl
  | cancelTask taskId =>
    rw [Call.request, cancelTask, received_new rfl]
    simp only [handleJsonrpc, a2aMethod_new, handleCancelTask,
      parseParams_new (CancelTaskParams.ofValue_taskParams taskId)]
    rfl
  | subscribeToTask taskId =>
    rw [Call.request, subscribeToTask, received_new rfl]
    simp only [handleJsonrpc, a2aMethod_new, handleSubscribeToTask,
      parseParams_new (GetTaskParams.ofValue_taskParams taskId)]
    rfl

theorem parse_lost (method : A2AMethod) (id : RequestId)
    (h : serde.toMessage (serde.ofMessage message) ≠ some message) :
    let request := new method (some (messageParams serde message)) id
    let parsed := request.parseParams serde "SendMessageParams" (ofValue serde)
    (∃ e, parsed = .error e) ∨ ∃ other, other ≠ message ∧ parsed = .ok ⟨other, none⟩ := by
  intro request parsed
  have hread := ofValue_messageParams serde message
  cases hother : serde.toMessage (serde.ofMessage message) with
  | none =>
    rw [hother, map_none] at hread
    have hnone : (((new method (some (messageParams serde message))
        id).params).bind (ofValue serde)).isSome = false :=
      congrArg Option.isSome hread
    obtain ⟨text, htext⟩ :=
      parseParams_error serde "SendMessageParams" (ofValue serde) hnone
    exact .inl ⟨_, htext⟩
  | some other =>
    rw [hother, map_some] at hread
    exact .inr ⟨other, fun heq => h (heq ▸ hother), parseParams_new hread⟩

variable {call : Call Message} {answer : Answer Task StreamEvent} {closes : Bool}
  {rest : List StreamEvent} {rx : Receiver StreamEvent} {seen : List (Seen Task StreamEvent)}

/-- A call whose message does not read back is refused, or invokes its method with another
message. -/
theorem served_of_not_carried (id : RequestId) (h : ¬ call.Carried serde) :
    (∃ response, handleJsonrpc serde server state (call.request serde id).received =
      unserved state response) ∨
    ∃ other answer, other ≠ call.invocation ∧
      (handleJsonrpc serde server state (call.request serde id).received).invoked =
        [(other, answer)] := by
  cases call with
  | sendMessage message =>
    rw [Call.request, sendMessage, received_new rfl]
    simp only [handleJsonrpc, a2aMethod_new, handleSendMessage]
    rcases parse_lost .sendMessage id h with ⟨e, he⟩ | ⟨other, hne, hok⟩
    · rw [he]
      exact .inl ⟨_, rfl⟩
    · rw [hok]
      refine .inr ⟨.handleMessage other none none, _, fun heq => hne ?_, rfl⟩
      injection heq
  | sendMessageStreaming message =>
    rw [Call.request, sendStreamingMessage, received_new rfl]
    simp only [handleJsonrpc, a2aMethod_new, handleStreamingMessage]
    rcases parse_lost .sendStreamingMessage id h with ⟨e, he⟩ | ⟨other, hne, hok⟩
    · rw [he]
      exact .inl ⟨_, rfl⟩
    · rw [hok]
      refine .inr ⟨.handleStreamingMessage other none none, _, fun heq => hne ?_, rfl⟩
      injection heq
  | getTask taskId => exact absurd trivial h
  | listTasks contextId limit offset => exact absurd trivial h
  | cancelTask taskId => exact absurd trivial h
  | subscribeToTask taskId => exact absurd trivial h

theorem invoked_of_not_carried (h : ¬ call.Carried serde) :
    (handleJsonrpc serde server state (call.request serde id).received).invoked ≠
      [(call.invocation, answer)] := by
  rcases served_of_not_carried id h with ⟨response, hserved⟩ | ⟨other, answer, hne, hinvoked⟩
  · rw [hserved]
    exact (cons_ne_nil _ _).symm
  · rw [hinvoked]
    intro heq
    cases heq
    exact hne rfl

theorem reported_internal (e : A2AError) : Reported e (.internalError e.display) :=
  .inr (A2AError.ofDisplay_display e)

theorem parse_success {α : Type} {name : String} {read : Protocol.Value → Option α}
    {value : Protocol.Value} {a : α} :
    parseBody serde name read (.json (.success value id) : Body StreamEvent) = .ok a ↔
      value.isNull = false ∧ read value = some a := by
  cases hnull : value.isNull with
  | true =>
    simp [parseBody, JsonRpcResponse.received, JsonRpcResponse.success, Option.filter, hnull,
      JsonRpcResponse.parseResult]
  | false =>
    cases hread : read value <;>
      simp [parseBody, JsonRpcResponse.received, JsonRpcResponse.success, Option.filter, hnull,
        JsonRpcResponse.parseResult, hread]

theorem shown_task (result : Except A2AError Task) (id : RequestId) :
    Shown (.task result : Answer Task StreamEvent)
        [.task (parseBody serde "Task" serde.toTask (taskBody serde result id))] ↔
      (Answer.task result : Answer Task StreamEvent).Carried serde := by
  cases result with
  | error e => exact iff_of_true ⟨_, rfl, reported_internal e⟩ trivial
  | ok task =>
    simp only [Shown, List.cons.injEq, and_true, Seen.task.injEq]
    exact parse_success

theorem shown_tasks (result : Except A2AError (List Task × UInt64)) (id : RequestId) :
    Shown (.tasks result : Answer Task StreamEvent)
        [.tasks ((parseBody serde "ListResult" (ListResult.ofValue serde)
          (tasksBody serde result id)).map fun result => (result.tasks, result.total))] ↔
      (Answer.tasks result : Answer Task StreamEvent).Carried serde := by
  cases result with
  | error e => exact iff_of_true ⟨_, rfl, reported_internal e⟩ trivial
  | ok pair =>
    obtain ⟨tasks, total⟩ := pair
    have hmap : ∀ read : Except A2AError (ListResult Task),
        read.map (fun result => (result.tasks, result.total)) = .ok (tasks, total) ↔
          read = .ok ⟨tasks, total⟩ := by
      intro read
      cases read with
      | error e => simp [Except.map]
      | ok result => simp [Except.map, ListResult.ext_iff]
    simp only [Shown, List.cons.injEq, and_true, Seen.tasks.injEq, hmap]
    rw [tasksBody, parse_success, ListResult.ofValue_toValue]
    exact and_iff_right rfl

theorem faithful_of_invoked {x : Exchange Message Task SpecStepRef StreamEvent}
    (h : x.invoked = [(x.call.invocation, answer)]) :
    x.Faithful ↔ Shown answer x.seen := by
  constructor
  · rintro (⟨-, hnone, -⟩ | ⟨other, hother, hshown⟩)
    · rw [h] at hnone
      cases hnone
    · rw [h] at hother
      cases hother
      exact hshown
  · exact fun hshown => .inr ⟨answer, h, hshown⟩

theorem exchange_answered (id : RequestId) (hcall : call.streaming = false) :
    (call.exchange serde server state id).2 =
      { call := call, request := call.request serde id, source := .closed
        invoked := (handleJsonrpc serde server state (call.request serde id).received).invoked
        seen := [call.returned serde
          (handleJsonrpc serde server state (call.request serde id).received).body] } := by
  simp [Call.exchange, hcall]

/-- A call that is no streaming call shows the handler's answer just when message and answer read
back. -/
theorem exchange_faithful (id : RequestId) (hcall : call.streaming = false) :
    (call.exchange serde server state id).2.Faithful ↔
      call.Carried serde ∧ (server.handler.invoke state call.invocation).1.Carried serde := by
  rw [exchange_answered id hcall]
  by_cases hcarried : call.Carried serde
  · rw [and_iff_right hcarried, served_of_carried id hcarried]
    refine (faithful_of_invoked rfl).trans ?_
    cases call with
    | sendMessage message => exact shown_task _ id
    | getTask taskId => exact shown_task _ id
    | cancelTask taskId => exact shown_task _ id
    | listTasks contextId limit offset => exact shown_tasks _ id
    | sendMessageStreaming message => cases hcall
    | subscribeToTask taskId => cases hcall
  · refine iff_of_false ?_ fun h => hcarried h.1
    rintro (⟨hstreaming, -, -⟩ | ⟨answer, hinvoked, -⟩)
    · rw [hcall] at hstreaming
      cases hstreaming
    · exact invoked_of_not_carried hcarried hinvoked

theorem readResponse_cons (rest : List StreamEvent)
    (closes : Bool) (h : serde.ofEvent event = .ok text) :
    readResponse serde es (event :: rest) closes =
      ([readEvent serde text], .reading rest closes) := by
  simp only [readResponse, nextText, h]

theorem readEvent_eq :
    readEvent serde text = .event (.ok event) ↔ serde.toEvent text = some event := by
  unfold readEvent
  cases serde.toEvent text <;> simp

/-- What the caller of a stream has been given, as far as the response has been read. -/
structure Reading (rx : Receiver StreamEvent) (rest : List StreamEvent) (closes : Bool)
    (seen : List (Seen Task StreamEvent)) : Prop where
  closes : rx.closes = closes
  events : ∃ front, rx.events = front ++ rest ∧ seen = front.map fun event => .event (.ok event)

theorem Reading.start (rx : Receiver StreamEvent) :
    Reading rx rx.events rx.closes ([] : List (Seen Task StreamEvent)) :=
  ⟨rfl, [], rfl, rfl⟩

theorem Reading.shown (h : Reading rx rest closes seen) :
    Shown (.events (.ok rx)) seen := by
  obtain ⟨front, hevents, rfl⟩ := h.events
  refine ⟨0, ?_⟩
  rw [hevents, map_append, append_assoc]
  exact prefix_append _ _

/-- Reading on keeps to the handler's events. -/
theorem Reading.next (es : EventSource) (h : Reading rx rest closes seen)
    (hreads : ReadsOn serde rest closes) :
    ∃ rest' closes', (readResponse serde es rest closes).2 = .reading rest' closes' ∧
      Reading rx rest' closes' (seen ++ (readResponse serde es rest closes).1) := by
  obtain ⟨front, hevents, rfl⟩ := h.events
  cases rest with
  | nil =>
    obtain rfl : closes = false := hreads
    exact ⟨[], false, rfl, h.closes, front, hevents, append_nil _⟩
  | cons event rest =>
    obtain ⟨text, hwrite, hread⟩ := hreads
    rw [readResponse_cons rest closes hwrite, readEvent_eq.mpr hread]
    refine ⟨rest, closes, rfl, h.closes, front ++ [event], ?_, ?_⟩
    · rw [hevents, append_assoc, singleton_append]
    · rw [map_append, map_singleton]

/-- What is shown of a stream tells that it was right to read on. -/
theorem Reading.of_shown (h : Reading rx rest closes seen)
    (hwritten : ∀ event, ∃ text, serde.ofEvent event = .ok text)
    (hshown : Shown (.events (.ok rx)) (seen ++ (readResponse serde es rest closes).1)) :
    ReadsOn serde rest closes := by
  obtain ⟨front, hevents, rfl⟩ := h.events
  obtain ⟨n, hshown⟩ := hshown
  rw [hevents, map_append, append_assoc, prefix_append_right_inj] at hshown
  cases rest with
  | nil =>
    cases closes with
    | false => rfl
    | true =>
      rw [h.closes] at hshown
      cases n with
      | zero => exact absurd hshown (by simp [readResponse, nextText])
      | succ n =>
        have hfirst := (cons_prefix_cons.mp hshown).1
        cases hfirst
  | cons event rest =>
    obtain ⟨text, hwrite⟩ := hwritten event
    rw [readResponse_cons rest closes hwrite, map_cons, cons_append,
      cons_prefix_cons] at hshown
    exact ⟨text, hwrite, readEvent_eq.mp hshown.1⟩

end Exact

end ColossalCode.Rpc
