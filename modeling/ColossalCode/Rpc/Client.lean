import ColossalCode.Rpc.Wire
import ColossalCode.Transition.Run

/-! The server side: the handler's methods, and how a request is answered. With each response comes
a record of the handler methods that were invoked for it. -/
namespace ColossalCode.Rpc
open SendMessageParams

open Protocol (Value)

/-- The events that a channel hands out; when the sender goes away after them, it closes. -/
structure Receiver (StreamEvent : Type) where
  events : List StreamEvent
  closes : Bool
  deriving DecidableEq

/-- The trait `A2AHandler`, over the handler's own state. -/
structure A2AHandler (σ Message Task SpecStepRef StreamEvent : Type) where
  handleMessage : σ → Message → Option String → Option SpecStepRef → Except A2AError Task × σ
  handleStreamingMessage : σ → Message → Option String → Option SpecStepRef →
    Except A2AError (Receiver StreamEvent) × σ
  getTask : σ → String → Except A2AError Task × σ
  listTasks : σ → Option String → Option UInt64 → Option UInt64 →
    Except A2AError (List Task × UInt64) × σ
  cancelTask : σ → String → Except A2AError Task × σ
  subscribeToTask : σ → String → Except A2AError (Receiver StreamEvent) × σ

inductive Invocation (Message SpecStepRef : Type) where
  | handleMessage (message : Message) (taskId : Option String) (specStep : Option SpecStepRef)
  | handleStreamingMessage (message : Message) (taskId : Option String)
      (specStep : Option SpecStepRef)
  | getTask (taskId : String)
  | listTasks (contextId : Option String) (limit offset : Option UInt64)
  | cancelTask (taskId : String)
  | subscribeToTask (taskId : String)
  deriving DecidableEq

inductive Answer (Task StreamEvent : Type) where
  | task (result : Except A2AError Task)
  | tasks (result : Except A2AError (List Task × UInt64))
  | events (result : Except A2AError (Receiver StreamEvent))

section Server

variable {σ Message Task SpecStepRef StreamEvent : Type}

/-- What the handler answers to an invocation in a state, and the state it is then in. -/
def A2AHandler.invoke (handler : A2AHandler σ Message Task SpecStepRef StreamEvent) (state : σ) :
    Invocation Message SpecStepRef → Answer Task StreamEvent × σ
  | .handleMessage message taskId specStep =>
    (handler.handleMessage state message taskId specStep).map .task id
  | .handleStreamingMessage message taskId specStep =>
    (handler.handleStreamingMessage state message taskId specStep).map .events id
  | .getTask taskId => (handler.getTask state taskId).map .task id
  | .listTasks contextId limit offset =>
    (handler.listTasks state contextId limit offset).map .tasks id
  | .cancelTask taskId => (handler.cancelTask state taskId).map .task id
  | .subscribeToTask taskId => (handler.subscribeToTask state taskId).map .events id

structure ServerState (σ Message Task SpecStepRef StreamEvent : Type) where
  agentCard : Value
  handler : A2AHandler σ Message Task SpecStepRef StreamEvent

/-- A response is JSON, or a stream of server-sent events that are written as they come. -/
inductive Body (StreamEvent : Type) where
  | json (response : JsonRpcResponse)
  | sse (receiver : Receiver StreamEvent)

/-- An answered request: the response, the handler's state after it, and what was invoked. -/
structure Served (σ Message Task SpecStepRef StreamEvent : Type) where
  body : Body StreamEvent
  state : σ
  invoked : List (Invocation Message SpecStepRef × Answer Task StreamEvent)

variable (serde : Serde Message Task SpecStepRef StreamEvent)
  (server : ServerState σ Message Task SpecStepRef StreamEvent) (state : σ)

/-- A response that no method was invoked for. -/
def unserved (response : JsonRpcResponse) : Served σ Message Task SpecStepRef StreamEvent where
  body := .json response
  state := state
  invoked := []

/-- `Json(JsonRpcResponse::task(..))`, or the error. -/
def taskBody (result : Except A2AError Task) (id : RequestId) : Body StreamEvent :=
  match result with
  | .ok task => .json (.success (serde.ofTask task) id)
  | .error e => .json (.fromError e id)

/-- The tasks and their number as a result, or the error. -/
def tasksBody (result : Except A2AError (List Task × UInt64)) (id : RequestId) : Body StreamEvent :=
  match result with
  | .ok (tasks, total) =>
    .json (.success (ListResult.toValue serde { tasks := tasks, total := total }) id)
  | .error e => .json (.fromError e id)

/-- `create_sse_response(rx)`, or the error. -/
def eventsBody (result : Except A2AError (Receiver StreamEvent)) (id : RequestId) :
    Body StreamEvent :=
  match result with
  | .ok rx => .sse rx
  | .error e => .json (.fromError e id)

def handleSendMessage (request : JsonRpcRequest) : Served σ Message Task SpecStepRef StreamEvent :=
  match request.parseParams serde "SendMessageParams" (ofValue serde) with
  | .error e => unserved state (.fromError e request.id)
  | .ok params =>
    let (result, next) := server.handler.handleMessage state params.message none params.specStep
    { body := taskBody serde result request.id
      state := next
      invoked := [(.handleMessage params.message none params.specStep, .task result)] }

def handleStreamingMessage (request : JsonRpcRequest) :
    Served σ Message Task SpecStepRef StreamEvent :=
  match request.parseParams serde "SendMessageParams" (ofValue serde) with
  | .error e => unserved state (.fromError e request.id)
  | .ok params =>
    let (result, next) :=
      server.handler.handleStreamingMessage state params.message none params.specStep
    { body := eventsBody result request.id
      state := next
      invoked := [(.handleStreamingMessage params.message none params.specStep, .events result)] }

def handleGetTask (request : JsonRpcRequest) : Served σ Message Task SpecStepRef StreamEvent :=
  match request.parseParams serde "GetTaskParams" GetTaskParams.ofValue with
  | .error e => unserved state (.fromError e request.id)
  | .ok params =>
    let (result, next) := server.handler.getTask state params.taskId
    { body := taskBody serde result request.id
      state := next
      invoked := [(.getTask params.taskId, .task result)] }

/-- Parameters that do not parse are taken for no filters. -/
def handleListTasks (request : JsonRpcRequest) : Served σ Message Task SpecStepRef StreamEvent :=
  let params : ListTasksParams :=
    match request.parseParams serde "ListTasksParams" ListTasksParams.ofValue with
    | .ok params => params
    | .error _ => { contextId := none, limit := none, offset := none }
  let (result, next) :=
    server.handler.listTasks state params.contextId params.limit params.offset
  { body := tasksBody serde result request.id
    state := next
    invoked := [(.listTasks params.contextId params.limit params.offset, .tasks result)] }

def handleCancelTask (request : JsonRpcRequest) : Served σ Message Task SpecStepRef StreamEvent :=
  match request.parseParams serde "CancelTaskParams" CancelTaskParams.ofValue with
  | .error e => unserved state (.fromError e request.id)
  | .ok params =>
    let (result, next) := server.handler.cancelTask state params.taskId
    { body := taskBody serde result request.id
      state := next
      invoked := [(.cancelTask params.taskId, .task result)] }

def handleSubscribeToTask (request : JsonRpcRequest) :
    Served σ Message Task SpecStepRef StreamEvent :=
  match request.parseParams serde "GetTaskParams" GetTaskParams.ofValue with
  | .error e => unserved state (.fromError e request.id)
  | .ok params =>
    let (result, next) := server.handler.subscribeToTask state params.taskId
    { body := eventsBody result request.id
      state := next
      invoked := [(.subscribeToTask params.taskId, .events result)] }

def handleJsonrpc (request : JsonRpcRequest) : Served σ Message Task SpecStepRef StreamEvent :=
  match request.a2aMethod with
  | none => unserved state (.fromError (.methodNotFound request.method) request.id)
  | some .sendMessage => handleSendMessage serde server state request
  | some .sendStreamingMessage => handleStreamingMessage serde server state request
  | some .getTask => handleGetTask serde server state request
  | some .listTasks => handleListTasks serde server state request
  | some .cancelTask => handleCancelTask serde server state request
  | some .subscribeToTask => handleSubscribeToTask serde server state request
  | some .getExtendedAgentCard => unserved state (.success server.agentCard request.id)
  | some .setPushNotificationConfig | some .getPushNotificationConfig =>
    unserved state
      (.fromError (.unsupportedOperation s!"Method {request.method} not implemented") request.id)

/-- Whether a method can read the parameters of a request; the filters of `tasks/list` may be
missing, and the other methods that are served have no parameters. -/
def wellFormed : A2AMethod → Option Value → Bool
  | .sendMessage, params | .sendStreamingMessage, params =>
    (params.bind (ofValue serde)).isSome
  | .getTask, params | .subscribeToTask, params => (params.bind GetTaskParams.ofValue).isSome
  | .cancelTask, params => (params.bind CancelTaskParams.ofValue).isSome
  | .listTasks, some params => (ListTasksParams.ofValue params).isSome
  | _, _ => true

/-- The request names a method and its parameters are malformed. -/
def Malformed (request : JsonRpcRequest) : Prop :=
  request.a2aMethod.any (fun method => !wellFormed serde method request.params) = true

instance (request : JsonRpcRequest) : Decidable (Malformed serde request) :=
  inferInstanceAs (Decidable (_ = _))

variable {request : JsonRpcRequest}

theorem parseParams_error {α : Type} (name : String) (read : Value → Option α)
    (h : (request.params.bind read).isSome = false) :
    ∃ text, request.parseParams serde name read = .error (.invalidParams text) := by
  unfold JsonRpcRequest.parseParams
  cases hparams : request.params with
  | none => exact ⟨_, rfl⟩
  | some params =>
    rw [hparams, Option.bind_some] at h
    dsimp only
    cases hread : read params with
    | none => exact ⟨serde.complaint name params, rfl⟩
    | some a =>
      rw [hread] at h
      cases h

variable {serde}

/-- Malformed parameters are refused by every method but `tasks/list`, and nothing is invoked. -/
theorem malformed_refused (h : Malformed serde request)
    (hmethod : request.a2aMethod ≠ some .listTasks) :
    ∃ text, handleJsonrpc serde server state request =
      unserved state (.fromError (.invalidParams text) request.id) := by
  unfold Malformed at h
  unfold handleJsonrpc
  cases hnamed : request.a2aMethod with
  | none =>
    rw [hnamed] at h
    cases h
  | some method =>
    rw [hnamed, Option.any_some, Bool.not_eq_true'] at h
    cases method with
    | sendMessage =>
      obtain ⟨text, htext⟩ := parseParams_error serde "SendMessageParams"
        (ofValue serde) h
      exact ⟨text, by simp only [handleSendMessage, htext]⟩
    | sendStreamingMessage =>
      obtain ⟨text, htext⟩ := parseParams_error serde "SendMessageParams"
        (ofValue serde) h
      exact ⟨text, by simp only [handleStreamingMessage, htext]⟩
    | getTask =>
      obtain ⟨text, htext⟩ := parseParams_error serde "GetTaskParams" GetTaskParams.ofValue h
      exact ⟨text, by simp only [handleGetTask, htext]⟩
    | subscribeToTask =>
      obtain ⟨text, htext⟩ := parseParams_error serde "GetTaskParams" GetTaskParams.ofValue h
      exact ⟨text, by simp only [handleSubscribeToTask, htext]⟩
    | cancelTask =>
      obtain ⟨text, htext⟩ := parseParams_error serde "CancelTaskParams" CancelTaskParams.ofValue h
      exact ⟨text, by simp only [handleCancelTask, htext]⟩
    | listTasks => exact absurd hnamed hmethod
    | getExtendedAgentCard | setPushNotificationConfig | getPushNotificationConfig => cases h

variable {server state}

/-- `tasks/list` invokes the handler whatever its parameters are. -/
theorem list_invokes (hmethod : request.a2aMethod = some .listTasks) :
    (handleJsonrpc serde server state request).invoked ≠ [] := by
  unfold handleJsonrpc
  rw [hmethod]
  exact List.cons_ne_nil _ _

end Server

end ColossalCode.Rpc

/-! The client side: calls, the event source that the streaming calls read, and sequences of calls
against one server. -/
namespace ColossalCode.Rpc

open Protocol (Value)

/-- What the third-party event source does: what it says when it rejects a response that is no event
stream and when a response ends, and whether it repeats a request that was so rejected. After
a response has ended it always repeats the request. -/
structure EventSource where
  repeatsRejected : Bool
  rejected : String
  ended : String

/-- The methods of `A2AClient`. -/
inductive Call (Message : Type) where
  | sendMessage (message : Message)
  | sendMessageStreaming (message : Message)
  | getTask (taskId : String)
  | listTasks (contextId : Option String) (limit offset : Option UInt64)
  | cancelTask (taskId : String)
  | subscribeToTask (taskId : String)
  deriving DecidableEq

def Call.streaming {Message : Type} : Call Message → Bool
  | .sendMessageStreaming _ | .subscribeToTask _ => true
  | _ => false

/-- What a caller is given: a result, the next item of a stream, or the end of the stream. -/
inductive Seen (Task StreamEvent : Type) where
  | task (result : Except A2AError Task)
  | tasks (result : Except A2AError (List Task × UInt64))
  | event (result : Except A2AError StreamEvent)
  | ended

/-- Where the event source of a call stands: it is about to send the request, it reads a response
whose events are still to be written, or it is closed. -/
inductive Source (StreamEvent : Type) where
  | waiting
  | reading (rest : List StreamEvent) (closes : Bool)
  | closed

section Client

variable {σ Message Task SpecStepRef StreamEvent : Type}
  (serde : Serde Message Task SpecStepRef StreamEvent)
  (server : ServerState σ Message Task SpecStepRef StreamEvent) (es : EventSource)

def Call.request (id : RequestId) : Call Message → JsonRpcRequest
  | .sendMessage message => .sendMessage serde message id
  | .sendMessageStreaming message => .sendStreamingMessage serde message id
  | .getTask taskId => .getTask taskId id
  | .listTasks contextId limit offset => .listTasks contextId limit offset id
  | .cancelTask taskId => .cancelTask taskId id
  | .subscribeToTask taskId => .subscribeToTask taskId id

/-- `parse_result` on a response; a body that is no JSON is no response. -/
def parseBody {α : Type} (name : String) (read : Value → Option α) :
    Body StreamEvent → Except A2AError α
  | .json response => response.received.parseResult serde name read
  | .sse _ => .error (.requestError "error decoding response body")

/-- What a call that is no streaming call returns. -/
def Call.returned (body : Body StreamEvent) : Call Message → Seen Task StreamEvent
  | .listTasks _ _ _ =>
    .tasks ((parseBody serde "ListResult" (ListResult.ofValue serde) body).map
      fun result => (result.tasks, result.total))
  | _ => .task (parseBody serde "Task" serde.toTask body)

/-- The next event that can be written, and those behind it. -/
def nextText : List StreamEvent → Option (String × List StreamEvent)
  | [] => none
  | event :: rest =>
    match serde.ofEvent event with
    | .ok text => some (text, rest)
    | .error _ => nextText rest

/-- An item of the stream from the text of an event. -/
def readEvent (text : String) : Seen Task StreamEvent :=
  match serde.toEvent text with
  | some event => .event (.ok event)
  | none => .event (.error (.parseError (serde.eventComplaint text)))

/-- The next item of a response; there is none yet where the channel is still open. -/
def readResponse (rest : List StreamEvent) (closes : Bool) :
    List (Seen Task StreamEvent) × Source StreamEvent :=
  match nextText serde rest with
  | some (text, rest) => ([readEvent serde text], .reading rest closes)
  | none =>
    if closes then ([.event (.error (.streamError es.ended))], .waiting)
    else ([], .reading [] closes)

/-- The first item of a response: one that is no event stream is rejected. -/
def openResponse : Body StreamEvent → List (Seen Task StreamEvent) × Source StreamEvent
  | .sse rx => readResponse serde es rx.events rx.closes
  | .json _ => ([.event (.error (.streamError es.rejected))],
      if es.repeatsRejected then .waiting else .closed)

/-- A call in progress or done: its request, its event source, the methods that were invoked for it
with the handler's answers, and what the caller has been given. -/
structure Exchange (Message Task SpecStepRef StreamEvent : Type) where
  call : Call Message
  request : JsonRpcRequest
  source : Source StreamEvent
  invoked : List (Invocation Message SpecStepRef × Answer Task StreamEvent)
  seen : List (Seen Task StreamEvent)

/-- A request that is not the client's, as the server reads it, and what came of it. -/
structure Posted (Message Task SpecStepRef StreamEvent : Type) where
  request : JsonRpcRequest
  body : Body StreamEvent
  invoked : List (Invocation Message SpecStepRef × Answer Task StreamEvent)

structure System (σ Message Task SpecStepRef StreamEvent : Type) where
  state : σ
  nextRequestId : Int
  exchanges : List (Exchange Message Task SpecStepRef StreamEvent)
  posted : List (Posted Message Task SpecStepRef StreamEvent)

/-- The caller of a streaming call asks for an item. -/
def Exchange.poll (state : σ) (x : Exchange Message Task SpecStepRef StreamEvent) :
    σ × Exchange Message Task SpecStepRef StreamEvent :=
  match x.source with
  | .closed => (state, { x with seen := x.seen ++ [.ended] })
  | .reading rest closes =>
    let read := readResponse serde es rest closes
    (state, { x with source := read.2, seen := x.seen ++ read.1 })
  | .waiting =>
    let served := handleJsonrpc serde server state x.request.received
    let read := openResponse serde es served.body
    (served.state, { x with
      source := read.2, invoked := x.invoked ++ served.invoked, seen := x.seen ++ read.1 })

/-- A call is made. A streaming call sends nothing until its stream is read. -/
def Call.exchange (state : σ) (id : RequestId) (call : Call Message) :
    σ × Exchange Message Task SpecStepRef StreamEvent :=
  let request := call.request serde id
  if call.streaming then
    (state, { call := call, request := request, source := .waiting, invoked := [], seen := [] })
  else
    let served := handleJsonrpc serde server state request.received
    (served.state, { call := call, request := request, source := .closed, invoked := served.invoked
                     seen := [call.returned serde served.body] })

inductive Action (Message : Type) where
  | call (call : Call Message)
  | poll (i : Nat)
  | post (request : JsonRpcRequest)

def step (s : System σ Message Task SpecStepRef StreamEvent) :
    Action Message → Option (System σ Message Task SpecStepRef StreamEvent)
  | .call call =>
    let (state, x) := call.exchange serde server s.state (.number s.nextRequestId)
    some { s with
      state := state, nextRequestId := s.nextRequestId + 1, exchanges := s.exchanges ++ [x] }
  | .poll i =>
    match s.exchanges[i]? with
    | some x =>
      if x.call.streaming then
        let (state, x) := x.poll serde server es s.state
        some { s with state := state, exchanges := s.exchanges.set i x }
      else none
    | none => none
  | .post request =>
    let served := handleJsonrpc serde server s.state request
    some { s with
      state := served.state
      posted := s.posted ++
        [{ request := request, body := served.body, invoked := served.invoked }] }

/-- A client that has made no call, and a handler in some state. -/
def System.start (state : σ) : System σ Message Task SpecStepRef StreamEvent where
  state := state
  nextRequestId := 1
  exchanges := []
  posted := []

end Client

end ColossalCode.Rpc
