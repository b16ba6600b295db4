import ColossalCode.Protocol.Spec
import ColossalCode.Rpc.Errors
import ColossalCode.ToolsBinary.CommandLine

/-! The JSON-RPC binding: methods, requests, responses and parameters. The derived serde instances
of messages, tasks, steps and events are parameters. -/
namespace ColossalCode.Rpc

open Protocol (Value)
open ToolsBinary (digits below digits_repr)

inductive A2AMethod where
  | sendMessage
  | sendStreamingMessage
  | getTask
  | listTasks
  | cancelTask
  | subscribeToTask
  | getExtendedAgentCard
  | setPushNotificationConfig
  | getPushNotificationConfig
  deriving DecidableEq, Repr

def A2AMethod.asStr : A2AMethod → String
  | .sendMessage => "message/send"
  | .sendStreamingMessage => "message/stream"
  | .getTask => "tasks/get"
  | .listTasks => "tasks/list"
  | .cancelTask => "tasks/cancel"
  | .subscribeToTask => "tasks/subscribe"
  | .getExtendedAgentCard => "agent/card"
  | .setPushNotificationConfig => "tasks/pushNotificationConfig/set"
  | .getPushNotificationConfig => "tasks/pushNotificationConfig/get"

def A2AMethod.fromStr (s : String) : Option A2AMethod :=
  match s with
  | "message/send" => some .sendMessage
  | "message/stream" => some .sendStreamingMessage
  | "tasks/get" => some .getTask
  | "tasks/list" => some .listTasks
  | "tasks/cancel" => some .cancelTask
  | "tasks/subscribe" => some .subscribeToTask
  | "agent/card" => some .getExtendedAgentCard
  | "tasks/pushNotificationConfig/set" => some .setPushNotificationConfig
  | "tasks/pushNotificationConfig/get" => some .getPushNotificationConfig
  | _ => none

theorem A2AMethod.fromStr_asStr (method : A2AMethod) :
    A2AMethod.fromStr method.asStr = some method := by
  cases method <;> rfl

inductive RequestId where
  | string (s : String)
  | number (n : Int)
  deriving DecidableEq, Repr

structure JsonRpcRequest where
  jsonrpc : String
  method : String
  params : Option Value
  id : RequestId

structure JsonRpcError where
  code : Int
  message : String
  data : Option Value

structure JsonRpcResponse where
  jsonrpc : String
  result : Option Value
  error : Option JsonRpcError
  id : RequestId

/-- What serde derives for the protocol's types: their values as JSON, JSON as their values where
it is one, and the texts of what it cannot read. `toConfiguration` tells whether JSON is a message
configuration, which no one looks at. -/
structure Serde (Message Task SpecStepRef StreamEvent : Type) where
  ofMessage : Message → Value
  toMessage : Value → Option Message
  ofTask : Task → Value
  toTask : Value → Option Task
  toSpecStep : Value → Option SpecStepRef
  toConfiguration : Value → Option Unit
  ofEvent : StreamEvent → Except String String
  toEvent : String → Option StreamEvent
  complaint : String → Value → String
  eventComplaint : String → String

/-- The fields of a structure, from an object or from an array that has all of them in order. -/
def structFields (names : List String) : Value → Option (String → Option Value)
  | .object fields => some fun name => fields.lookup name
  | .array items =>
    if items.length = names.length then some fun name => (names.zip items).lookup name else none
  | _ => none

/-- A field of type `Option`: there may be none, and `null` is none. -/
def optional {α : Type} (read : Value → Option α) : Option Value → Option (Option α)
  | none | some .null => some none
  | some value => (read value).map some

def ofUsize (n : UInt64) : Value := .number (toString n.toNat)

def toUsize : Value → Option UInt64
  | .number literal => ((digits literal.toList).bind (below 0x10000000000000000)).map UInt64.ofNat
  | _ => none

theorem toUsize_ofUsize (n : UInt64) : toUsize (ofUsize n) = some n := by
  have hread :
      (digits (toString n.toNat).toList).bind (below 0x10000000000000000) = some n.toNat := by
    rw [Nat.toString_eq_repr, digits_repr, Option.bind_some, below, if_pos n.toNat_lt]
  rw [ofUsize, toUsize, hread, Option.map_some, UInt64.ofNat_toNat]

section Params

variable {Message Task SpecStepRef StreamEvent : Type}

structure SendMessageParams (Message SpecStepRef : Type) where
  message : Message
  specStep : Option SpecStepRef

structure GetTaskParams where
  taskId : String
  historyLength : Option UInt64

structure ListTasksParams where
  contextId : Option String
  limit : Option UInt64
  offset : Option UInt64

structure CancelTaskParams where
  taskId : String

def SendMessageParams.ofValue (serde : Serde Message Task SpecStepRef StreamEvent) (value : Value) :
    Option (SendMessageParams Message SpecStepRef) := do
  let field ← structFields ["message", "specStep", "configuration"] value
  let message ← (field "message").bind serde.toMessage
  let specStep ← optional serde.toSpecStep (field "specStep")
  let _ ← optional serde.toConfiguration (field "configuration")
  some ⟨message, specStep⟩

def GetTaskParams.ofValue (value : Value) : Option GetTaskParams := do
  let field ← structFields ["taskId", "historyLength"] value
  let taskId ← (field "taskId").bind Value.asStr
  let historyLength ← optional toUsize (field "historyLength")
  some ⟨taskId, historyLength⟩

def ListTasksParams.ofValue (value : Value) : Option ListTasksParams := do
  let field ← structFields ["contextId", "limit", "offset"] value
  let contextId ← optional Value.asStr (field "contextId")
  let limit ← optional toUsize (field "limit")
  let offset ← optional toUsize (field "offset")
  some ⟨contextId, limit, offset⟩

def CancelTaskParams.ofValue (value : Value) : Option CancelTaskParams := do
  let field ← structFields ["taskId"] value
  let taskId ← (field "taskId").bind Value.asStr
  some ⟨taskId⟩

/-- `JsonRpcRequest::parse_params`; `name` is the structure that is read. -/
def JsonRpcRequest.parseParams {α : Type} (serde : Serde Message Task SpecStepRef StreamEvent)
    (name : String) (read : Value → Option α) (request : JsonRpcRequest) : Except A2AError α :=
  match request.params with
  | some params =>
    match read params with
    | some params => .ok params
    | none => .error (.invalidParams (serde.complaint name params))
  | none => .error (.invalidParams "Missing params")

end Params

/-- `JsonRpcRequest::new`. -/
def JsonRpcRequest.new (method : A2AMethod) (params : Option Value) (id : RequestId) :
    JsonRpcRequest where
  jsonrpc := "2.0"
  method := method.asStr
  params := params
  id := id

def JsonRpcRequest.a2aMethod (request : JsonRpcRequest) : Option A2AMethod :=
  A2AMethod.fromStr request.method

/-- The request that the server reads: an optional field that is `null` is none. -/
def JsonRpcRequest.received (request : JsonRpcRequest) : JsonRpcRequest :=
  { request with params := request.params.filter fun params => !params.isNull }

namespace JsonRpcResponse

def success (result : Value) (id : RequestId) : JsonRpcResponse where
  jsonrpc := "2.0"
  result := some result
  error := none
  id := id

/-- `JsonRpcResponse::from_error`. -/
def fromError (err : A2AError) (id : RequestId) : JsonRpcResponse where
  jsonrpc := "2.0"
  result := none
  error := some { code := err.code, message := err.display, data := none }
  id := id

/-- The response that the client reads. -/
def received (response : JsonRpcResponse) : JsonRpcResponse :=
  { response with result := response.result.filter fun result => !result.isNull }

/-- `JsonRpcResponse::parse_result`; `name` is the type that is read. -/
def parseResult {Message Task SpecStepRef StreamEvent α : Type}
    (serde : Serde Message Task SpecStepRef StreamEvent) (name : String) (read : Value → Option α)
    (response : JsonRpcResponse) : Except A2AError α :=
  match response.result with
  | some result =>
    match read result with
    | some result => .ok result
    | none => .error (.parseError (serde.complaint name result))
  | none =>
    match response.error with
    | some err => .error (.internalError err.message)
    | none => .error (.parseError "No result in response")

end JsonRpcResponse

/-- The result of `tasks/list`, which the server writes and the client reads. -/
@[ext]
structure ListResult (Task : Type) where
  tasks : List Task
  total : UInt64
  deriving DecidableEq

section ListResult

variable {Message Task SpecStepRef StreamEvent : Type}

def ListResult.toValue (serde : Serde Message Task SpecStepRef StreamEvent)
    (result : ListResult Task) : Value :=
  .object [("tasks", .array (result.tasks.map serde.ofTask)), ("total", ofUsize result.total)]

def ListResult.ofValue (serde : Serde Message Task SpecStepRef StreamEvent) (value : Value) :
    Option (ListResult Task) := do
  let field ← structFields ["tasks", "total"] value
  let items ← (field "tasks").bind Value.asArray
  let tasks ← items.mapM serde.toTask
  let total ← (field "total").bind toUsize
  some ⟨tasks, total⟩

variable {serde : Serde Message Task SpecStepRef StreamEvent}

theorem mapM_read {α : Type} {write : α → Value} {read : Value → Option α} (values : List α) :
    (values.map write).mapM read = some values ↔
      ∀ value ∈ values, read (write value) = some value := by
  induction values with
  | nil => simp
  | cons value values ih =>
    rw [List.map_cons, List.mapM_cons, List.forall_mem_cons, ← ih]
    cases read (write value) <;> cases (values.map write).mapM read <;> simp

theorem ListResult.ofValue_toValue (result : ListResult Task) :
    ListResult.ofValue serde (result.toValue serde) = some result ↔
      ∀ task ∈ result.tasks, serde.toTask (serde.ofTask task) = some task := by
  have hread : ListResult.ofValue serde (result.toValue serde) =
      ((result.tasks.map serde.ofTask).mapM serde.toTask).bind fun tasks =>
        (toUsize (ofUsize result.total)).bind fun total => some ⟨tasks, total⟩ := rfl
  rw [← mapM_read, hread, toUsize_ofUsize]
  cases (result.tasks.map serde.ofTask).mapM serde.toTask with
  | none => simp
  | some tasks => simp [ListResult.ext_iff]

end ListResult

namespace JsonRpcRequest

variable {Message Task SpecStepRef StreamEvent : Type}

/-- The parameters of a message; a step and a configuration that are none are left out. -/
def messageParams (serde : Serde Message Task SpecStepRef StreamEvent) (message : Message) :
    Value :=
  .object [("message", serde.ofMessage message)]

def sendMessage (serde : Serde Message Task SpecStepRef StreamEvent) (message : Message)
    (id : RequestId) : JsonRpcRequest :=
  new .sendMessage (some (messageParams serde message)) id

def sendStreamingMessage (serde : Serde Message Task SpecStepRef StreamEvent) (message : Message)
    (id : RequestId) : JsonRpcRequest :=
  new .sendStreamingMessage (some (messageParams serde message)) id

def taskParams (taskId : String) : Value := .object [("taskId", .string taskId)]

def getTask (taskId : String) (id : RequestId) : JsonRpcRequest :=
  new .getTask (some (taskParams taskId)) id

def cancelTask (taskId : String) (id : RequestId) : JsonRpcRequest :=
  new .cancelTask (some (taskParams taskId)) id

def listParams (contextId : Option String) (limit offset : Option UInt64) : Value :=
  .object ((contextId.map fun contextId => ("contextId", Value.string contextId)).toList ++
    (limit.map fun limit => ("limit", ofUsize limit)).toList ++
    (offset.map fun offset => ("offset", ofUsize offset)).toList)

def listTasks (contextId : Option String) (limit offset : Option UInt64) (id : RequestId) :
    JsonRpcRequest :=
  new .listTasks (some (listParams contextId limit offset)) id

def subscribeToTask (taskId : String) (id : RequestId) : JsonRpcRequest :=
  new .subscribeToTask (some (taskParams taskId)) id

theorem a2aMethod_new (method : A2AMethod) (params : Option Value) (id : RequestId) :
    (new method params id).a2aMethod = some method := method.fromStr_asStr

end JsonRpcRequest

section Reading

variable {Message Task SpecStepRef StreamEvent : Type}

theorem SendMessageParams.ofValue_messageParams
    (serde : Serde Message Task SpecStepRef StreamEvent) (message : Message) :
    SendMessageParams.ofValue serde (JsonRpcRequest.messageParams serde message) =
      (serde.toMessage (serde.ofMessage message)).map fun message => ⟨message, none⟩ := by
  have hread : SendMessageParams.ofValue serde (JsonRpcRequest.messageParams serde message) =
      (serde.toMessage (serde.ofMessage message)).bind fun message => some ⟨message, none⟩ := rfl
  rw [hread]
  cases serde.toMessage (serde.ofMessage message) <;> rfl

theorem GetTaskParams.ofValue_taskParams (taskId : String) :
    GetTaskParams.ofValue (JsonRpcRequest.taskParams taskId) = some ⟨taskId, none⟩ := rfl

theorem CancelTaskParams.ofValue_taskParams (taskId : String) :
    CancelTaskParams.ofValue (JsonRpcRequest.taskParams taskId) = some ⟨taskId⟩ := rfl

theorem optional_ofUsize (n : UInt64) : optional toUsize (some (ofUsize n)) = some (some n) := by
  have hread : optional toUsize (some (ofUsize n)) = (toUsize (ofUsize n)).map some := rfl
  rw [hread, toUsize_ofUsize, Option.map_some]

theorem ListTasksParams.ofValue_listParams (contextId : Option String)
    (limit offset : Option UInt64) :
    ListTasksParams.ofValue (JsonRpcRequest.listParams contextId limit offset) =
      some ⟨contextId, limit, offset⟩ := by
  have hread : ListTasksParams.ofValue (JsonRpcRequest.listParams contextId limit offset) =
      (optional Value.asStr (contextId.map Value.string)).bind fun contextId =>
        (optional toUsize (limit.map ofUsize)).bind fun limit =>
          (optional toUsize (offset.map ofUsize)).bind fun offset =>
            some ⟨contextId, limit, offset⟩ := by
    cases contextId <;> cases limit <;> cases offset <;> rfl
  have husize : ∀ n : Option UInt64, optional toUsize (n.map ofUsize) = some n := by
    intro n
    cases n with
    | none => rfl
    | some n => exact optional_ofUsize n
  have htext : optional Value.asStr (contextId.map Value.string) = some contextId := by
    cases contextId <;> rfl
  rw [hread, husize, husize, htext]
  rfl

end Reading

end ColossalCode.Rpc
