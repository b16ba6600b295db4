import ColossalCode.Protocol.Text

/-! The errors of the agent protocol, their codes and texts, and how an error is read back from its
text. The errors of serde and of reqwest are kept as the texts they print. -/
namespace ColossalCode.Rpc
open List Option

inductive A2AError where
  | parseError (message : String)
  | invalidRequest (message : String)
  | methodNotFound (message : String)
  | invalidParams (message : String)
  | internalError (message : String)
  | taskNotFound (message : String)
  | taskNotCancelable
  | pushNotificationNotSupported
  | unsupportedOperation (message : String)
  | contentTypeNotSupported (message : String)
  | invalidAgentCard (message : String)
  | versionNotSupported (message : String)
  | authenticationRequired
  | authorizationFailed (message : String)
  | connectionError (message : String)
  | timeout (message : String)
  | streamError (message : String)
  | serializationError (message : String)
  | httpError (message : String)
  | requestError (message : String)
  deriving DecidableEq, Repr

/-- `A2AError::code`. -/
def A2AError.code : A2AError → Int
  | .parseError _ => -32700
  | .invalidRequest _ => -32600
  | .methodNotFound _ => -32601
  | .invalidParams _ => -32602
  | .internalError _ => -32603
  | .taskNotFound _ => -32001
  | .taskNotCancelable => -32002
  | .pushNotificationNotSupported => -32003
  | .unsupportedOperation _ => -32004
  | .contentTypeNotSupported _ => -32005
  | .invalidAgentCard _ => -32006
  | .authenticationRequired => -32007
  | .authorizationFailed _ => -32008
  | .versionNotSupported _ => -32009
  | _ => -32000

/-- What an error's text starts with; for the errors that carry no message, the whole text. -/
def A2AError.lead : A2AError → String
  | .parseError _ => "Parse error: "
  | .invalidRequest _ => "Invalid request: "
  | .methodNotFound _ => "Method not found: "
  | .invalidParams _ => "Invalid params: "
  | .internalError _ => "Internal error: "
  | .taskNotFound _ => "Task not found: "
  | .taskNotCancelable => "Task not cancelable"
  | .pushNotificationNotSupported => "Push notification not supported"
  | .unsupportedOperation _ => "Unsupported operation: "
  | .contentTypeNotSupported _ => "Content type not supported: "
  | .invalidAgentCard _ => "Invalid agent card: "
  | .versionNotSupported _ => "Version not supported: "
  | .authenticationRequired => "Authentication required"
  | .authorizationFailed _ => "Authorization failed: "
  | .connectionError _ => "Connection error: "
  | .timeout _ => "Timeout: "
  | .streamError _ => "Stream error: "
  | .serializationError _ => "Serialization error: "
  | .httpError _ => "HTTP error: "
  | .requestError _ => "Request error: "

def A2AError.message : A2AError → String
  | .parseError message | .invalidRequest message | .methodNotFound message
  | .invalidParams message | .internalError message | .taskNotFound message
  | .unsupportedOperation message | .contentTypeNotSupported message
  | .invalidAgentCard message | .versionNotSupported message | .authorizationFailed message
  | .connectionError message | .timeout message | .streamError message
  | .serializationError message | .httpError message | .requestError message => message
  | .taskNotCancelable | .pushNotificationNotSupported | .authenticationRequired => ""

/-- `A2AError::to_string`. -/
def A2AError.display (error : A2AError) : String := error.lead ++ error.message

/-- The same kind of error with another message. -/
def A2AError.withMessage (message : String) : A2AError → A2AError
  | .parseError _ => .parseError message
  | .invalidRequest _ => .invalidRequest message
  | .methodNotFound _ => .methodNotFound message
  | .invalidParams _ => .invalidParams message
  | .internalError _ => .internalError message
  | .taskNotFound _ => .taskNotFound message
  | .taskNotCancelable => .taskNotCancelable
  | .pushNotificationNotSupported => .pushNotificationNotSupported
  | .unsupportedOperation _ => .unsupportedOperation message
  | .contentTypeNotSupported _ => .contentTypeNotSupported message
  | .invalidAgentCard _ => .invalidAgentCard message
  | .versionNotSupported _ => .versionNotSupported message
  | .authenticationRequired => .authenticationRequired
  | .authorizationFailed _ => .authorizationFailed message
  | .connectionError _ => .connectionError message
  | .timeout _ => .timeout message
  | .streamError _ => .streamError message
  | .serializationError _ => .serializationError message
  | .httpError _ => .httpError message
  | .requestError _ => .requestError message

/-- One error of each kind. -/
def A2AError.kinds : List A2AError :=
  [.parseError "", .invalidRequest "", .methodNotFound "", .invalidParams "", .internalError "",
    .taskNotFound "", .taskNotCancelable, .pushNotificationNotSupported, .unsupportedOperation "",
    .contentTypeNotSupported "", .invalidAgentCard "", .versionNotSupported "",
    .authenticationRequired, .authorizationFailed "", .connectionError "", .timeout "",
    .streamError "", .serializationError "", .httpError "", .requestError ""]

/-- What follows `lead` in a text that starts with it. -/
def afterLead : List Char → List Char → Option (List Char)
  | [], text => some text
  | c :: lead, d :: text => if c = d then afterLead lead text else none
  | _ :: _, [] => none

/-- The error of the first kind whose lead the text starts with. -/
def A2AError.ofDisplay (text : String) : Option A2AError :=
  kinds.findSome? fun kind =>
    (afterLead kind.lead.toList text.toList).map fun rest => kind.withMessage (String.ofList rest)

theorem afterLead_append (lead text : List Char) : afterLead lead (lead ++ text) = some text := by
  induction lead with
  | nil => rfl
  | cons c lead ih => rw [cons_append, afterLead, if_pos rfl, ih]

theorem afterLead_of_apart {lead lead' : List Char} (text : List Char)
    (h : (List.zip lead lead').any (fun pair => pair.1 ≠ pair.2) = true) :
    afterLead lead (lead' ++ text) = none := by
  induction lead generalizing lead' with
  | nil => cases h
  | cons c lead ih =>
    cases lead' with
    | nil => cases h
    | cons d lead' =>
      rw [cons_append, afterLead]
      by_cases hcd : c = d
      · rw [if_pos hcd]
        apply ih
        simpa [hcd] using h
      · exact if_neg hcd

/-- No lead starts another: two of them differ where both still run. -/
theorem leads_apart : A2AError.kinds.Pairwise fun kind other =>
    (List.zip kind.lead.toList other.lead.toList).any (fun pair => pair.1 ≠ pair.2) = true := by
  decide

theorem A2AError.withMessage_self (error : A2AError) : error.withMessage error.message = error := by
  cases error <;> rfl

theorem A2AError.exists_kind (error : A2AError) :
    ∃ kind ∈ A2AError.kinds, kind.lead = error.lead ∧
      ∀ message, kind.withMessage message = error.withMessage message := by
  refine ⟨error.withMessage "", ?_, ?_, ?_⟩
  all_goals cases error <;> simp [A2AError.withMessage, A2AError.lead, A2AError.kinds]

/-- The text of an error tells its kind and its message. -/
theorem A2AError.ofDisplay_display (error : A2AError) :
    A2AError.ofDisplay error.display = some error := by
  obtain ⟨kind, hkind, hlead, hmake⟩ := error.exists_kind
  obtain ⟨front, back, hkinds⟩ := append_of_mem hkind
  have hapart := leads_apart
  rw [hkinds, pairwise_append] at hapart
  have htext : error.display.toList = kind.lead.toList ++ error.message.toList := by
    rw [A2AError.display, String.toList_append, hlead]
  have hothers : front.findSome? (fun kind => (afterLead kind.lead.toList
      error.display.toList).map fun rest => kind.withMessage (String.ofList rest)) = none := by
    rw [findSome?_eq_none_iff]
    intro other hother
    have hdiffer := hapart.2.2 other hother kind mem_cons_self
    rw [htext, afterLead_of_apart _ hdiffer]
    rfl
  rw [A2AError.ofDisplay, hkinds, findSome?_append, hothers, none_or,
    findSome?_cons, htext, afterLead_append]
  simp only [map_some, String.ofList_toList, hmake, A2AError.withMessage_self]

end ColossalCode.Rpc
