import ColossalCode.Ui.Rows

/-! The five vectors of the transcript, what is saved of them, and what is read back. -/
namespace ColossalCode.Conversation
open List Option

open Ui (MessageType thinkingAnimation)

inductive MessageState where
  | sent
  | queued
  | interrupted
  deriving DecidableEq

/-- The messages, and beside them their types, states, metadata and timestamps. -/
@[ext] structure Vectors (Meta : Type*) where
  messages : List String
  types : List MessageType
  states : List MessageState
  metadata : List (Option Meta)
  timestamps : List Nat
  deriving DecidableEq

structure SavedUIMessage (Meta : Type*) where
  content : String
  messageType : MessageType
  messageState : MessageState
  timestamp : Nat
  metadata : Option Meta
  deriving DecidableEq

/-- A vector is filled up and cut to a length. -/
def fit {α : Type*} (length : Nat) (filler : α) (xs : List α) : List α :=
  (xs ++ List.replicate (length - xs.length) filler).take length

namespace Vectors

variable {Meta : Type*}

def empty : Vectors Meta := ⟨[], [], [], [], []⟩

/-- `reconcile_message_vectors` -/
def reconcile (v : Vectors Meta) (now : Nat) : Vectors Meta :=
  let length := v.messages.length
  { v with
    types := fit length .user v.types
    states := fit length .sent v.states
    metadata := fit length none v.metadata
    timestamps := fit length now v.timestamps }

/-- A notice of the interface has a type and a state. -/
def pushAgent (v : Vectors Meta) (text : String) : Vectors Meta :=
  { v with
    messages := v.messages ++ [text]
    types := v.types ++ [.agent]
    states := v.states ++ [.sent] }

/-- What is submitted is shown with the animation, neither of them with a state. -/
def submit (v : Vectors Meta) (text : String) : Vectors Meta :=
  { v with
    messages := v.messages ++ [text, thinkingAnimation]
    types := v.types ++ [.user, .agent] }

/-- The command and its confirmation stay; metadata and timestamps are not cleared. -/
def clear (v : Vectors Meta) (command : String) : Vectors Meta :=
  { v with
    messages := [command, Ui.commandEvent "Conversation history cleared"]
    types := [.user, .agent]
    states := [.sent, .sent] }

/-- The message at an index as it is saved, with defaults for what is missing. -/
def uiMessage (v : Vectors Meta) (now : Nat) (i : Nat) (content : String) : SavedUIMessage Meta where
  content
  messageType := v.types[i]?.getD .user
  messageState := v.states[i]?.getD .sent
  timestamp := v.timestamps[i]?.getD now
  metadata := v.metadata[i]?.getD none

def uiMessages (v : Vectors Meta) (now : Nat) : List (SavedUIMessage Meta) :=
  v.messages.mapIdx (v.uiMessage now)

/-- The first message of the user, as far as it is shown in the list. -/
def preview (v : Vectors Meta) : String :=
  match (v.messages.zipIdx.find? fun (_, i) => v.types[i]? == some .user) with
  | some (content, _) => String.ofList (content.toList.take 100)
  | none => "No preview available"

/-- The transcript that is read from a file. -/
def ofMessages (messages : List (SavedUIMessage Meta)) : Vectors Meta where
  messages := messages.map (·.content)
  types := messages.map (·.messageType)
  states := messages.map (·.messageState)
  metadata := messages.map (·.metadata)
  timestamps := messages.map (·.timestamp)

/-- Each message has its type, its state, its metadata and its timestamp. -/
structure Level (v : Vectors Meta) : Prop where
  types : v.types.length = v.messages.length
  states : v.states.length = v.messages.length
  metadata : v.metadata.length = v.messages.length
  timestamps : v.timestamps.length = v.messages.length

theorem length_fit {α : Type*} (length : Nat) (filler : α) (xs : List α) :
    (fit length filler xs).length = length := by
  simp only [fit, length_take, length_append, length_replicate]
  omega

theorem level_reconcile (v : Vectors Meta) (now : Nat) : (v.reconcile now).Level :=
  ⟨length_fit _ _ _, length_fit _ _ _, length_fit _ _ _, length_fit _ _ _⟩

/-- A list that is read off another one, place by place. -/
theorem map_mapIdx_eq {α β γ : Type*} {f : β → γ} {g : Nat → α → β} {ys : List α} {xs : List γ}
    (hlength : xs.length = ys.length)
    (h : ∀ i (hi : i < ys.length) (hi' : i < xs.length), f (g i ys[i]) = xs[i]) :
    (ys.mapIdx g).map f = xs := by
  apply ext_getElem
  · rw [length_map, length_mapIdx, hlength]
  · intro i hi hi'
    rw [getElem_map, getElem_mapIdx]
    exact h i (hlength ▸ hi') hi'

/-- A transcript that is level is read back as it was saved. -/
theorem ofMessages_uiMessages {v : Vectors Meta} (h : v.Level) (now : Nat) :
    ofMessages (v.uiMessages now) = v := by
  ext1
  · exact map_mapIdx_eq rfl fun _ _ _ => rfl
  · refine map_mapIdx_eq h.types fun i _ hi => ?_
    simp only [uiMessage, List.getElem?_eq_getElem hi, getD_some]
  · refine map_mapIdx_eq h.states fun i _ hi => ?_
    simp only [uiMessage, List.getElem?_eq_getElem hi, getD_some]
  · refine map_mapIdx_eq h.metadata fun i _ hi => ?_
    simp only [uiMessage, List.getElem?_eq_getElem hi, getD_some]
  · refine map_mapIdx_eq h.timestamps fun i _ hi => ?_
    simp only [uiMessage, List.getElem?_eq_getElem hi, getD_some]

end Vectors

end ColossalCode.Conversation
