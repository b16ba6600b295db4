import ColossalCode.Sessionizer.Policy
import ColossalCode.Transition.Run
import Mathlib.Logic.Function.Basic

/-! Calls that ask the user for approval. They share one slot, which holds the sender that the next
answer goes to. -/
namespace ColossalCode.Approval

open Sessionizer

/-- A call of `exec_command`, with what its agent and the shell make of the command. -/
structure CommandCall where
  agent : Nat
  command : String
  commandParts : List String
  isBackground : Bool
  isPty : Bool
  sandboxPolicy : SandboxPolicy
  askPermission : Bool

def CommandCall.safetyMode (call : CommandCall) : AskForApproval :=
  if call.askPermission then .onRequest else .never

def CommandCall.requestMsg (call : CommandCall) : String :=
  if call.isBackground then "Allow background command: " ++ call.command
  else "Allow command: " ++ call.command

/-- What the manager says to the command. -/
def CommandCall.clearance (call : CommandCall) (approval : AskForApproval) :
    Except ColossalErr SandboxType :=
  (assessCommandSafety call.commandParts approval call.sandboxPolicy [] call.isPty).clearance

inductive Outcome where
  | ran
  | failed (reason : String)
  | deniedByUser
  | channelClosed
  | dropped
  deriving DecidableEq, Repr

inductive Phase where
  | attempting (approval : AskForApproval)
  | stored
  | waiting
  | ended (outcome : Outcome)
  deriving DecidableEq, Repr

/-- `channel` has the answer sent to a call. An answer on its way is a `Bool` only: the request it
was given to, and the lists of what was displayed and answered, are kept for the account. -/
structure State (κ : Type) where
  phase : κ → Phase
  pendingApproval : Option κ
  channel : κ → Option Bool
  messages : List κ
  approvalPrompt : Option κ
  responses : List (κ × Bool)
  displayed : List κ
  answered : List (κ × Bool)

variable {κ : Type} [DecidableEq κ]

def State.setPhase (s : State κ) (c : κ) (phase : Phase) : State κ :=
  { s with phase := Function.update s.phase c phase }

@[simp] theorem State.setPhase_self (s : State κ) (c : κ) (phase : Phase) :
    (s.setPhase c phase).phase c = phase := Function.update_self _ _ _

theorem State.setPhase_of_ne (s : State κ) {c d : κ} (phase : Phase) (h : d ≠ c) :
    (s.setPhase c phase).phase d = s.phase d := Function.update_of_ne h _ _

/-- The receiver of the call is there. -/
def Phase.listens : Phase → Bool
  | .stored => true
  | .waiting => true
  | _ => false

inductive Action (κ : Type) where
  | attempt (c : κ)
  | request (c : κ)
  | receive (c : κ)
  | drop (c : κ)
  | display (c : κ)
  | hide
  | answer (approved : Bool)
  | respond

section Step

variable (calls : κ → CommandCall) (displays : Nat → Bool)

/-- The command runs, or it is denied and the sender goes to the slot; the sender that is there is
dropped. -/
def attempt (s : State κ) (c : κ) (approval : AskForApproval) : State κ :=
  match (calls c).clearance approval with
  | .ok _ => s.setPhase c (.ended .ran)
  | .error (.denied _ reason) =>
    if reason = "User approval required" then
      { s.setPhase c .stored with pendingApproval := some c }
    else s.setPhase c (.ended (.failed reason))
  | .error (.io message) => s.setPhase c (.ended (.failed message))
  | .error .missingSandboxHelper => s.setPhase c (.ended (.failed "missing sandbox helper"))

/-- An answer that has come, or the end of the sender. -/
def receive (s : State κ) (c : κ) : Option (State κ) :=
  match s.channel c with
  | some true => some (s.setPhase c (.attempting .never))
  | some false => some (s.setPhase c (.ended .deniedByUser))
  | none =>
    if s.pendingApproval = some c then none else some (s.setPhase c (.ended .channelClosed))

/-- The messages of one agent come in order; those of some agents are not displayed. -/
def display (s : State κ) (c : κ) : Option (State κ) :=
  if s.messages.find? (fun d => (calls d).agent == (calls c).agent) = some c then
    let rest := s.messages.erase c
    if displays (calls c).agent then
      some { s with messages := rest, approvalPrompt := some c, displayed := s.displayed ++ [c] }
    else some { s with messages := rest }
  else none

def handleApprovalResponse (s : State κ) (approved : Bool) : State κ :=
  match s.pendingApproval with
  | none => s
  | some c =>
    if (s.phase c).listens then
      { s with pendingApproval := none, channel := Function.update s.channel c (some approved) }
    else { s with pendingApproval := none }

def step (s : State κ) : Action κ → Option (State κ)
  | .attempt c =>
    match s.phase c with
    | .attempting approval => some (attempt calls s c approval)
    | _ => none
  | .request c =>
    if s.phase c = .stored then some { s.setPhase c .waiting with messages := s.messages ++ [c] }
    else none
  | .receive c => if s.phase c = .waiting then receive s c else none
  | .drop c =>
    match s.phase c with
    | .ended _ => none
    | _ => some (s.setPhase c (.ended .dropped))
  | .display c => display calls displays s c
  | .hide => some { s with approvalPrompt := none }
  | .answer approved =>
    match s.approvalPrompt with
    | some c => some { s with
        approvalPrompt := none
        responses := s.responses ++ [(c, approved)]
        answered := s.answered ++ [(c, approved)] }
    | none => none
  | .respond =>
    match s.responses with
    | (_, approved) :: rest => some { handleApprovalResponse s approved with responses := rest }
    | [] => none

def init : State κ where
  phase c := .attempting (calls c).safetyMode
  pendingApproval := none
  channel _ := none
  messages := []
  approvalPrompt := none
  responses := []
  displayed := []
  answered := []

/-- The call waits for an answer that has not come. -/
def Pending (s : State κ) (c : κ) : Prop := (s.phase c).listens = true ∧ s.channel c = none

/-- A call that ran after asking was displayed and approved, an answer goes to the call it was given
to, and a call that waits has its sender in the slot. -/
structure Faithful (s : State κ) : Prop where
  ran : ∀ c, (calls c).askPermission = true → s.phase c = .ended .ran →
    c ∈ s.displayed ∧ (c, true) ∈ s.answered
  released : ∀ c approved, s.channel c = some approved → (c, approved) ∈ s.answered
  waits : ∀ c, Pending s c → s.pendingApproval = some c

/-- Every answer on its way may arrive next. -/
def Sound (s : State κ) : Prop :=
  Faithful calls s ∧ ∀ t, step calls displays s .respond = some t → Faithful calls t

/-- A call asks while no other waits and no answer is on its way; a first answer is given while no
call waits but the one displayed. -/
def Orderly (s : State κ) : Action κ → Prop
  | .attempt c => s.phase c = .attempting .onRequest → (calls c).commandParts ≠ [] →
    (∀ d, ¬ Pending s d) ∧ s.responses = []
  | .answer _ => s.responses = [] → ∀ d, Pending s d → s.approvalPrompt = some d
  | _ => True

end Step

end ColossalCode.Approval
