import ColossalCode.Transition.Run

/-! The cancel flag of an agent and the messages that share it. A message resets the flag where
`process_message` begins, which is after its caller has submitted it. -/
namespace ColossalCode.Agent.CancelRequest
open List Option
open Transition

inductive Phase where
  /-- Submitted, but `process_message` has yet to begin. -/
  | queued
  | running
  | cancelled
  | done
  deriving DecidableEq

def Phase.live : Phase → Bool
  | .queued | .running => true
  | .cancelled | .done => false

structure Message where
  phase : Phase
  /-- `execute_step` has a cancel signal left to wait for. -/
  listens : Bool
  /-- `cancel_requested` of `execute_step`. -/
  cancelRequested : Bool
  /-- A cancel has been requested since the message was submitted. -/
  asked : Bool
  deriving DecidableEq

structure State where
  /-- `cancel_requested` of the agent. -/
  cancelRequested : Bool
  messages : List Message

inductive Action where
  /-- A message is handed to a task of its own, by `execute_step` if there is a signal for it. -/
  | submit (listens : Bool)
  | processMessage (i : Nat)
  | requestCancel
  /-- The signal for a step arrives. -/
  | signal (i : Nat)
  /-- `check_cancel!` -/
  | checkCancel (i : Nat)
  | finish (i : Nat)

def new : State := ⟨false, []⟩

def Message.hear (m : Message) : Message := { m with asked := m.asked || m.phase.live }

def State.requestCancel (s : State) : State := ⟨true, s.messages.map Message.hear⟩

def State.setPhase (s : State) (i : Nat) (m : Message) (phase : Phase) : State :=
  { s with messages := s.messages.set i { m with phase } }

def step (s : State) : Action → Option State
  | .submit listens =>
    some { s with messages := s.messages ++ [⟨.queued, listens, false, false⟩] }
  | .processMessage i =>
    match s.messages[i]? with
    | some m =>
      if m.phase = .queued then some { s.setPhase i m .running with cancelRequested := false }
      else none
    | none => none
  | .requestCancel => some s.requestCancel
  | .signal i =>
    match s.messages[i]? with
    | some m =>
      if m.listens && m.phase.live then
        some { s with
          messages := s.messages.set i { m with listens := false, cancelRequested := true }
        }.requestCancel
      else none
    | none => none
  | .checkCancel i =>
    match s.messages[i]? with
    | some m =>
      if m.phase = .running then some (if s.cancelRequested then s.setPhase i m .cancelled else s)
      else none
    | none => none
  | .finish i =>
    match s.messages[i]? with
    | some m => if m.phase = .running then some (s.setPhase i m .done) else none
    | none => none

/-- A running message that a cancel was requested of is stopped where it next checks. -/
def Heard (s : State) : Prop :=
  ∀ i m, s.messages[i]? = some m → m.phase = .running → m.asked = true →
    step s (.checkCancel i) = some (s.setPhase i m .cancelled)

/-- No cancel has been requested of a message that runs, or begins, when the flag is reset. -/
def Unasked (s : State) : Action → Prop
  | .processMessage i => (∀ m, s.messages[i]? = some m → m.asked = false) ∧
      ∀ m ∈ s.messages, m.phase = .running → m.asked = false
  | _ => True

variable {s t : State} {action : Action} {actions : List Action} {i : Nat} {m : Message}

theorem heard_iff :
    Heard s ↔ ∀ m ∈ s.messages, m.phase = .running → m.asked = true → s.cancelRequested = true := by
  constructor
  · intro h m hm hphase hasked
    obtain ⟨i, hget⟩ := mem_iff_getElem?.mp hm
    have hstopped := h i m hget hphase hasked
    by_contra hflag
    simp only [step, hget, hphase, if_true, if_neg hflag] at hstopped
    obtain ⟨hi, hm⟩ := List.getElem?_eq_some_iff.mp hget
    have hset : s.messages[i]? = (s.setPhase i m .cancelled).messages[i]? :=
      congrArg (fun s : State => s.messages[i]?) (some.inj hstopped)
    rw [State.setPhase, getElem?_set_self hi, hget] at hset
    rw [some.inj hset] at hphase
    cases hphase
  · intro h i m hget hphase hasked
    simp [step, hget, hphase, h m (mem_of_getElem? hget) hphase hasked]

theorem heard_of_flag (h : t.cancelRequested = true) : Heard t := heard_iff.mpr fun _ _ _ _ => h

/-- A message that is written over runs only if it ran before. -/
theorem Heard.setPhase (h : Heard s) (phase : Phase) (hphase : phase ≠ .running) :
    Heard (s.setPhase i m phase) := by
  rw [heard_iff] at h ⊢
  intro other hother hrunning hasked
  rcases mem_or_eq_of_mem_set hother with hother | rfl
  · exact h other hother hrunning hasked
  · exact absurd hrunning hphase

theorem heard_processMessage (hm : s.messages[i]? = some m) (hphase : m.phase = .queued) :
    Heard { s.setPhase i m .running with cancelRequested := false } ↔
      Unasked s (.processMessage i) := by
  rw [heard_iff]
  obtain ⟨hi, hget⟩ := List.getElem?_eq_some_iff.mp hm
  constructor
  · intro h
    refine ⟨fun m' hm' => ?_, fun other hother hrunning => ?_⟩
    · obtain rfl := some.inj (hm.symm.trans hm')
      have hset : { m with phase := .running } ∈ (s.setPhase i m .running).messages :=
        mem_set hi _
      exact Bool.eq_false_iff.mpr fun hasked => Bool.false_ne_true (h _ hset rfl hasked)
    · have hset : other ∈ (s.setPhase i m .running).messages := by
        obtain ⟨j, hj⟩ := mem_iff_getElem?.mp hother
        have hne : i ≠ j := by
          rintro rfl
          obtain rfl := some.inj (hm.symm.trans hj)
          rw [hphase] at hrunning
          cases hrunning
        exact mem_iff_getElem?.mpr ⟨j, (getElem?_set_ne hne).trans hj⟩
      exact Bool.eq_false_iff.mpr fun hasked => Bool.false_ne_true (h _ hset hrunning hasked)
  · rintro ⟨hown, hothers⟩ other hother hrunning hasked
    rcases mem_or_eq_of_mem_set hother with hother | rfl
    · exact absurd (hothers other hother hrunning) (by simp [hasked])
    · exact absurd (hown m hm) (by simpa using hasked)

theorem heard_step_iff (hs : step s action = some t) (h : Heard s) :
    Heard t ↔ Unasked s action := by
  cases action with
  | submit listens =>
    obtain rfl := some.inj hs
    refine iff_of_true (heard_iff.mpr ?_) trivial
    intro m hm hrunning
    rcases mem_append.mp hm with hm | hm
    · exact heard_iff.mp h m hm hrunning
    · obtain rfl := mem_singleton.mp hm
      cases hrunning
  | requestCancel =>
    obtain rfl := some.inj hs
    exact iff_of_true (heard_of_flag rfl) trivial
  | signal i =>
    simp only [step] at hs
    split at hs
    · split at hs
      · obtain rfl := some.inj hs
        exact iff_of_true (heard_of_flag rfl) trivial
      · cases hs
    · cases hs
  | processMessage i =>
    simp only [step] at hs
    split at hs
    · rename_i m hm
      split at hs
      · rename_i hphase
        obtain rfl := some.inj hs
        exact heard_processMessage hm hphase
      · cases hs
    · cases hs
  | checkCancel i =>
    simp only [step] at hs
    split at hs
    · split at hs
      · obtain rfl := some.inj hs
        refine iff_of_true ?_ trivial
        split
        · exact h.setPhase .cancelled (by decide)
        · exact h
      · cases hs
    · cases hs
  | finish i =>
    simp only [step] at hs
    split at hs
    · split at hs
      · obtain rfl := some.inj hs
        exact iff_of_true (h.setPhase .done (by decide)) trivial
      · cases hs
    · cases hs

theorem heard_new : Heard new := heard_iff.mpr fun _ hm => absurd hm not_mem_nil

end ColossalCode.Agent.CancelRequest
