import ColossalCode.Orchestrator.Frames

/-! The calls of control methods in progress and the commands they send: what a call has still to
do tells what the run can read, has been signalled or will take from its queue. -/
namespace ColossalCode.Orchestrator
open List ControlMethod

open Protocol

/-- The calls after which a paused run goes on. -/
def ControlMethod.resumes : ControlMethod → Bool
  | .resume | .resumeStep .. => true
  | _ => false

variable {rt : Runtime} {c d : Core} {sh sh' : Shared} {method : ControlMethod}
  {command : OrchestratorCommand}

/-- What a call does next because of what it read. -/
def Shared.opsAfter (sh : Shared) : ControlOp → List ControlOp
  | .matchPrefix p => if sh.sharedPrefix = some p then [.readCancel] else []
  | .readCancel => (sh.sharedCancel.map .signal).toList
  | _ => []

/-- A call in progress was so before, or starts, or has done its next operation. -/
theorem controls_call {call : Call} (hc : sh.Controls sh') (hcall : call ∈ sh'.calls) :
    call ∈ sh.calls ∨ call.ops = call.method.ops ∨
      ∃ op rest, ⟨call.method, op :: rest⟩ ∈ sh.calls ∧ call.ops = sh.opsAfter op ++ rest ∧
        (∀ command, op = .send command → sh'.commands = sh.commands ++ [command]) ∧
        ∀ channel, op = .signal channel → channel ∈ sh'.signals := by
  cases hc with
  | call method =>
    rcases mem_append.mp hcall with hcall | hcall
    · exact .inl hcall
    · obtain rfl := mem_singleton.mp hcall
      exact .inr (.inl rfl)
  | returned _ => exact .inl (mem_of_mem_eraseIdx hcall)
  | @matchPrefix i method rest p hi =>
    rcases mem_or_eq_of_mem_set hcall with hcall | rfl
    · exact .inl hcall
    · refine .inr (.inr ⟨_, _, mem_of_getElem? hi, ?_, by simp, by simp⟩)
      by_cases hp : sh.sharedPrefix = some p <;> simp [Shared.opsAfter, hp]
  | storePaused hi | storeAborted hi | readCancel hi | signal hi | send hi =>
    rcases mem_or_eq_of_mem_set hcall with hcall | rfl
    · exact .inl hcall
    · exact .inr (.inr ⟨_, _, mem_of_getElem? hi, rfl, by simp, by simp⟩)

/-- The operations of a call are those of its method, or lead to a cancel signal. -/
def Shared.Formed (sh : Shared) : Prop :=
  ∀ call ∈ sh.calls, ∀ op ∈ call.ops,
    op ∈ call.method.ops ∨ op = .readCancel ∨ ∃ channel, op = .signal channel

theorem formed_controls (hc : sh.Controls sh') (hs : sh.Formed) : sh'.Formed := by
  intro call hcall op hop
  rcases controls_call hc hcall with hcall | hnew | ⟨done, rest, hcall, hops, -, -⟩
  · exact hs call hcall op hop
  · exact .inl (hnew ▸ hop)
  · rw [hops] at hop
    rcases mem_append.mp hop with hop | hop
    · cases done <;> simp [Shared.opsAfter] at hop
      · exact .inr (.inl hop.2)
      · obtain ⟨channel, -, rfl⟩ := hop
        exact .inr (.inr ⟨channel, rfl⟩)
    · exact hs _ hcall op (mem_cons_of_mem _ hop)

/-- Each call of `method` has still to send `command`, or `P` holds. -/
def Shared.Sends (sh : Shared) (method : ControlMethod) (command : OrchestratorCommand)
    (P : Prop) : Prop :=
  ∀ call ∈ sh.calls, call.method = method → .send command ∈ call.ops ∨ P

theorem sends_controls {P : Prop} (hc : sh.Controls sh') (hnew : .send command ∈ method.ops)
    (hs : sh.Sends method command P) :
    sh'.Sends method command (P ∨ sh'.commands = sh.commands ++ [command]) := by
  intro call hcall hmethod
  rcases controls_call hc hcall with hcall | hops | ⟨op, rest, hcall, hops, hsend, -⟩
  · exact (hs call hcall hmethod).imp_right .inl
  · exact .inl (by rw [hops, hmethod]; exact hnew)
  · rcases hs _ hcall hmethod with hmem | hP
    · rcases mem_cons.mp hmem with rfl | hmem
      · exact .inr (.inr (hsend _ rfl))
      · exact .inl (by rw [hops]; exact mem_append_right _ hmem)
    · exact .inr (.inl hP)

/-- The commands that a run has taken from the channel or has still to take, oldest first. -/
def Core.queue (c : Core) : List OrchestratorCommand := c.pc.commands ++ c.shared.commands

/-- The paused flag after a command. -/
def heed : Bool → OrchestratorCommand → Bool
  | _, .pause => true
  | _, .resume | _, .resumeStep .. => false
  | paused, _ => paused

theorem heed_mono (q : List OrchestratorCommand) {b : Bool} (h : q.foldl heed b = true) :
    q.foldl heed true = true := by
  induction q generalizing b with
  | nil => rfl
  | cons command q ih =>
    cases command with
    | pause | resume | resumeStep => exact h
    | _ => exact ih h

theorem pause_mem_of_heed {q : List OrchestratorCommand} (h : q.foldl heed false = true) :
    .pause ∈ q := by
  induction q with
  | nil => simp at h
  | cons command q ih => cases command <;> simp_all [heed]

/-- From a control point where a step is about to be started. -/
def Pc.starting : Pc → Bool
  | .setPrefix _ | .setCancel .. | .cancelCheck .. => true
  | _ => false

/-- The run stays paused when the commands on their way are taken, and no step is started before
`Pause` is. -/
structure Core.Pausing (c : Core) : Prop where
  heeded : c.queue.foldl heed c.shared.paused = true
  starting : c.pc.starting = true → .pause ∈ c.shared.commands

def Core.Finished (c : Core) : Prop := ∃ result held, c.pc = .finished result held

/-- An operation that sets the paused flag to true at most, or sends a command that does. -/
def ControlOp.KeepsPaused : ControlOp → Prop
  | .storePaused b => b = true
  | .send command => heed true command = true
  | _ => True

theorem ops_keepsPaused (hmethod : method.resumes = false) : ∀ op ∈ method.ops, op.KeepsPaused := by
  cases method with
  | resume | resumeStep => simp [resumes] at hmethod
  | _ => simp [ops, ControlOp.KeepsPaused, heed]

theorem op_keepsPaused {i : ℕ} {op : ControlOp} {rest : List ControlOp} (hformed : sh.Formed)
    (hcalls : ∀ call ∈ sh.calls, call.method.resumes = false)
    (hcall : sh.calls[i]? = some ⟨method, op :: rest⟩) : op.KeepsPaused := by
  have hmem := mem_of_getElem? hcall
  rcases hformed _ hmem op mem_cons_self with hop | rfl | ⟨channel, rfl⟩
  · exact ops_keepsPaused (hcalls _ hmem) op hop
  · trivial
  · trivial

section Moves

attribute [local simp] Core.goto Core.queue Pc.commands heed Pc.starting

/-- Without a call that resumes, the run stays paused. -/
theorem pausing_move (hm : Move rt c d) (hformed : c.shared.Formed)
    (hcalls : ∀ call ∈ c.shared.calls, call.method.resumes = false) (hc : c.Pausing) :
    d.Pausing ∨ d.Finished := by
  obtain ⟨hheeded, hstarting⟩ := hc
  cases hm with
  | stutter => exact .inl ⟨hheeded, hstarting⟩
  | control hcontrols =>
    refine .inl ?_
    cases hcontrols with
    | storePaused hcall =>
      obtain rfl := op_keepsPaused hformed hcalls hcall
      exact ⟨heed_mono _ hheeded, hstarting⟩
    | send hcall =>
      have hkeeps : heed true _ = true := op_keepsPaused hformed hcalls hcall
      refine ⟨?_, fun hpc => mem_append_left _ (hstarting hpc)⟩
      simp only [Core.queue] at hheeded
      simp only [Core.queue, ← append_assoc, foldl_append, foldl_cons,
        foldl_nil] at hheeded ⊢
      rw [hheeded, hkeeps]
    | _ => exact ⟨hheeded, hstarting⟩
  | complete | abort | fail => exact .inr ⟨_, _, rfl⟩
  | @ignore site command rest reply shared hpc htakes hresume =>
    refine .inl ⟨?_, by simp⟩
    cases htakes with
    | rerunNone => simpa [hpc] using hheeded
    | resumeOther p message =>
      -- the flag may have been set since the command was sent
      have hrest : (rest ++ c.shared.commands).foldl heed false = true := by
        simpa [hpc] using hheeded
      cases hpaused : c.shared.paused with
      | false => simpa [hpaused] using hrest
      | true => simpa [hpaused] using heed_mono _ hrest
    | cancelStep p =>
      obtain ⟨currentCancel, sharedCancel, signals, heq⟩ := c.shared.cancel_eq p
      simpa [hpc, heq] using hheeded
    | pause | resume | resumeNone => simpa [hpc] using hheeded
  | start hpc hpaused =>
    have hmem := pause_mem_of_heed (q := c.shared.commands) (by simpa [hpc, hpaused] using hheeded)
    exact .inl ⟨by simpa [hpc] using hheeded, fun _ => hmem⟩
  | parked hpc => exact .inl ⟨by simpa [hpc] using heed_mono _ hheeded, by simp⟩
  | setPrefix hpc | setCancel hpc =>
    exact .inl ⟨by simpa [hpc] using hheeded, fun _ => hstarting (by simp [hpc])⟩
  | receive hpc hcommands => exact .inl ⟨by simpa [hpc, hcommands] using hheeded, by simp⟩
  | cancelBefore hpc | clearCancel hpc | cleared hpc | clearedParked hpc | cancelAfter hpc
  | resume hpc =>
    exact .inl ⟨by simpa [hpc] using hheeded, by simp⟩
  | executed task hpc | reportFailed message hpc | _ hpc =>
    exact .inl ⟨by simpa [hpc] using hheeded, by simp⟩

/-- An `Abort` on its way stays there until it is taken. -/
theorem queue_move (hm : Move rt c d) (hc : .abort ∈ c.queue) : .abort ∈ d.queue ∨ d.Finished := by
  cases hm with
  | stutter => exact .inl hc
  | control hcontrols =>
    refine .inl ?_
    cases hcontrols with
    | send hcall => simpa using mem_append_left [_] hc
    | _ => exact hc
  | complete | abort | fail => exact .inr ⟨_, _, rfl⟩
  | receive hpc hcommands => exact .inl (by simpa [hpc, hcommands] using hc)
  | ignore hpc htakes =>
    refine .inl ?_
    cases htakes with
    | cancelStep p =>
      obtain ⟨currentCancel, sharedCancel, signals, heq⟩ := c.shared.cancel_eq p
      simpa [hpc, heq] using hc
    | _ => simpa [hpc] using hc
  | executed task hpc | reportFailed message hpc | _ hpc =>
    exact .inl (by simpa [hpc] using hc)

/-- The cancel channel of a step that is or is about to be executed can be read. -/
def Core.Published (c : Core) : Prop :=
  ∀ a channel, c.pc = .cancelCheck a channel ∨ c.pc = .executing a channel →
    c.shared.sharedCancel = some channel

theorem published_move (hm : Move rt c d) (hc : c.Published) : d.Published := by
  cases hm with
  | stutter => exact hc
  | control hcontrols => cases hcontrols <;> exact hc
  | setCancel hpc => simp [Core.Published]
  | execute hpc =>
    intro a channel h
    simp only [Core.goto, reduceCtorEq, false_or, Pc.executing.injEq] at h
    obtain ⟨rfl, rfl⟩ := h
    exact hc _ _ (.inl hpc)
  | _ => simp [Core.Published]

theorem executing_move (hm : Move rt c d) {a : Active} {channel : ℕ}
    (hd : d.pc = .executing a channel) : c.pc = .executing a channel ∨
      (c.pc = .cancelCheck a channel ∧ c.shared.cancelPrefix ≠ some a.currentPrefix) := by
  cases hm with
  | stutter => exact .inl hd
  | control => exact .inl hd
  | execute hpc hcancel =>
    simp only [Core.goto, Pc.executing.injEq] at hd
    obtain ⟨rfl, rfl⟩ := hd
    exact .inr ⟨hpc, hcancel⟩
  | _ => simp at hd

theorem signals_move (hm : Move rt c d) : c.shared.signals ⊆ d.shared.signals := by
  cases hm with
  | control hcontrols => cases hcontrols <;> simp
  | ignore hpc htakes =>
    cases htakes with
    | cancelStep p =>
      obtain ⟨currentCancel, sharedCancel, signals, heq⟩ := c.shared.cancel_eq p
      simp [heq]
    | _ => simp
  | _ => simp

/-- Only the calls themselves go on. -/
theorem calls_move (hm : Move rt c d) : d.shared.calls = c.shared.calls ∨
    ∃ shared, c.shared.Controls shared ∧ d = { c with shared } := by
  cases hm with
  | control hcontrols => exact .inr ⟨_, hcontrols, rfl⟩
  | ignore hpc htakes =>
    cases htakes with
    | cancelStep p =>
      obtain ⟨currentCancel, sharedCancel, signals, heq⟩ := c.shared.cancel_eq p
      simp [heq]
    | _ => exact .inl rfl
  | _ => exact .inl rfl

/-- What is known of the calls of `abort` and `pause`, from what they have still to do. -/
structure Core.Heard (c : Core) : Prop where
  formed : c.shared.Formed
  published : c.Published
  sent : c.shared.Sends .abort .abort (.abort ∈ c.queue ∨ c.Finished)
  signalled : ∀ call ∈ c.shared.calls, call.method = .abort →
    ∀ a channel, c.pc = .executing a channel →
      .readCancel ∈ call.ops ∨ .signal channel ∈ call.ops ∨ channel ∈ c.shared.signals
  paused : c.shared.Sends .pause .pause (c.Pausing ∨ c.Finished)

theorem heard_control (rt : Runtime) (hcontrols : c.shared.Controls sh)
    (hoverlap : ∀ call ∈ c.shared.calls, call.method = .pause →
      ∀ other ∈ c.shared.calls, other.method.resumes = false)
    (hc : c.Heard) : Core.Heard { c with shared := sh } := by
  have hm : Move rt c { c with shared := sh } := .control hcontrols
  refine ⟨formed_controls hcontrols hc.formed, published_move hm hc.published, ?_, ?_, ?_⟩
  · intro call hcall hmethod
    rcases sends_controls hcontrols (by simp [ops]) hc.sent call hcall hmethod
      with hsend | (hqueue | hfinished) | hcommands
    · exact .inl hsend
    · exact .inr (queue_move hm hqueue)
    · exact .inr (.inr hfinished)
    · exact .inr (.inl (by simp [hcommands]))
  · intro call hcall hmethod a channel hpc
    rcases controls_call hcontrols hcall with hcall | hops | ⟨op, rest, hcall, hops, -, hsignal⟩
    · exact (hc.signalled call hcall hmethod a channel hpc).imp_right
        (Or.imp_right fun h => signals_move hm h)
    · exact .inl (by simp [hops, hmethod, ops])
    · have hpublished := hc.published a channel (.inr hpc)
      rcases hc.signalled _ hcall hmethod a channel hpc with hread | hsend | hsent
      · rcases mem_cons.mp hread with rfl | hread
        · exact .inr (.inl (by simp [hops, Shared.opsAfter, hpublished]))
        · exact .inl (by simp [hops, hread])
      · rcases mem_cons.mp hsend with rfl | hsend
        · exact .inr (.inr (hsignal channel rfl))
        · exact .inr (.inl (by simp [hops, hsend]))
      · exact .inr (.inr (signals_move hm hsent))
  · intro call hcall hmethod
    have hkeep (hno : ∀ other ∈ c.shared.calls, other.method.resumes = false) :
        .send .pause ∈ call.ops ∨
          Core.Pausing { c with shared := sh } ∨ Core.Finished { c with shared := sh } := by
      rcases sends_controls hcontrols (by simp [ops]) hc.paused call hcall hmethod
        with hsend | (hpausing | hfinished) | hcommands
      · exact .inl hsend
      · exact .inr (pausing_move hm hc.formed hno hpausing)
      · exact .inr (.inr hfinished)
      · refine .inr (.inl ⟨?_, fun _ => by simp [hcommands]⟩)
        simp [hcommands, foldl_append]
    rcases controls_call hcontrols hcall with hmem | hops | ⟨op, rest, hmem, -⟩
    · exact hkeep (hoverlap _ hmem hmethod)
    · exact .inl (by simp [hops, hmethod, ops])
    · exact hkeep (hoverlap _ hmem hmethod)

theorem heard_move (hm : Move rt c d)
    (hstart : ∀ a channel, c.pc = .cancelCheck a channel → d.pc = .executing a channel →
      ∀ call ∈ c.shared.calls, call.method = .abort →
        .readCancel ∈ call.ops ∨ .signal channel ∈ call.ops ∨ channel ∈ c.shared.signals)
    (hoverlap : ∀ call ∈ c.shared.calls, call.method = .pause →
      ∀ other ∈ c.shared.calls, other.method.resumes = false)
    (hc : c.Heard) : d.Heard := by
  rcases calls_move hm with hcalls | ⟨shared, hcontrols, rfl⟩
  · refine ⟨?_, published_move hm hc.published, ?_, ?_, ?_⟩
    · unfold Shared.Formed
      rw [hcalls]
      exact hc.formed
    · intro call hcall hmethod
      rw [hcalls] at hcall
      rcases hc.sent call hcall hmethod with hsend | hqueue | ⟨result, held, hpc⟩
      · exact .inl hsend
      · exact .inr (queue_move hm hqueue)
      · obtain ⟨shared, rfl⟩ := hm.of_finished hpc
        exact .inr (.inr ⟨result, held, hpc⟩)
    · intro call hcall hmethod a channel hpc
      rw [hcalls] at hcall
      have hsignals : .readCancel ∈ call.ops ∨ .signal channel ∈ call.ops ∨
          channel ∈ c.shared.signals := by
        rcases executing_move hm hpc with hexecuting | ⟨hcheck, -⟩
        · exact hc.signalled call hcall hmethod a channel hexecuting
        · exact hstart a channel hcheck hpc call hcall hmethod
      exact hsignals.imp_right (Or.imp_right fun h => signals_move hm h)
    · intro call hcall hmethod
      rw [hcalls] at hcall
      rcases hc.paused call hcall hmethod with hsend | hpausing | ⟨result, held, hpc⟩
      · exact .inl hsend
      · exact .inr (pausing_move hm hc.formed (hoverlap call hcall hmethod) hpausing)
      · obtain ⟨shared, rfl⟩ := hm.of_finished hpc
        exact .inr (.inr ⟨result, held, hpc⟩)
  · exact heard_control rt hcontrols hoverlap hc
end Moves

end ColossalCode.Orchestrator
