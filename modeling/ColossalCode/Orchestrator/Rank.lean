import ColossalCode.Orchestrator.Frames

/-! How long a run goes on with an `Abort` on its way: each step of its own brings it closer to
draining its commands, and then to taking the `Abort`. -/
namespace ColossalCode.Orchestrator
open List Option State

open Protocol

def OrchestratorCommand.isAbort : OrchestratorCommand → Bool
  | .abort => true
  | _ => false

def Next.rank : Next → ℕ
  | .loopHead => 25
  | .push .. => 26
  | .settle .. => 30
  | .setPrefix _ => 32
  | .verifying .. => 37
  | .summarizing .. => 42

/-- An upper bound of the steps that a run takes until it drains its commands, or, with an `Abort`
among those it has drained, until it takes it. -/
def Pc.rank : Pc → ℕ
  | .receive _ received => 8 * received.length + if received.any (·.isAbort) then 46 else 0
  | .loopHead => 25
  | .push .. | .park _ => 26
  | .clearPrefix .. => 27
  | .clearCancel .. => 28
  | .executing .. => 29
  | .settle .. | .cancelCheck .. => 30
  | .setCancel .. => 31
  | .setPrefix _ => 32
  | .pausedCheck _ => 36
  | .verifying .. => 37
  | .summarizing .. => 42
  | .perform todo next => todo.length + 1 + next.rank
  | .handle _ rest => 45 + 8 * rest.length
  | .reporting todo _ rest _ => todo.length + 46 + 8 * rest.length
  | .rerunning _ rest _ => 51 + 8 * rest.length
  | .finished .. => 0

/-- An upper bound of the steps that a run takes until it has taken an `Abort` on its way. -/
def State.rank (s : State) : ℕ :=
  9 * s.commands.length + (if s.pc.commands.any (·.isAbort) then 0 else 64) + s.pc.rank

variable {rt : Runtime} {s t : State} {action : Action} {command : OrchestratorCommand}

/-- From `s` to `t` no command was touched, and at most `n` steps are left to the next drain. -/
structure State.Drains (s t : State) (n : ℕ) : Prop where
  commands : t.commands = s.commands
  none_taken : t.pc.commands = []
  rank_le : t.pc.rank ≤ n

@[simp] theorem Next.pc_rank (next : Next) : next.pc.rank = next.rank := by cases next <;> rfl

section Rank

variable {a : Active} {task : Task}

attribute [local simp] goto State.finish output State.done storePending Pc.rank
  Next.rank Pc.commands passReports rejectReports announce

theorem verify_drains (summary : TaskSummary) : s.Drains (s.verify rt a task summary) 41 := by
  unfold verify
  split <;> constructor <;> simp

theorem finishTask_drains : s.Drains (s.finishTask rt a task) 44 := by
  unfold finishTask
  split
  · constructor <;> simp
  · rename_i summary _
    split
    · constructor <;> simp
    · have hdrains : s.Drains (s.verify rt a task summary) 41 := verify_drains summary
      obtain ⟨hcommands, hnone, hrank⟩ := hdrains
      exact ⟨hcommands, hnone, hrank.trans (by simp)⟩

theorem decideTask_drains : s.Drains (s.decideTask rt a task) 44 := by
  unfold decideTask
  split
  · constructor <;> simp
  · split
    · constructor <;> simp
    · split
      · constructor <;> simp
      · exact finishTask_drains
      · constructor <;> simp
    · constructor <;> simp [failStep]
    · exact finishTask_drains

theorem summarized_drains (a : Active) (task : Task) (context : VerificationContext)
    (result : Except String Task) : s.Drains (s.summarized rt a task context result) 41 := by
  unfold summarized
  simp only
  split
  · constructor <;> simp
  · rename_i entries summary _
    exact ⟨(verify_drains _).commands, (verify_drains _).none_taken, (verify_drains _).rank_le⟩

theorem conclude_reports (summary : TaskSummary) (outcome : VerificationOutcome)
    (feedback : Option String) : (conclude summary outcome feedback).reports.length ≤ 5 := by
  cases outcome <;> simp [conclude]

theorem verified_drains (a : Active) (task : Task) (context : VerificationContext)
    (result : Except String Task) : s.Drains (s.verified rt a task context result) 36 := by
  rcases hresult : verifierResult rt context result with ⟨entries, payload⟩
  have hreports := conclude_reports context.summary (verdict payload).1 (verdict payload).2
  constructor
  · rfl
  · rfl
  · simp only [verified, hresult, Pc.rank, Next.rank, length_map]
    omega

theorem settle_drains (disposition : StepDisposition) :
    s.Drains (s.settle rt a task disposition) 29 := by
  unfold settle
  split
  · constructor <;> simp
  · split
    · constructor <;> simp
    · split <;> constructor <;> simp
  · split <;> constructor <;> simp

theorem startStep_drains (frame : Frame) : s.Drains (s.startStep frame) 35 := by
  unfold startStep
  split <;> constructor <;> simp

theorem State.Drains.rank_lt {n : ℕ} (h : s.Drains t n) (hs : s.pc.commands = [])
    (hn : n < s.pc.rank) : t.rank < s.rank := by
  obtain ⟨hcommands, hnone, hrank⟩ := h
  simp only [rank, hcommands, hnone, hs]
  omega

theorem reconclude_reports (summary : TaskSummary) (outcome : VerificationOutcome)
    (feedback : Option String) : (reconclude summary outcome feedback).2.length ≤ 4 := by
  cases outcome <;> simp [reconclude, repassReports]

variable {rest : List OrchestratorCommand} {site : Site}

theorem handleCommand_rank (hpc : s.pc = .handle site (command :: rest))
    (hrun : (s.handleCommand site rest command).Running) :
    (s.handleCommand site rest command).rank < s.rank := by
  unfold handleCommand at hrun ⊢
  cases command with
  | abort => exact absurd rfl (hrun _ _)
  | rerunVerifiers =>
    cases hv : s.lastVerification with
    | none => simp [rank, hpc, hv, OrchestratorCommand.isAbort]
    | some context =>
      simp [rank, hpc, hv, OrchestratorCommand.isAbort]
      omega
  | _ =>
    simp [rank, hpc, injectSplit, OrchestratorCommand.isAbort]

theorem receive_rank {received rest : List OrchestratorCommand}
    (hpc : s.pc = .receive site received) (hcommands : s.commands = command :: rest) :
    rank { s with
      commands := rest
      pc := .receive site (received ++ [command]) } < s.rank := by
  cases hany : received.any (·.isAbort) <;> cases habort : command.isAbort <;>
    simp [rank, hpc, hcommands, hany, habort] <;> omega

theorem received_rank {received : List OrchestratorCommand}
    (hpc : s.pc = .receive site received) (habort : .abort ∈ received) :
    (s.goto (.handle site received)).rank < s.rank := by
  have hany : received.any (·.isAbort) = true := any_eq_true.mpr ⟨_, habort, rfl⟩
  simp only [rank, goto, hpc, Pc.commands, Pc.rank, hany, if_true]
  omega

theorem tick_rank (h : s.tick rt = some t) (habort : .abort ∈ s.pc.commands ++ s.commands)
    (hrun : t.Running) : t.rank < s.rank := by
  unfold tick at h
  split at h
  case h_1 hpc =>
    split at h
    · obtain rfl := some.inj h
      exact absurd rfl (hrun _ _)
    · obtain rfl := some.inj h
      exact Drains.rank_lt (n := 0) ⟨rfl, rfl, le_rfl⟩ (by simp [hpc]) (by simp [hpc])
  case h_2 site received hpc =>
    split at h
    · rename_i hcommands
      obtain rfl := some.inj h
      exact received_rank hpc (by simpa [hpc, hcommands] using habort)
    · rename_i hcommands
      obtain rfl := some.inj h
      exact receive_rank hpc hcommands
  case h_3 site hpc =>
    obtain rfl := some.inj h
    cases site with
    | afterExecute a task => exact decideTask_drains.rank_lt (by simp [hpc]) (by simp [hpc])
    | afterPop frame | whilePaused frame =>
      exact Drains.rank_lt (n := 36) ⟨rfl, rfl, le_rfl⟩ (by simp [hpc]) (by simp [hpc])
  case h_4 hpc =>
    obtain rfl := some.inj h
    exact handleCommand_rank hpc hrun
  case h_5 frame hpc =>
    split at h
    · obtain rfl := some.inj h
      exact Drains.rank_lt (n := 0) ⟨rfl, rfl, le_rfl⟩ (by simp [hpc]) (by simp [hpc])
    · obtain rfl := some.inj h
      exact (startStep_drains frame).rank_lt (by simp [hpc]) (by simp [hpc])
  case h_6 next hpc =>
    obtain rfl := some.inj h
    exact Drains.rank_lt (n := next.rank) ⟨rfl, next.pc_commands, next.pc_rank.le⟩
      (by simp [hpc]) (by simp [hpc])
  case h_7 entry todo next hpc =>
    cases hcall : entry.isCall with
    | true => simp [hcall] at h
    | false =>
      obtain rfl : _ = t := by simpa [hcall] using h
      exact Drains.rank_lt (n := todo.length + 1 + next.rank) ⟨rfl, rfl, by simp⟩
        (by simp [hpc]) (by simp [hpc])
  case h_12 a task hpc =>
    obtain rfl := some.inj h
    cases task <;>
      exact Drains.rank_lt (n := 26) ⟨rfl, rfl, by simp⟩ (by simp [hpc]) (by simp [hpc])
  case h_15 hpc =>
    obtain rfl := some.inj h
    exact (settle_drains _).rank_lt (by simp [hpc]) (by simp [hpc])
  case h_16 site rest summary hpc =>
    obtain rfl := some.inj h
    simp [rank, hpc]
  case h_17 report todo site rest summary hpc =>
    cases hcall : report.entry.isCall with
    | true => simp [hcall] at h
    | false =>
      obtain rfl : _ = t := by simpa [hcall] using h
      simp [rank, hpc]
  case h_8 hpc | h_9 hpc | h_11 hpc | h_13 hpc | h_14 hpc =>
    obtain rfl := some.inj h
    exact Drains.rank_lt ⟨rfl, rfl, le_rfl⟩ (by simp [hpc]) (by simp [hpc])
  case h_10 hpc =>
    split at h <;> obtain rfl := some.inj h <;>
      exact Drains.rank_lt ⟨rfl, rfl, le_rfl⟩ (by simp [hpc]) (by simp [hpc])
  all_goals simp at h

theorem reverified_rank {context : VerificationContext} (result : Except String Task)
    (hpc : s.pc = .rerunning site rest context) :
    (s.reverified rt site rest context result).rank < s.rank := by
  rcases hresult : verifierResult rt context result with ⟨entries, payload⟩
  have hreports := reconclude_reports context.summary (verdict payload).1 (verdict payload).2
  simp only [reverified, hresult, rank, goto, output, hpc, Pc.rank,
    Pc.commands]
  omega

/-- Each step of the run itself brings it closer to taking an `Abort` on its way. -/
theorem own_rank (h : step rt s action = some t) (hown : action.isOwn = true)
    (habort : .abort ∈ s.pc.commands ++ s.commands) (hrun : t.Running) : t.rank < s.rank := by
  cases action with
  | tick => exact tick_rank h habort hrun
  | ack result =>
    simp only [step, State.ack] at h
    split at h
    · rename_i call todo next hpc
      cases result with
      | error err =>
        obtain rfl := some.inj h
        exact absurd rfl (hrun _ _)
      | ok =>
        obtain rfl := some.inj h
        exact Drains.rank_lt (n := todo.length + 1 + next.rank) ⟨rfl, rfl, by simp⟩
          (by simp [hpc]) (by simp [hpc])
    · rename_i report todo site rest summary hpc
      split at h
      · cases result <;> obtain rfl := some.inj h <;> simp [rank, hpc]
      · simp at h
    · simp at h
  | subAgentDone result =>
    simp only [step, subAgentDone] at h
    split at h
    · rename_i hpc
      cases result <;> obtain rfl := some.inj h <;>
        exact Drains.rank_lt ⟨rfl, rfl, le_rfl⟩ (by simp [hpc]) (by simp [hpc])
    · rename_i a task context hpc
      obtain rfl := some.inj h
      exact (summarized_drains a task context result).rank_lt (by simp [hpc]) (by simp [hpc])
    · rename_i a task context hpc
      obtain rfl := some.inj h
      exact (verified_drains a task context result).rank_lt (by simp [hpc]) (by simp [hpc])
    · rename_i site rest context hpc
      obtain rfl := some.inj h
      exact reverified_rank result hpc
    · simp at h
  | call | control => simp [Action.isOwn] at hown

/-- A call makes a run longer by a command at most. -/
theorem other_rank (h : step rt s action = some t) (hown : action.isOwn = false) :
    t.rank ≤ s.rank + 9 := by
  cases action with
  | call method =>
    obtain rfl := some.inj h
    exact Nat.le_add_right _ _
  | control i =>
    simp only [step, State.control] at h
    split at h
    · simp at h
    · obtain rfl := some.inj h
      exact Nat.le_add_right _ _
    · rename_i method op rest _
      obtain rfl := some.inj h
      cases op with
      | send command => simp [State.controlOp, State.rank]; omega
      | readCancel => cases hcancel : s.sharedCancel <;> simp [State.controlOp, State.rank, hcancel]
      | _ => simp [State.controlOp, State.rank]
  | _ => simp [Action.isOwn] at hown

end Rank

theorem rank_pos (s : State) : 0 < s.rank := by
  cases hany : s.pc.commands.any (·.isAbort) with
  | false =>
    have hrank : s.rank = 9 * s.commands.length + 64 + s.pc.rank := by simp [rank, hany]
    omega
  | true =>
    have hpos : 0 < s.pc.rank := by
      cases hpc : s.pc <;> simp_all [Pc.commands, Pc.rank] <;> omega
    unfold rank
    omega

theorem no_own_step (hs : ¬ s.Running) (h : step rt s action = some t) : action.isOwn = false := by
  obtain ⟨result, held, hpc⟩ := finished_of_not_running hs
  cases action <;> simp_all [step, tick, State.ack, subAgentDone, Action.isOwn]

/-- A run that has not returned can go on by itself, or when an agent answers. -/
theorem own_enabled (hs : s.Running) : ∃ action t, action.isOwn = true ∧
    step rt s action = some t := by
  cases htick : s.tick rt with
  | some t => exact ⟨.tick, t, rfl, htick⟩
  | none =>
    unfold tick at htick
    split at htick
    case h_7 entry todo next hpc =>
      cases entry with
      | call c => exact ⟨.ack (.ok ()), _, rfl, by simp only [step, State.ack, hpc]; rfl⟩
      | _ => simp [Entry.isCall] at htick
    case h_17 report todo site rest summary hpc =>
      cases hcall : report.entry.isCall with
      | true =>
        exact ⟨.ack (.ok ()), _, rfl, by simp only [step, State.ack, hpc, hcall, if_true]; rfl⟩
      | false => simp [hcall] at htick
    case h_18 hpc | h_19 hpc | h_20 hpc | h_21 hpc =>
      exact ⟨.subAgentDone (.ok ⟨"", none, ⟨.cancelled, none⟩, none⟩), _, rfl,
        by simp only [step, subAgentDone, hpc]; rfl⟩
    case h_22 hpc => exact absurd hpc (hs _ _)
    all_goals
      (try split at htick) <;> simp at htick
end ColossalCode.Orchestrator
