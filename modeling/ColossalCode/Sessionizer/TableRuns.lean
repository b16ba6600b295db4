import ColossalCode.Sessionizer.Shells
import ColossalCode.Transition.Run

/-! Runs of the manager: in which of them its tables belong together throughout. -/
namespace ColossalCode.Sessionizer
open List Option Tables

open Transition

/-- What happens to a manager. The last is not its doing: the process of a session ends. -/
inductive Action where
  | call (policy : Option AskForApproval) (call : Call)
  | sendInput (sessionId : SessionId) (input : String) (policy : Option AskForApproval)
  | createShell (shell : String) (sandboxPolicy : SandboxPolicy) (cwd : String)
    (timeoutDuration : Option Nat)
  | setEnv (sessionId : SessionId) (key value : String)
  | restore (sessionId : SessionId) (snapshot : PersistentSessionState)
  | save (snapshots : SessionId → Except ColossalErr PersistentSessionState)
  | load (sandboxPolicy : SandboxPolicy) (file : Except ColossalErr (List PersistentSessionState))
  | cleanup
  | terminate (sessionId : SessionId)
  | exit (sessionId : SessionId)

def markExited (sessionId : SessionId) (w : World) : World :=
  { w with manager := { w.manager with
      sessions := w.manager.sessions.map fun entry =>
        if entry.1 = sessionId then (sessionId, { entry.2 with exited := true }) else entry
      persistentShellSessions := w.manager.persistentShellSessions.map fun entry =>
        if entry.1 = sessionId then (sessionId, { entry.2 with exited := true }) else entry } }

/-- Each action meets a host of its own; `none` for one that has no end. -/
def perform (w : World) : Host × Action → Option World
  | (host, .call policy call) => some ((runCall host policy call).exec w).2
  | (host, .sendInput sessionId input policy) =>
    some ((sendInputToShellSession host sessionId input policy).exec w).2
  | (host, .createShell shell sandboxPolicy cwd timeoutDuration) =>
    some ((createPersistentShellSession host shell sandboxPolicy cwd timeoutDuration).exec w).2
  | (host, .setEnv sessionId key value) =>
    some ((setEnvInShellSession host sessionId key value).exec w).2
  | (host, .restore sessionId snapshot) =>
    some ((restoreShellSessionFromSnapshot host sessionId snapshot).exec w).2
  | (_, .save snapshots) => some ((saveSessionState snapshots).exec w).2
  | (host, .load sandboxPolicy file) => some ((loadSessionState host sandboxPolicy file).exec w).2
  | (_, .cleanup) => (cleanupTimedOutSessions w).map Prod.snd
  | (_, .terminate sessionId) => some ((terminateSession sessionId).exec w).2
  | (_, .exit sessionId) => some (markExited sessionId w)

/-- A call that leaves the tables as they should be. -/
def CallFits (host : Host) (policy : Option AskForApproval) (w : World) : Call → Prop
  | .handleExecCommandRequest params =>
    Approved params.command (policy.getD yoloMode) →
      starts host { params with askForApproval := policy } → w.manager.nextId ∉ w.tables.ids
  | .streamExecCommand params =>
    ¬ (Approved params.command yoloMode ∧ starts host { params with askForApproval := policy })
  | .streamExecCommandEnhanced params =>
    ¬ (Approved params.command (policy.getD yoloMode) ∧
      starts host { params with askForApproval := policy })
  | .execCommandInShellSession sessionId command timeoutMs =>
    ¬ EndsRuntime host w.manager sessionId command timeoutMs policy
  | .forkEvalInManagedNuSession _ _ _ => True
  | .sendCommandToShellSession _ _ => True

/-- An action that leaves the tables as they should be. -/
def Fits (w : World) : Host × Action → Prop
  | (host, .call policy call) => CallFits host policy w call
  | (host, .createShell shell sandboxPolicy cwd _) =>
    opens host shell sandboxPolicy cwd → w.manager.nextId ∉ w.tables.ids
  | (host, .load sandboxPolicy (.ok states)) =>
    ((loaded host sandboxPolicy states).map PersistentSessionState.sessionId ++ w.tables.ids).Nodup
  | (_, .terminate sessionId) => sessionId ∉ w.tables.liveIds
  | (_, .exit sessionId) => sessionId ∉ w.tables.liveIds ∨ sessionId ∈ w.tables.managed
  | _ => True

/-- A manager with nothing in its tables. -/
def freshWorld (processId : Nat) : World := ⟨⟨0, processId, [], [], [], [], []⟩, []⟩

section Step

variable {host : Host} {w w' : World}

theorem keeps_consistent {t : Tables} (h : t = w.tables) (hw : w.tables.Consistent) :
    t.Consistent ↔ True := by
  rw [h]
  exact iff_of_true hw trivial

theorem exec_call_consistent_iff (policy : Option AskForApproval) (sessionId : SessionId)
    (command : String) (timeoutMs : Option Nat) (hw : w.tables.Consistent) :
    ((execCommandInShellSession host sessionId command timeoutMs policy).exec w).2.tables.Consistent
      ↔ ¬ EndsRuntime host w.manager sessionId command timeoutMs policy := by
  unfold execCommandInShellSession EndsRuntime
  rw [Op.exec_ok Op.exec_getManager]
  cases hmanaged : findSession w.manager.managedNuSessions sessionId with
  | none =>
    refine iff_of_true ?_ (by simp)
    rw [keeps_execInPersistentShell _ _ _ _ _ w]
    exact hw
  | some runtime =>
    have hlive : sessionId ∈ w.tables.liveIds := by
      refine mem_append_right _ (findSession_isSome.mp ?_)
      rw [hmanaged]
      rfl
    dsimp only
    rw [execInManagedNu_tables]
    split
    · rename_i hends
      refine iff_of_false ?_ fun h => h ⟨rfl, hends⟩
      exact fun h => (close_consistent_iff hw).mp h hlive
    · rename_i hends
      exact iff_of_true hw fun h => hends h.2

theorem call_consistent_iff (policy : Option AskForApproval) (call : Call)
    (hw : w.tables.Consistent) :
    ((runCall host policy call).exec w).2.tables.Consistent ↔ CallFits host policy w call := by
  cases call with
  | handleExecCommandRequest params =>
    rw [runCall, tables_bind fun _ => keeps_pure _, handleExec_tables, CallFits]
    split
    · rename_i hstarts
      rw [note_consistent_iff (openExec_opens _) hw]
      exact ⟨fun h _ _ => h, fun h => h hstarts.1 hstarts.2⟩
    · rename_i hstarts
      exact iff_of_true hw fun happroved h => absurd ⟨happroved, h⟩ hstarts
  | streamExecCommand params =>
    rw [runCall, tables_bind fun _ => keeps_pure _, streamExecCommand, streamAfter_tables, CallFits]
    split
    · rename_i hstarts
      exact iff_of_false (opened_inconsistent (openExec_opens _) hw) fun h =>
        h hstarts
    · rename_i hstarts
      exact iff_of_true hw hstarts
  | streamExecCommandEnhanced params =>
    rw [runCall, tables_bind fun _ => keeps_pure _, streamExecCommandEnhanced, streamAfter_tables,
      CallFits]
    split
    · rename_i hstarts
      exact iff_of_false (opened_inconsistent (openExec_opens _) hw) fun h =>
        h hstarts
    · rename_i hstarts
      exact iff_of_true hw hstarts
  | execCommandInShellSession sessionId command timeoutMs =>
    rw [runCall, tables_bind fun _ => keeps_pure _]
    exact exec_call_consistent_iff policy sessionId command timeoutMs hw
  | forkEvalInManagedNuSession sessionId command timeoutMs =>
    rw [runCall, tables_bind fun _ => keeps_pure _]
    exact keeps_consistent (keeps_forkEval _ _ _ _ _ w) hw
  | sendCommandToShellSession sessionId command =>
    exact keeps_consistent (keeps_sendWhenReady _ _ _ w) hw

theorem markExited_tables (sessionId : SessionId) (w : World) :
    (markExited sessionId w).tables = w.tables.exit sessionId := by
  simp only [markExited, World.tables, SessionManager.tables, exit,
    mark, List.map_map]
  congr 1
  · refine List.map_congr_left fun entry _ => ?_
    by_cases hid : entry.1 = sessionId <;> simp [hid]
  · refine List.map_congr_left fun entry _ => ?_
    by_cases hid : entry.1 = sessionId <;> simp [hid]

theorem cleanup_returns {result : List SessionId × World}
    (h : cleanupTimedOutSessions w = some result) : result.2 = w := by
  unfold cleanupTimedOutSessions at h
  split at h
  · cases h
    rfl
  · cases h

theorem perform_consistent_iff {a : Host × Action} (h : perform w a = some w')
    (hw : w.tables.Consistent) : w'.tables.Consistent ↔ Fits w a := by
  obtain ⟨host, action⟩ := a
  cases action with
  | cleanup =>
    obtain ⟨result, hresult, rfl⟩ := map_eq_some_iff.mp h
    exact keeps_consistent (congrArg World.tables (cleanup_returns hresult)) hw
  | call policy call =>
    obtain rfl := some.inj h
    exact call_consistent_iff policy call hw
  | sendInput sessionId input policy =>
    obtain rfl := some.inj h
    exact keeps_consistent (keeps_sendInput _ _ _ _ w) hw
  | createShell shell sandboxPolicy cwd timeoutDuration =>
    obtain rfl := some.inj h
    rw [createPersistentShellSession_tables, Fits]
    split
    · rename_i hopens
      rw [note_consistent_iff (opening_opens _ _) hw]
      exact ⟨fun h _ => h, fun h => h hopens⟩
    · rename_i hopens
      exact iff_of_true hw fun h => absurd h hopens
  | setEnv sessionId key value =>
    obtain rfl := some.inj h
    exact keeps_consistent (keeps_setEnvInShellSession _ _ _ _ w) hw
  | restore sessionId snapshot =>
    obtain rfl := some.inj h
    exact keeps_consistent (keeps_restore _ _ _ w) hw
  | save snapshots =>
    obtain rfl := some.inj h
    exact keeps_consistent (keeps_save _ w) hw
  | load sandboxPolicy file =>
    obtain rfl := some.inj h
    unfold loadSessionState
    cases file with
    | error error =>
      rw [Op.exec_error (exec_answer _ w)]
      exact keeps_consistent rfl hw
    | ok states =>
      rw [Op.exec_ok (exec_answer _ w), loadSessions_tables]
      exact entered_consistent_iff hw _
  | terminate sessionId =>
    obtain rfl := some.inj h
    rw [terminateSession_tables]
    exact close_consistent_iff hw
  | exit sessionId =>
    obtain rfl := some.inj h
    rw [markExited_tables]
    exact exit_consistent_iff hw

end Step

theorem fresh_consistent (processId : Nat) : (freshWorld processId).tables.Consistent :=
  ⟨nodup_nil, fun _ => Iff.rfl⟩

/-- The tables belong together in every state of a run if each action of it fits. -/
theorem tables_consistent_iff {processId : Nat} {actions : List (Host × Action)} {w : World}
    (h : run perform (freshWorld processId) actions = some w) :
    Throughout perform (fun w => w.tables.Consistent) (freshWorld processId) actions ↔
      Steps perform Fits (freshWorld processId) actions w := by
  refine throughout_iff_steps (I := fun _ => True) (fun _ _ _ _ _ => trivial) ?_ h trivial
    (fresh_consistent processId)
  exact fun _ _ _ _ hstep hs => perform_consistent_iff hstep hs

/-- A shell is created and a command sent to it. -/
theorem tables_consistent_shell : ∃ w,
    run perform (freshWorld 7) [(openHost, .createShell "/bin/bash" .readOnly "/w" none),
      (openHost, .call none (.sendCommandToShellSession "7_0" "ls"))] = some w ∧
    Throughout perform (fun w => w.tables.Consistent) (freshWorld 7)
      [(openHost, .createShell "/bin/bash" .readOnly "/w" none),
        (openHost, .call none (.sendCommandToShellSession "7_0" "ls"))] := by
  refine ⟨_, rfl, (tables_consistent_iff rfl).mpr ?_⟩
  refine .head (fun _ => not_mem_nil) rfl ?_
  exact .head trivial rfl (.refl _)

/-- A stream has no metadata, and the metadata of a shell outlives it. -/
theorem tables_inconsistent :
    (∃ w, run perform (freshWorld 7) [(openHost, .call none (.streamExecCommand listing))] =
      some w ∧
      w.tables = ⟨[("7_0", false)], [], [], []⟩ ∧ ¬ w.tables.Consistent) ∧
    ∃ w, run perform (freshWorld 7) [(openHost, .createShell "/bin/bash" .readOnly "/w" none),
        (openHost, .terminate "7_0")] = some w ∧
      w.tables = ⟨[], [], [], ["7_0"]⟩ ∧ ¬ w.tables.Consistent := by
  refine ⟨⟨_, rfl, rfl, ?_⟩, _, rfl, rfl, ?_⟩
  · intro h
    exact not_mem_nil ((h.noted "7_0").mpr mem_cons_self)
  · intro h
    exact not_mem_nil ((h.noted "7_0").mp mem_cons_self)

end ColossalCode.Sessionizer
