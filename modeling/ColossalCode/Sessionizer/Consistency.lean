import ColossalCode.Sessionizer.Gate
import ColossalCode.Sessionizer.Tables

/-! What the operations of the manager do to its tables. -/
namespace ColossalCode.Sessionizer

def SessionManager.tables (m : SessionManager) : Tables where
  exec := m.sessions.map fun entry => (entry.1, entry.2.exited)
  shell := m.persistentShellSessions.map fun entry => (entry.1, entry.2.exited)
  managed := m.managedNuSessions.map Prod.fst
  metadata := m.sessionMetadata.map Prod.fst

def World.tables (w : World) : Tables := w.manager.tables

/-- The operation leaves the tables as they are, apart from what a session holds. -/
def Keeps {α : Type} (x : Op α) : Prop := ∀ w, (x.exec w).2.tables = w.tables

section Keeps

variable {α β : Type}

theorem keeps_pure (a : α) : Keeps (pure a : Op α) := fun _ => rfl

theorem keeps_fail (error : ColossalErr) : Keeps (fail error : Op α) := fun _ => rfl

theorem keeps_emit (effect : Effect) : Keeps (emit effect) := fun _ => rfl

theorem keeps_getManager : Keeps getManager := fun _ => rfl

variable {f : α → Op β} {x : Op α}

/-- What is done with the result is not seen. -/
theorem tables_bind (hf : ∀ a, Keeps (f a)) (w : World) :
    ((x >>= f).exec w).2.tables = (x.exec w).2.tables := by
  rw [Op.exec_bind]
  rcases x.exec w with ⟨_ | a, w'⟩
  · rfl
  · exact hf a w'

theorem keeps_bind (hx : Keeps x) (hf : ∀ a, Keeps (f a)) :
    Keeps (x >>= f) := fun w => (tables_bind hf w).trans (hx w)

theorem tables_tryCatch {f : ColossalErr → Op α} {w : World} (hf : ∀ error, Keeps (f error)) :
    ((tryCatch x f : Op α).exec w).2.tables = (x.exec w).2.tables := by
  rw [Op.exec_tryCatch]
  rcases x.exec w with ⟨error | a, w'⟩
  · exact hf error w'
  · rfl

theorem keeps_admitting (check : SafetyCheck) : Keeps (admitting check) := by
  intro w
  rw [Op.exec_admitting]

theorem keeps_requireSession (table : SessionManager → List (SessionId × α))
    (sessionId : SessionId) : Keeps (requireSession table sessionId) := by
  intro w
  rw [Op.exec_requireSession]
  split <;> rfl

theorem keeps_forM {γ : Type} (l : List γ) {f : γ → Op PUnit} (hf : ∀ c, Keeps (f c)) :
    Keeps (l.forM f) := by
  induction l with
  | nil => exact keeps_pure _
  | cons c l ih => exact keeps_bind (hf c) fun _ => ih

end Keeps

theorem updateSession_map {α β : Type} {f : α → α} {g : SessionId × α → β}
    (h : ∀ id a, g (id, f a) = g (id, a)) (sessionId : SessionId) (table : List (SessionId × α)) :
    (updateSession sessionId f table).map g = table.map g := by
  induction table with
  | nil => rfl
  | cons entry table ih =>
    rw [updateSession]
    split
    · rw [List.map_cons, List.map_cons, h]
    · rw [List.map_cons, List.map_cons, ih]

theorem keeps_changeShell (sessionId : SessionId)
    {f : PersistentShellSession → PersistentShellSession} (hf : ∀ s, (f s).exited = s.exited) :
    Keeps (changeShell sessionId f) := by
  intro w
  unfold changeShell
  rw [Op.exec_change]
  have hmap := updateSession_map (g := fun entry : SessionId × PersistentShellSession =>
    (entry.1, entry.2.exited)) (f := f) (fun id s => by simp [hf]) sessionId
    w.manager.persistentShellSessions
  simp only [World.tables, SessionManager.tables, hmap]

theorem keeps_updateSessionActivity (host : Host) (sessionId : SessionId) :
    Keeps (updateSessionActivity host sessionId) := by
  intro w
  have hmap := updateSession_map (g := Prod.fst)
    (f := fun metadata : SessionMetadata => { metadata with lastActivity := host.now })
    (fun id s => rfl) sessionId w.manager.sessionMetadata
  unfold updateSessionActivity
  rw [Op.exec_change]
  simp only [World.tables, SessionManager.tables, hmap]

theorem keeps_checkInput (host : Host) (sessionId : SessionId) (input : String)
    (askForApproval : Option AskForApproval) :
    Keeps (checkInput host sessionId input askForApproval) := by
  cases askForApproval with
  | none => exact keeps_pure _
  | some approvalStrategy =>
    refine keeps_bind (keeps_requireSession _ _) fun _ => ?_
    split
    · exact keeps_bind (keeps_admitting _) fun _ => keeps_pure _
    · exact keeps_pure _

theorem keeps_sendInput (host : Host) (sessionId : SessionId) (input : String)
    (askForApproval : Option AskForApproval) :
    Keeps (sendInputToShellSession host sessionId input askForApproval) := by
  refine keeps_bind (keeps_checkInput _ _ _ _) fun _ => ?_
  refine keeps_bind (keeps_requireSession _ _) fun _ => ?_
  refine keeps_bind (keeps_updateSessionActivity host sessionId) fun _ => ?_
  split
  · exact keeps_emit _
  · exact keeps_fail _

theorem keeps_waitUntilReady (host : Host) (sessionId : SessionId) :
    Keeps (waitUntilReady host sessionId) := by
  unfold waitUntilReady
  split
  · exact keeps_pure _
  · exact keeps_fail _

theorem addToHistory_exited (command : String) (session : PersistentShellSession) :
    (addToHistory command session).exited = session.exited := by
  unfold addToHistory
  split <;> rfl

theorem keeps_sendWhenReady (host : Host) (sessionId : SessionId) (command : String) :
    Keeps (sendWhenReady host sessionId command) := by
  refine keeps_bind (keeps_requireSession _ _) fun _ => ?_
  refine keeps_bind (keeps_waitUntilReady _ _) fun _ => ?_
  refine keeps_bind (keeps_changeShell sessionId (addToHistory_exited command)) fun _ => ?_
  refine keeps_bind (keeps_requireSession _ _) fun _ => ?_
  exact keeps_sendInput _ _ _ _

theorem setEnv_exited (key : String) (value : Option String) (session : PersistentShellSession) :
    (setEnv key value session).exited = session.exited := rfl

theorem setEnvs_exited (updates : List (String × Option String))
    (session : PersistentShellSession) :
    (updates.foldl (fun session update => setEnv update.1 update.2 session) session).exited =
      session.exited := by
  induction updates generalizing session with
  | nil => rfl
  | cons update updates ih => exact ih _

theorem keeps_execInPersistentShell (host : Host) (sessionId : SessionId) (command : String)
    (timeoutMs : Option Nat) (askForApproval : Option AskForApproval) :
    Keeps (execInPersistentShell host sessionId command timeoutMs askForApproval) := by
  unfold execInPersistentShell
  refine keeps_bind (keeps_requireSession _ _) fun _ => ?_
  refine keeps_bind (keeps_admitting _) fun _ => ?_
  refine keeps_bind (keeps_sendWhenReady _ _ _) fun _ => ?_
  refine keeps_bind (keeps_changeShell sessionId fun s => setEnvs_exited _ s) fun _ => ?_
  exact keeps_pure _

theorem keeps_forkEval (host : Host) (sessionId : SessionId) (command : String)
    (timeoutMs : Option Nat) (askForApproval : Option AskForApproval) :
    Keeps (forkEvalInManagedNuSession host sessionId command timeoutMs askForApproval) := by
  unfold forkEvalInManagedNuSession
  refine keeps_bind keeps_getManager fun _ => ?_
  split
  · exact keeps_pure _
  · refine keeps_bind (keeps_admitting _) fun _ => ?_
    refine keeps_bind (keeps_emit _) fun _ => ?_
    split
    · exact keeps_fail _
    · exact keeps_pure _

theorem keeps_answer {α : Type} (result : Except ColossalErr α) : Keeps (answer result) := by
  cases result
  · exact keeps_fail _
  · exact keeps_pure _

/-- The tables stay as they are where no managed runtime has the id. -/
def KeepsUnmanaged {α : Type} (sessionId : SessionId) (x : Op α) : Prop :=
  ∀ w, findSession w.manager.managedNuSessions sessionId = none →
    (x.exec w).2.tables = w.tables

section Unmanaged

variable {α β : Type} {sessionId : SessionId}

theorem unmanaged_of_tables {w w' : World} (h : w'.tables = w.tables)
    (hw : findSession w.manager.managedNuSessions sessionId = none) :
    findSession w'.manager.managedNuSessions sessionId = none := by
  have hmanaged : w'.manager.managedNuSessions.map Prod.fst =
      w.manager.managedNuSessions.map Prod.fst := congrArg Tables.managed h
  rw [findSession_none] at hw ⊢
  rw [hmanaged]
  exact hw

theorem Keeps.unmanaged {x : Op α} (h : Keeps x) : KeepsUnmanaged sessionId x := fun w _ => h w

theorem unmanaged_bind {x : Op α} {f : α → Op β} (hx : KeepsUnmanaged sessionId x)
    (hf : ∀ a, KeepsUnmanaged sessionId (f a)) : KeepsUnmanaged sessionId (x >>= f) := by
  intro w hw
  have hfirst := hx w hw
  rw [Op.exec_bind]
  rcases hexec : x.exec w with ⟨_ | a, w'⟩
  · rw [hexec] at hfirst
    exact hfirst
  · rw [hexec] at hfirst
    exact (hf a w' (unmanaged_of_tables hfirst hw)).trans hfirst

theorem unmanaged_forM {γ : Type} (l : List γ) {f : γ → Op PUnit}
    (hf : ∀ c, KeepsUnmanaged sessionId (f c)) : KeepsUnmanaged sessionId (l.forM f) := by
  induction l with
  | nil => exact (keeps_pure _).unmanaged
  | cons c l ih => exact unmanaged_bind (hf c) fun _ => ih

theorem unmanaged_exec (host : Host) (command : String) (timeoutMs : Option Nat)
    (askForApproval : Option AskForApproval) : KeepsUnmanaged sessionId
      (execCommandInShellSession host sessionId command timeoutMs askForApproval) := by
  intro w hw
  unfold execCommandInShellSession
  rw [Op.exec_ok Op.exec_getManager, hw]
  exact keeps_execInPersistentShell _ _ _ _ _ w

end Unmanaged

theorem keeps_setEnvInShellSession (host : Host) (sessionId : SessionId) (key value : String) :
    Keeps (setEnvInShellSession host sessionId key value) := by
  intro w
  unfold setEnvInShellSession
  rw [Op.exec_ok Op.exec_getManager]
  cases hmanaged : findSession w.manager.managedNuSessions sessionId with
  | some runtime => exact keeps_updateSessionActivity _ _ w
  | none =>
    refine unmanaged_bind (keeps_requireSession _ sessionId).unmanaged (fun _ => ?_) w hmanaged
    refine unmanaged_bind (keeps_changeShell sessionId (setEnv_exited _ _)).unmanaged fun _ => ?_
    intro w hw
    unfold ignoring
    rw [tables_tryCatch fun _ => keeps_pure _, tables_bind fun _ => keeps_pure _]
    exact unmanaged_exec host _ _ _ w hw

theorem keeps_restore (host : Host) (sessionId : SessionId) (snapshot : PersistentSessionState) :
    Keeps (restoreShellSessionFromSnapshot host sessionId snapshot) := by
  intro w
  unfold restoreShellSessionFromSnapshot
  rw [Op.exec_ok Op.exec_getManager]
  cases hmanaged : findSession w.manager.managedNuSessions sessionId with
  | some runtime =>
    exact keeps_bind (keeps_answer _) (fun _ => keeps_updateSessionActivity _ _) w
  | none =>
    have hrest : KeepsUnmanaged sessionId (do
        snapshot.envVars.forM fun entry => setEnvInShellSession host sessionId entry.1 entry.2
        snapshot.replayCommands.forM fun command => do
          let _ ← execCommandInShellSession host sessionId command (some 30000) none) := by
      refine unmanaged_bind ?_ fun _ => ?_
      · exact (keeps_forM _ fun entry => keeps_setEnvInShellSession _ _ _ _).unmanaged
      · refine unmanaged_forM _ fun command => ?_
        exact unmanaged_bind (unmanaged_exec _ _ _ _) fun _ => (keeps_pure _).unmanaged
    dsimp only
    split
    · exact unmanaged_bind (unmanaged_exec _ _ _ _) (fun _ => hrest) w hmanaged
    · exact hrest w hmanaged

theorem keeps_save (snapshots : SessionId → Except ColossalErr PersistentSessionState) :
    Keeps (saveSessionState snapshots) := by
  refine keeps_bind keeps_getManager fun _ => ?_
  exact keeps_bind (keeps_answer _) fun _ => keeps_pure _

end ColossalCode.Sessionizer
