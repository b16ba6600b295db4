import ColossalCode.Sessionizer.Manager

/-! What running an operation comes to, step by step. -/
namespace ColossalCode.Sessionizer

/-- The answer of an operation, and the world after it. -/
def Op.exec {α : Type} (x : Op α) (w : World) : Except ColossalErr α × World := x.run.run w

namespace Op

variable {α β : Type} {w : World}

@[simp] theorem exec_pure (a : α) : (pure a : Op α).exec w = (.ok a, w) := rfl

theorem exec_bind (x : Op α) (f : α → Op β) :
    (x >>= f).exec w =
      match x.exec w with
      | (.ok a, w') => (f a).exec w'
      | (.error error, w') => (.error error, w') := by
  unfold exec
  rw [ExceptT.run_bind, StateT.run_bind]
  rcases x.run.run w with ⟨_ | a, w'⟩
  · rfl
  · rfl

@[simp] theorem exec_fail (error : ColossalErr) : (fail error : Op α).exec w = (.error error, w) :=
  rfl

@[simp] theorem exec_change (f : SessionManager → SessionManager) :
    (change f).exec w = (.ok (), { w with manager := f w.manager }) := rfl

@[simp] theorem exec_emit (effect : Effect) :
    (emit effect).exec w = (.ok (), { w with effects := w.effects ++ [effect] }) := rfl

@[simp] theorem exec_getManager : getManager.exec w = (.ok w.manager, w) := rfl

theorem exec_admitting (check : SafetyCheck) :
    (admitting check).exec w = (check.clearance, w) := by
  unfold admitting
  cases check.clearance <;> rfl

theorem exec_requireSession (table : SessionManager → List (SessionId × α))
    (sessionId : SessionId) :
    (requireSession table sessionId).exec w =
      match findSession (table w.manager) sessionId with
      | some session => (.ok session, w)
      | none => (.error (.denied (-1) ("unknown session id " ++ sessionId)), w) := by
  unfold requireSession
  rw [exec_bind, exec_getManager]
  dsimp only
  cases findSession (table w.manager) sessionId <;> rfl

theorem exec_ok {x : Op α} {a : α} {w' : World} (h : x.exec w = (.ok a, w')) (f : α → Op β) :
    (x >>= f).exec w = (f a).exec w' := by
  rw [exec_bind, h]

theorem exec_error {x : Op α} {error : ColossalErr} {w' : World} (h : x.exec w = (.error error, w'))
    (f : α → Op β) : (x >>= f).exec w = (.error error, w') := by
  rw [exec_bind, h]

theorem exec_tryCatch (x : Op α) (f : ColossalErr → Op α) :
    (tryCatch x f : Op α).exec w =
      match x.exec w with
      | (.ok a, w') => (.ok a, w')
      | (.error error, w') => (f error).exec w' := by
  unfold exec
  rw [ExceptT.run_tryCatch, StateT.run_bind]
  rcases x.run.run w with ⟨_ | a, w'⟩
  · rfl
  · rfl

end Op

section Tables

variable {α : Type} (table : List (SessionId × α)) (sessionId : SessionId)

theorem findSession_updateSession (f : α → α) :
    findSession (updateSession sessionId f table) sessionId =
      (findSession table sessionId).map f := by
  induction table with
  | nil => rfl
  | cons entry table ih =>
    unfold findSession at ih ⊢
    rw [updateSession]
    by_cases hentry : entry.1 == sessionId
    · simp [hentry]
    · simp [hentry, ih]

/-- A session that is added is found, or one with its id that is there already. -/
theorem findSession_append (session : α) :
    (findSession (table ++ [(sessionId, session)]) sessionId).isSome := by
  simp [findSession]

variable {table sessionId}

theorem findSession_isSome :
    (findSession table sessionId).isSome ↔ sessionId ∈ table.map Prod.fst := by
  simp [findSession, List.find?_isSome]

theorem findSession_none : findSession table sessionId = none ↔ sessionId ∉ table.map Prod.fst := by
  rw [← findSession_isSome, Option.not_isSome_iff_eq_none]

end Tables

end ColossalCode.Sessionizer

/-! Shell sessions come up, are restored, and are written to disk and loaded again. -/
namespace ColossalCode.Sessionizer

/-- What is kept of a shell; the structured state of a managed Nu runtime is left out. -/
structure PersistentSessionState where
  sessionId : SessionId
  shellPath : String
  initialCwd : String
  envVars : List (String × String)
  currentCwd : String
  replayCommands : List String

def addShell (sessionId : SessionId) (session : PersistentShellSession) : Op Unit :=
  change fun m =>
    { m with persistentShellSessions := m.persistentShellSessions ++ [(sessionId, session)] }

def addManagedNu (sessionId : SessionId) (runtime : ManagedNuRuntime) : Op Unit :=
  change fun m => { m with managedNuSessions := m.managedNuSessions ++ [(sessionId, runtime)] }

def answer {α : Type} (result : Except ColossalErr α) : Op α :=
  match result with
  | .ok a => pure a
  | .error error => fail error

/-- A shell of either kind comes up and enters its table. -/
def openSession (host : Host) (sessionId : SessionId) (shell : String)
    (sandboxPolicy : SandboxPolicy) (cwd : String) : Op Unit := do
  if isManagedNuShell shell then
    answer (host.opensNu shell sandboxPolicy cwd)
    addManagedNu sessionId ⟨shell, cwd, sandboxPolicy⟩
  else
    answer (host.opensShell shell sandboxPolicy cwd)
    addShell sessionId ⟨shell, cwd, cwd, [], [], sandboxPolicy, false⟩

def createPersistentShellSession (host : Host) (shell : String) (sandboxPolicy : SandboxPolicy)
    (cwd : String) (timeoutDuration : Option Nat) : Op SessionId := do
  let sessionId ← generateUniqueSessionId
  openSession host sessionId shell sandboxPolicy cwd
  createSessionMetadata host sessionId (timeoutDuration.getD 1800000)
  pure sessionId

/-- `let _ = ..`: an error is dropped. -/
def ignoring {α : Type} (x : Op α) : Op Unit :=
  tryCatch (do let _ ← x) fun _ => pure ()

def shellSingleQuote (value : String) : String :=
  "'" ++ String.join (value.toList.map fun c => if c = '\'' then "'\"'\"'" else c.toString) ++ "'"

def setEnvInShellSession (host : Host) (sessionId : SessionId) (key value : String) : Op Unit := do
  match findSession (← getManager).managedNuSessions sessionId with
  | some _ => updateSessionActivity host sessionId
  | none =>
    let _ ← requireSession SessionManager.persistentShellSessions sessionId
    changeShell sessionId (setEnv key (some value))
    ignoring (execCommandInShellSession host sessionId
      ("export " ++ key ++ "=" ++ shellSingleQuote value) (some 2000) none)

def restoreShellSessionFromSnapshot (host : Host) (sessionId : SessionId)
    (snapshot : PersistentSessionState) : Op Unit := do
  match findSession (← getManager).managedNuSessions sessionId with
  | some _ =>
    answer (host.restoresNu sessionId)
    updateSessionActivity host sessionId
  | none =>
    if snapshot.currentCwd ≠ snapshot.initialCwd then
      let _ ← execCommandInShellSession host sessionId ("cd " ++ host.escape snapshot.currentCwd)
        (some 5000) none
    snapshot.envVars.forM fun entry => setEnvInShellSession host sessionId entry.1 entry.2
    snapshot.replayCommands.forM fun command => do
      let _ ← execCommandInShellSession host sessionId command (some 30000) none

/-- The environment and the directory of a shell are put back before it enters its table. -/
def loadShell (state : PersistentSessionState) (sandboxPolicy : SandboxPolicy) :
    PersistentShellSession :=
  let session := state.envVars.foldl (fun session entry => setEnv entry.1 (some entry.2) session)
    ⟨state.shellPath, state.initialCwd, state.initialCwd, [], [], sandboxPolicy, false⟩
  { session with cwd := state.currentCwd }

/-- One saved session comes up again under its old id. -/
def loadSession (host : Host) (sandboxPolicy : SandboxPolicy) (state : PersistentSessionState) :
    Op SessionId := do
  if isManagedNuShell state.shellPath then
    answer (host.opensNu state.shellPath sandboxPolicy state.initialCwd)
    addManagedNu state.sessionId ⟨state.shellPath, state.initialCwd, sandboxPolicy⟩
  else
    answer (host.opensShell state.shellPath sandboxPolicy state.initialCwd)
    addShell state.sessionId (loadShell state sandboxPolicy)
  createSessionMetadata host state.sessionId 1800000
  pure state.sessionId

def loadSessions (host : Host) (sandboxPolicy : SandboxPolicy) :
    List PersistentSessionState → Op (List SessionId)
  | [] => pure []
  | state :: states => do
    let sessionId ← loadSession host sandboxPolicy state
    let sessionIds ← loadSessions host sandboxPolicy states
    pure (sessionId :: sessionIds)

def loadSessionState (host : Host) (sandboxPolicy : SandboxPolicy)
    (file : Except ColossalErr (List PersistentSessionState)) : Op (List SessionId) := do
  let persistentSessions ← answer file
  loadSessions host sandboxPolicy persistentSessions

def shellState (entry : SessionId × PersistentShellSession) : PersistentSessionState :=
  ⟨entry.1, entry.2.shellPath, entry.2.initialCwd, entry.2.env, entry.2.cwd, []⟩

/-- The state of a managed runtime comes from Nu. -/
def saveSessionState (snapshots : SessionId → Except ColossalErr PersistentSessionState) :
    Op (List PersistentSessionState) := do
  let m ← getManager
  let managedStates ← answer (m.managedNuSessions.mapM fun entry => snapshots entry.1)
  pure (m.persistentShellSessions.map shellState ++ managedStates)

/-- The metadata is locked for the whole of the search, and once more for each entry: with an entry
there is no end. -/
def cleanupTimedOutSessions (w : World) : Option (List SessionId × World) :=
  match w.manager.sessionMetadata with
  | [] => some ([], w)
  | _ :: _ => none

end ColossalCode.Sessionizer
