import ColossalCode.Sessionizer.Restoring

/-! A restore that fails takes nothing back, and one that succeeds may not have moved the shell. -/
namespace ColossalCode.Sessionizer
open List Option Op

open Tables (note)

section Shells

attribute [local irreducible] isManagedNuShell

/-- The command passes the check, and the shell takes it. -/
def Reaches (host : Host) (sessionId : SessionId) (command : String) : Prop :=
  Approved (commandParts host command) yoloMode ∧ host.becomesReady sessionId = true ∧
    host.accepts sessionId = true

instance (host : Host) (sessionId : SessionId) (command : String) :
    Decidable (Reaches host sessionId command) := instDecidableAnd

/-- The id is that of a shell, and of no managed runtime. -/
structure Ready (w : World) (sessionId : SessionId) (shellPath : String) : Prop where
  unmanaged : findSession w.manager.managedNuSessions sessionId = none
  shell : ∃ session, findSession w.manager.persistentShellSessions sessionId = some session ∧
    session.shellPath = shellPath

/-- What a shell is sent for a command. -/
def sentLine (shellPath command : String) : String :=
  wrapCommandForCompletion shellPath command ++ "\r"

section Commands

variable {w w' : World} {sessionId : SessionId} {shellPath : String}

theorem Ready.changed (h : Ready w sessionId shellPath)
    {f : PersistentShellSession → PersistentShellSession}
    (hf : ∀ session, (f session).shellPath = session.shellPath)
    (hw : w'.manager = { w.manager with
      persistentShellSessions := updateSession sessionId f w.manager.persistentShellSessions }) :
    Ready w' sessionId shellPath := by
  obtain ⟨session, hsession, hpath⟩ := h.shell
  refine ⟨by rw [hw]; exact h.unmanaged, f session, ?_, (hf session).trans hpath⟩
  rw [hw]
  dsimp only
  rw [findSession_updateSession, hsession]
  rfl

theorem setEnvs_shellPath (updates : List (String × Option String))
    (session : PersistentShellSession) :
    (updates.foldl (fun session update => setEnv update.1 update.2 session) session).shellPath =
      session.shellPath := by
  induction updates generalizing session with
  | nil => rfl
  | cons update updates ih => exact ih _

theorem addToHistory_shellPath (command : String) (session : PersistentShellSession) :
    (addToHistory command session).shellPath = session.shellPath := by
  unfold addToHistory
  split <;> rfl

theorem requireShell (h : Ready w sessionId shellPath) : ∃ session,
    (requireSession SessionManager.persistentShellSessions sessionId).exec w = (.ok session, w) ∧
      session.shellPath = shellPath := by
  obtain ⟨session, hsession, hpath⟩ := h.shell
  refine ⟨session, ?_, hpath⟩
  rw [exec_requireSession, hsession]

theorem sendInput_cases (host : Host) (h : Ready w sessionId shellPath) (input : String) :
    ∃ w', Ready w' sessionId shellPath ∧
      ((host.accepts sessionId = true ∧
        w'.effects = w.effects ++ [.write sessionId (input ++ "\r")] ∧
        (sendInputToShellSession host sessionId input none).exec w = (.ok (), w')) ∨
      (host.accepts sessionId = false ∧ w'.effects = w.effects ∧ ∃ error,
        (sendInputToShellSession host sessionId input none).exec w = (.error error, w'))) := by
  obtain ⟨session, hrequire, -⟩ := requireShell h
  unfold sendInputToShellSession
  rw [exec_ok (show (checkInput host sessionId input none).exec w = (.ok (), w) from rfl),
    exec_ok hrequire]
  unfold updateSessionActivity
  rw [exec_ok (exec_change _)]
  cases haccepts : host.accepts sessionId with
  | true =>
    rw [if_pos rfl, exec_emit]
    refine ⟨_, ?_, .inl ⟨rfl, ?_, rfl⟩⟩
    · exact ⟨h.unmanaged, h.shell⟩
    · rfl
  | false =>
    rw [if_neg (by simp), exec_fail]
    refine ⟨_, ?_, .inr ⟨rfl, ?_, _, rfl⟩⟩
    · exact ⟨h.unmanaged, h.shell⟩
    · rfl

theorem sendWhenReady_cases (host : Host) (h : Ready w sessionId shellPath) (command : String) :
    ∃ w', Ready w' sessionId shellPath ∧
      (((host.becomesReady sessionId = true ∧ host.accepts sessionId = true) ∧
        w'.effects = w.effects ++ [.write sessionId (sentLine shellPath command)] ∧
          (sendWhenReady host sessionId command).exec w = (.ok (), w')) ∨
      (¬ (host.becomesReady sessionId = true ∧ host.accepts sessionId = true) ∧
        w'.effects = w.effects ∧ ∃ error,
          (sendWhenReady host sessionId command).exec w = (.error error, w'))) := by
  obtain ⟨session, hrequire, -⟩ := requireShell h
  unfold sendWhenReady waitUntilReady
  rw [exec_ok hrequire]
  by_cases hready : host.becomesReady sessionId = true
  · rw [if_pos hready, exec_ok (exec_pure _)]
    unfold changeShell
    rw [exec_ok (exec_change _)]
    have hchanged : Ready { w with manager := { w.manager with
        persistentShellSessions := updateSession sessionId (addToHistory command)
          w.manager.persistentShellSessions } } sessionId shellPath :=
      h.changed (addToHistory_shellPath command) rfl
    obtain ⟨entered, hentered, hpath⟩ := requireShell hchanged
    rw [exec_ok hentered, hpath]
    obtain ⟨w', hw', ⟨haccepts, heffects, hexec⟩ | ⟨haccepts, heffects, error, hexec⟩⟩ :=
      sendInput_cases host hchanged (wrapCommandForCompletion shellPath command)
    · exact ⟨w', hw', .inl ⟨⟨hready, haccepts⟩, heffects, hexec⟩⟩
    · exact ⟨w', hw', .inr ⟨by simp [haccepts], heffects, error, hexec⟩⟩
  · rw [if_neg hready]
    exact ⟨w, h, .inr ⟨fun hboth => hready hboth.1, rfl, _, exec_error (exec_fail _) _⟩⟩

theorem execCommand_cases (host : Host) (h : Ready w sessionId shellPath) (command : String)
    (timeoutMs : Option Nat) :
    ∃ w', Ready w' sessionId shellPath ∧ w'.tables = w.tables ∧
      ((Reaches host sessionId command ∧
        w'.effects = w.effects ++ [.write sessionId (sentLine shellPath command)] ∧ ∃ output,
          (execCommandInShellSession host sessionId command timeoutMs none).exec w =
            (.ok output, w')) ∨
      (¬ Reaches host sessionId command ∧ w'.effects = w.effects ∧ ∃ error,
        (execCommandInShellSession host sessionId command timeoutMs none).exec w =
          (.error error, w'))) := by
  have hexec : (execCommandInShellSession host sessionId command timeoutMs none).exec w =
      (execInPersistentShell host sessionId command timeoutMs none).exec w := by
    unfold execCommandInShellSession
    rw [exec_ok exec_getManager, h.unmanaged]
  have hkeeps := keeps_execInPersistentShell host sessionId command timeoutMs none w
  rw [hexec]
  obtain ⟨session, hrequire, -⟩ := requireShell h
  unfold execInPersistentShell at hkeeps ⊢
  rw [exec_ok hrequire] at hkeeps ⊢
  by_cases happroved : Approved (commandParts host command) yoloMode
  · obtain ⟨sandboxType, hadmitting⟩ := admitting_approved happroved session.sandboxPolicy true w
    rw [getD_none, exec_ok hadmitting] at hkeeps ⊢
    obtain ⟨w', hw', ⟨hready, heffects, hsend⟩ | ⟨hready, heffects, error, hsend⟩⟩ :=
      sendWhenReady_cases host h command
    · unfold changeShell at hkeeps ⊢
      rw [exec_ok hsend, exec_ok (exec_change _), exec_pure] at hkeeps ⊢
      refine ⟨_, ?_, hkeeps, .inl ⟨⟨happroved, hready⟩, heffects, _, rfl⟩⟩
      exact hw'.changed (setEnvs_shellPath _) rfl
    · rw [exec_error hsend] at hkeeps ⊢
      exact ⟨w', hw', hkeeps, .inr ⟨fun hreaches => hready hreaches.2, heffects, error, rfl⟩⟩
  · obtain ⟨code, reason, hdenied⟩ := admitting_denied (w := w) happroved session.sandboxPolicy []
      true
    rw [getD_none, exec_error hdenied]
    exact ⟨w, h, rfl, .inr ⟨fun hreaches => happroved hreaches.1, rfl, _, rfl⟩⟩

/-- A variable is set whether or not its line reaches the shell. -/
theorem perform_cases (host : Host) (h : Ready w sessionId shellPath) (command : RestoreCommand) :
    ∃ w', Ready w' sessionId shellPath ∧ w'.tables = w.tables ∧
      ((Reaches host sessionId (command.text host) ∧
        w'.effects = w.effects ++
          [.write sessionId (sentLine shellPath (command.text host))] ∧
        (command.perform host sessionId).exec w = (.ok (), w')) ∨
      (¬ Reaches host sessionId (command.text host) ∧ w'.effects = w.effects ∧
        ((command.required = true ∧ ∃ error,
          (command.perform host sessionId).exec w = (.error error, w')) ∨
        (command.required = false ∧ (command.perform host sessionId).exec w = (.ok (), w'))))) := by
  cases command with
  | changeDir cwd =>
    obtain ⟨w', hw', htables, ⟨hreaches, heffects, output, hexec⟩ |
      ⟨hreaches, heffects, error, hexec⟩⟩ := execCommand_cases host h
        ((RestoreCommand.changeDir cwd).text host) (some 5000)
    · exact ⟨w', hw', htables, .inl ⟨hreaches, heffects, exec_ok hexec _⟩⟩
    · exact ⟨w', hw', htables, .inr ⟨hreaches, heffects,
        .inl ⟨rfl, error, exec_error hexec _⟩⟩⟩
  | replay line =>
    obtain ⟨w', hw', htables, ⟨hreaches, heffects, output, hexec⟩ |
      ⟨hreaches, heffects, error, hexec⟩⟩ := execCommand_cases host h
        ((RestoreCommand.replay line).text host) (some 30000)
    · exact ⟨w', hw', htables, .inl ⟨hreaches, heffects, exec_ok hexec _⟩⟩
    · exact ⟨w', hw', htables, .inr ⟨hreaches, heffects,
        .inl ⟨rfl, error, exec_error hexec _⟩⟩⟩
  | setEnv key value =>
    have htables := keeps_setEnvInShellSession host sessionId key value w
    have hperform : (RestoreCommand.setEnv key value).perform host sessionId =
      setEnvInShellSession host sessionId key value := rfl
    rw [hperform]
    unfold setEnvInShellSession at htables ⊢
    rw [exec_ok exec_getManager, h.unmanaged] at htables ⊢
    dsimp only at htables ⊢
    obtain ⟨session, hrequire, -⟩ := requireShell h
    unfold changeShell at htables ⊢
    rw [exec_ok hrequire, exec_ok (exec_change _)] at htables ⊢
    have hset : Ready { w with manager := { w.manager with
        persistentShellSessions := updateSession sessionId (setEnv key (some value))
          w.manager.persistentShellSessions } } sessionId shellPath :=
      h.changed (f := setEnv key (some value)) (fun _ => rfl) rfl
    unfold ignoring at htables ⊢
    rw [exec_tryCatch] at htables ⊢
    obtain ⟨w', hw', -, ⟨hreaches, heffects, output, hexec⟩ |
      ⟨hreaches, heffects, error, hexec⟩⟩ := execCommand_cases host hset
        ("export " ++ key ++ "=" ++ shellSingleQuote value) (some 2000)
    · rw [exec_ok hexec] at htables ⊢
      exact ⟨w', hw', htables, .inl ⟨hreaches, heffects, rfl⟩⟩
    · rw [exec_error hexec] at htables ⊢
      exact ⟨w', hw', htables, .inr ⟨hreaches, heffects, .inr ⟨rfl, rfl⟩⟩⟩

/-- No command that the restore needs is turned away. -/
def Unhindered (sessionId : SessionId) (entries : List (Host × RestoreCommand)) : Prop :=
  ∀ entry ∈ entries, entry.2.required = true →
    Reaches entry.1 sessionId (entry.2.text entry.1)

/-- The lines of the commands that reach the shell. -/
def sentLines (sessionId : SessionId) (shellPath : String)
    (entries : List (Host × RestoreCommand)) : List String :=
  (entries.filter fun entry => Reaches entry.1 sessionId (entry.2.text entry.1)).map fun entry =>
    sentLine shellPath (entry.2.text entry.1)

/-- The induction follows the commands; each leaves the shell ready for the next. -/
theorem performInTurn_cases (h : Ready w sessionId shellPath)
    (entries : List (Host × RestoreCommand)) :
    ∃ w', w'.tables = w.tables ∧
      ((Unhindered sessionId entries ∧
        w'.effects = w.effects ++ (sentLines sessionId shellPath entries).map (.write sessionId) ∧
        (performInTurn sessionId entries).exec w = (.ok (), w')) ∨
      (¬ Unhindered sessionId entries ∧ ∃ error,
        (performInTurn sessionId entries).exec w = (.error error, w'))) := by
  induction entries generalizing w with
  | nil => exact ⟨w, rfl, .inl ⟨by simp [Unhindered], by simp [sentLines], rfl⟩⟩
  | cons entry entries ih =>
    obtain ⟨host, command⟩ := entry
    have hcons : Unhindered sessionId ((host, command) :: entries) ↔
        (command.required = true → Reaches host sessionId (command.text host)) ∧
          Unhindered sessionId entries := forall_mem_cons
    rw [performInTurn]
    obtain ⟨w', hw', htables, ⟨hreaches, heffects, hexec⟩ | ⟨hreaches, heffects, hexec⟩⟩ :=
      perform_cases host h command
    · rw [exec_ok hexec]
      have hlines : sentLines sessionId shellPath ((host, command) :: entries) =
          sentLine shellPath (command.text host) :: sentLines sessionId shellPath entries := by
        rw [sentLines, filter_cons_of_pos (by simpa using hreaches)]
        rfl
      obtain ⟨w'', htables', ⟨hrest, heffects', hexec'⟩ | ⟨hrest, error, hexec'⟩⟩ := ih hw'
      · refine ⟨w'', htables'.trans htables,
          .inl ⟨hcons.mpr ⟨fun _ => hreaches, hrest⟩, ?_, hexec'⟩⟩
        rw [heffects', heffects, hlines, map_cons, append_assoc]
        rfl
      · exact ⟨w'', htables'.trans htables,
          .inr ⟨fun hall => hrest (hcons.mp hall).2, error, hexec'⟩⟩
    · rcases hexec with ⟨hrequired, error, hexec⟩ | ⟨hrequired, hexec⟩
      · rw [exec_error hexec]
        exact ⟨w', htables, .inr ⟨fun hall => hreaches ((hcons.mp hall).1 hrequired), error, rfl⟩⟩
      · rw [exec_ok hexec]
        have hlines : sentLines sessionId shellPath ((host, command) :: entries) =
            sentLines sessionId shellPath entries := by
          rw [sentLines, filter_cons_of_neg (by simpa using hreaches)]
          rfl
        obtain ⟨w'', htables', ⟨hrest, heffects', hexec'⟩ | ⟨hrest, error, hexec'⟩⟩ := ih hw'
        · refine ⟨w'', htables'.trans htables, .inl ⟨hcons.mpr ⟨?_, hrest⟩, ?_, hexec'⟩⟩
          · intro hneeded
            rw [hrequired] at hneeded
            cases hneeded
          · rw [heffects', heffects, hlines]
        · exact ⟨w'', htables'.trans htables,
            .inr ⟨fun hall => hrest (hcons.mp hall).2, error, hexec'⟩⟩

end Commands

variable {σ ν : Type}

/-- The tables hold the same sessions, with the same metadata. -/
structure SameTables (m m' : SessionManager) : Prop where
  sessions : m'.sessions = m.sessions
  persistentShellSessions : m'.persistentShellSessions = m.persistentShellSessions
  managedNuSessions : m'.managedNuSessions = m.managedNuSessions
  semanticSearchSessions : m'.semanticSearchSessions = m.semanticSearchSessions
  sessionMetadata : m'.sessionMetadata = m.sessionMetadata

/-- A call that fails leaves the tables, and one that succeeds has done `done`. -/
def Atomic {α : Type} (w : World) (done : α → World → Prop) :
    Except ColossalErr α × World → Prop
  | (.ok a, w') => done a w'
  | (.error _, w') => SameTables w.manager w'.manager

/-- A shell stands where it stood, with the variables it had. -/
def ShellRestored (shell : LiveShell) (s : Snapshot ν) : Prop :=
  shell.cwd = s.currentCwd ∧ ∀ entry ∈ s.envVars, shell.env.lookup entry.1 = some entry.2

/-- The environment of a saved runtime, as values where these can be read. -/
def savedEnv (e : Nu.Engine σ ν) (s : Snapshot ν) : List (String × ν) :=
  match s.structuredEnv with
  | some (some entries) => entries
  | _ => s.envVars.map fun entry => (entry.1, e.string entry.2)

def EnvRestored (e : Nu.Engine σ ν) (rt : Nu.Runtime σ ν) (s : Snapshot ν) : Prop :=
  ∀ entry ∈ savedEnv e s, e.getEnvVar rt.engine entry.1 = some entry.2

/-- The lines written to a session between two worlds. -/
def written (sessionId : SessionId) (w w' : World) : List String :=
  (w'.effects.drop w.effects.length).filterMap fun effect =>
    match effect with
    | .write id line => if id = sessionId then some line else none
    | _ => none

/-- The shell of a session that was started in `cwd`. -/
def liveShell (terminal : Terminal) (cwd : String) (sessionId : SessionId) (w w' : World) :
    LiveShell := (written sessionId w w').foldl terminal.takes (terminal.starts cwd)

/-- A spawned session is a new one that stands where the snapshot was taken. -/
def SpawnDone (o : Outside σ ν) (sandboxPolicy : SandboxPolicy) (s : Snapshot ν) (w : World)
    (sessionId : SessionId) (w' : World) : Prop :=
  sessionId ∉ w.tables.ids ∧
    if isManagedNuShell s.shellPath then
      ∀ rt, o.builder.restored s.nu s.currentCwd sandboxPolicy = .ok rt →
        rt.currentCwd = s.currentCwd ∧ EnvRestored o.builder.engine rt s
    else ShellRestored (liveShell o.terminal s.currentCwd sessionId w w') s

/-- Loaded sessions stand where they were saved. -/
def LoadDone (sandboxPolicy : SandboxPolicy)
    (file : Except ColossalErr (List (Outside σ ν × Snapshot ν))) (w : World)
    (_ : List SessionId) (w' : World) : Prop :=
  ∀ sessions, file = .ok sessions → ∀ entry ∈ sessions,
    if isManagedNuShell entry.2.shellPath then
      ∀ rt, entry.1.builder.fromSnapshot entry.2.nu sandboxPolicy = .ok rt →
        rt.currentCwd = entry.2.currentCwd ∧ EnvRestored entry.1.builder.engine rt entry.2
    else ShellRestored
      (liveShell entry.1.terminal entry.2.initialCwd entry.2.sessionId w w') entry.2

/-- The shell does not come up; or its id is new, and then every `cd` and every replayed command is
taken and the lines sent leave the shell as it was saved, or the restored runtime keeps its
environment. -/
def SpawnWhole (o : Outside σ ν) (hosts : Nat → Host) (sandboxPolicy : SandboxPolicy)
    (s : Snapshot ν) (w : World) : Prop :=
  opens (o.spawning sandboxPolicy s) s.shellPath sandboxPolicy s.currentCwd = true →
    w.manager.nextId ∉ w.tables.ids ∧
      if isManagedNuShell s.shellPath then
        ∃ rt, o.builder.restored s.nu s.currentCwd sandboxPolicy = .ok rt ∧
          EnvRestored o.builder.engine rt s
      else
        let entries := withHosts hosts s.toPersistentSessionState
        Unhindered w.manager.nextId entries ∧
          ShellRestored ((sentLines w.manager.nextId s.shellPath entries).foldl o.terminal.takes
            (o.terminal.starts s.currentCwd)) s

/-- The session of an entry comes up, restored if it is a managed runtime. -/
def CameUp (sandboxPolicy : SandboxPolicy) (entry : Outside σ ν × Snapshot ν) : Prop :=
  comesUp (entry.1.loading entry.2) sandboxPolicy entry.2.toPersistentSessionState = true

/-- The first session of a file does not come up. -/
def StartsDown (sandboxPolicy : SandboxPolicy) (sessions : List (Outside σ ν × Snapshot ν)) :
    Prop :=
  ∃ first rest, sessions = first :: rest ∧ ¬ CameUp sandboxPolicy first

/-- The first session does not come up; or all do, each shell comes up in the directory that was
saved with the variables it had, and each runtime keeps its environment. -/
def LoadWhole (sandboxPolicy : SandboxPolicy) :
    Except ColossalErr (List (Outside σ ν × Snapshot ν)) → Prop
  | .error _ => True
  | .ok sessions =>
    StartsDown sandboxPolicy sessions ∨ ∀ entry ∈ sessions, CameUp sandboxPolicy entry ∧
        if isManagedNuShell entry.2.shellPath then
          ∀ rt, entry.1.builder.fromSnapshot entry.2.nu sandboxPolicy = .ok rt →
            EnvRestored entry.1.builder.engine rt entry.2
        else ShellRestored (entry.1.terminal.starts entry.2.initialCwd) entry.2

section Spawn

variable {host : Host} {w : World} {sessionId : SessionId} {shell cwd : String}
  {sandboxPolicy : SandboxPolicy}

theorem findSession_of_not_mem {α : Type} {table : List (SessionId × α)}
    (h : sessionId ∉ table.map Prod.fst) (session : α) :
    findSession (table ++ [(sessionId, session)]) sessionId = some session := by
  have hnone := findSession_none.mpr h
  unfold findSession at hnone ⊢
  rw [List.find?_append, map_eq_none_iff.mp hnone]
  simp

theorem not_mem_tables (h : sessionId ∉ w.tables.ids) :
    sessionId ∉ w.manager.persistentShellSessions.map Prod.fst ∧
      sessionId ∉ w.manager.managedNuSessions.map Prod.fst := by
  simp only [World.tables, SessionManager.tables, Tables.ids, List.map_map, List.mem_append,
    not_or] at h
  exact ⟨h.1.2, h.2⟩

/-- The session is found under its id where the id is new. -/
theorem added_found {m : SessionManager}
    (hshells : sessionId ∉ m.persistentShellSessions.map Prod.fst)
    (hmanaged : sessionId ∉ m.managedNuSessions.map Prod.fst) (effects : List Effect)
    (metadata : List (SessionId × SessionMetadata)) :
    if isManagedNuShell shell then
      (findSession (added shell sandboxPolicy cwd sessionId m).managedNuSessions sessionId).isSome
    else Ready ⟨{ added shell sandboxPolicy cwd sessionId m with sessionMetadata := metadata },
      effects⟩ sessionId shell := by
  by_cases hnu : isManagedNuShell shell = true
  · rw [if_pos hnu, added, if_pos hnu]
    exact findSession_append _ _ _
  · rw [if_neg hnu, added, if_neg hnu]
    refine ⟨findSession_none.mpr hmanaged, ?_⟩
    exact ⟨_, findSession_of_not_mem hshells _, rfl⟩

theorem create_cases_shell (timeoutDuration : Option Nat) (w : World) :
    (opens host shell sandboxPolicy cwd = true ∧ ∃ w',
      (createPersistentShellSession host shell sandboxPolicy cwd timeoutDuration).exec w =
        (.ok w.manager.nextId, w') ∧
      w'.tables = note w.manager.nextId (opening shell w.manager.nextId w.tables) ∧
      w'.effects = w.effects ∧
      (w.manager.nextId ∉ w.tables.ids →
        if isManagedNuShell shell then
          (findSession w'.manager.managedNuSessions w.manager.nextId).isSome
        else Ready w' w.manager.nextId shell)) ∨
    (opens host shell sandboxPolicy cwd = false ∧ ∃ error w',
      (createPersistentShellSession host shell sandboxPolicy cwd timeoutDuration).exec w =
        (.error error, w') ∧ SameTables w.manager w'.manager) := by
  have htables : ((createPersistentShellSession host shell sandboxPolicy cwd timeoutDuration).exec
      w).2.tables = if opens host shell sandboxPolicy cwd then
        note w.manager.nextId (opening shell w.manager.nextId w.tables) else w.tables :=
    createPersistentShellSession_tables timeoutDuration
  unfold createPersistentShellSession at htables ⊢
  rw [exec_ok (generate_exec w)] at htables ⊢
  rcases openSession_exec w.manager.nextId _ with ⟨hopens, hopen⟩ | ⟨hopens, error, hopen⟩
  · unfold createSessionMetadata at htables ⊢
    rw [exec_ok hopen, exec_ok (exec_change _), exec_pure] at htables ⊢
    rw [if_pos hopens] at htables
    refine .inl ⟨hopens, _, rfl, htables, rfl, fun hnew => ?_⟩
    obtain ⟨hshells, hmanaged⟩ := not_mem_tables hnew
    exact added_found (m := { w.manager with
      nextSessionId := (w.manager.nextSessionId + 1) % 4294967296 }) hshells hmanaged _ _
  · rw [exec_error hopen]
    exact .inr ⟨hopens, error, _, rfl, rfl, rfl, rfl, rfl, rfl⟩

theorem keeps_performInTurn (sessionId : SessionId) (entries : List (Host × RestoreCommand)) :
    KeepsUnmanaged sessionId (performInTurn sessionId entries) := by
  induction entries with
  | nil => exact (keeps_pure _).unmanaged
  | cons entry entries ih =>
    obtain ⟨host, command⟩ := entry
    refine unmanaged_bind ?_ fun _ => ih
    cases command with
    | setEnv key value => exact (keeps_setEnvInShellSession host sessionId key value).unmanaged
    | changeDir | replay =>
      exact unmanaged_bind (unmanaged_exec host _ _ _) fun _ => (keeps_pure _).unmanaged

theorem keeps_restoreInTurn (host : Host) (hosts : Nat → Host) (sessionId : SessionId)
    (state : PersistentSessionState) : Keeps (restoreInTurn host hosts sessionId state) := by
  intro w
  unfold restoreInTurn
  rw [exec_ok exec_getManager]
  cases hmanaged : findSession w.manager.managedNuSessions sessionId with
  | some runtime => exact keeps_bind (keeps_answer _) (fun _ => keeps_updateSessionActivity _ _) w
  | none => exact keeps_performInTurn sessionId _ w hmanaged

theorem SameTables.tables {w' : World} (h : SameTables w.manager w'.manager) :
    w'.tables = w.tables := by
  unfold World.tables SessionManager.tables
  rw [h.sessions, h.persistentShellSessions, h.managedNuSessions, h.sessionMetadata]

/-- A session more is no table as before. -/
theorem not_same_of_opened {w' : World} (shell : String) (sessionId : SessionId)
    (h : w'.tables = note sessionId (opening shell sessionId w.tables)) :
    ¬ SameTables w.manager w'.manager := by
  intro hsame
  have hlength := ((opening_opens shell sessionId).ids_perm w.tables).length_eq
  have hids : (note sessionId (opening shell sessionId w.tables)).ids = w.tables.ids := by
    rw [← h, hsame.tables]
  rw [Tables.note_ids] at hids
  rw [hids, length_cons] at hlength
  omega

end Spawn

section Claims

variable {w w' : World} {sandboxPolicy : SandboxPolicy} {sessionId : SessionId}

theorem written_of_effects {lines : List String}
    (h : w'.effects = w.effects ++ lines.map (.write sessionId)) :
    written sessionId w w' = lines := by
  rw [written, h, drop_left, filterMap_map]
  have hsome : (fun line => some line) = (fun effect : Effect => match effect with
      | .write id line => if id = sessionId then some line else none
      | _ => none) ∘ Effect.write sessionId := by
    funext line
    exact (if_pos rfl).symm
  rw [← hsome, filterMap_some]

theorem restoreNu_exec (host : Host) (hosts : Nat → Host) (state : PersistentSessionState)
    (h : (findSession w.manager.managedNuSessions sessionId).isSome) :
    (∃ w', host.restoresNu sessionId = .ok () ∧
      (restoreInTurn host hosts sessionId state).exec w = (.ok (), w')) ∨
    (∃ error, host.restoresNu sessionId = .error error ∧
      (restoreInTurn host hosts sessionId state).exec w = (.error error, w)) := by
  obtain ⟨runtime, hruntime⟩ := isSome_iff_exists.mp h
  unfold restoreInTurn
  rw [exec_ok exec_getManager, hruntime]
  dsimp only
  have hanswer := exec_answer (host.restoresNu sessionId) w
  rcases hnu : host.restoresNu sessionId with error | ⟨⟩
  · rw [hnu] at hanswer
    exact .inr ⟨error, rfl, exec_error hanswer _⟩
  · rw [hnu] at hanswer
    exact .inl ⟨_, rfl, exec_ok hanswer _⟩

theorem spawn_managed (o : Outside σ ν) (hosts : Nat → Host) (s : Snapshot ν)
    (hnu : isManagedNuShell s.shellPath = true) (hnew : w.manager.nextId ∉ w.tables.ids)
    (hfound : (findSession w'.manager.managedNuSessions w.manager.nextId).isSome)
    (hopened : ¬ SameTables w.manager w'.manager) :
    Atomic w (SpawnDone o sandboxPolicy s w)
        ((restoreInTurn (o.spawning sandboxPolicy s) hosts w.manager.nextId
          s.toPersistentSessionState >>= fun _ => pure w.manager.nextId).exec w') ↔
      ∃ rt, o.builder.restored s.nu s.currentCwd sandboxPolicy = .ok rt ∧
        EnvRestored o.builder.engine rt s := by
  have hanswer : (o.spawning sandboxPolicy s).restoresNu w.manager.nextId =
      nuAnswer (o.builder.restored s.nu s.currentCwd sandboxPolicy) := rfl
  rcases restoreNu_exec (o.spawning sandboxPolicy s) hosts s.toPersistentSessionState hfound with
    ⟨w'', hok, hexec⟩ | ⟨error, herror, hexec⟩
  · rw [exec_ok hexec, exec_pure]
    rw [hanswer] at hok
    rcases hrestored : o.builder.restored s.nu s.currentCwd sandboxPolicy with error | rt
    · rw [hrestored] at hok
      cases hok
    · rw [Atomic, SpawnDone, and_iff_right hnew, if_pos hnu, hrestored]
      constructor
      · intro hall
        exact ⟨rt, rfl, (hall rt rfl).2⟩
      · rintro ⟨rt', heq, henv⟩ rt'' heq'
        obtain rfl := Except.ok.inj heq
        obtain rfl := Except.ok.inj heq'
        exact ⟨Nu.Builder.restored_cwd hrestored, henv⟩
  · rw [exec_error hexec]
    rw [hanswer] at herror
    refine iff_of_false hopened ?_
    rintro ⟨rt, hrestored, -⟩
    rw [hrestored] at herror
    cases herror

theorem spawn_shell (o : Outside σ ν) (hosts : Nat → Host) (s : Snapshot ν)
    (hnu : isManagedNuShell s.shellPath ≠ true) (hnew : w.manager.nextId ∉ w.tables.ids)
    (hready : Ready w' w.manager.nextId s.shellPath) (heffects : w'.effects = w.effects)
    (hopened : ∀ w'' : World, w''.tables = w'.tables → ¬ SameTables w.manager w''.manager) :
    Atomic w (SpawnDone o sandboxPolicy s w)
        ((restoreInTurn (o.spawning sandboxPolicy s) hosts w.manager.nextId
          s.toPersistentSessionState >>= fun _ => pure w.manager.nextId).exec w') ↔
      Unhindered w.manager.nextId (withHosts hosts s.toPersistentSessionState) ∧
        ShellRestored ((sentLines w.manager.nextId s.shellPath
          (withHosts hosts s.toPersistentSessionState)).foldl o.terminal.takes
            (o.terminal.starts s.currentCwd)) s := by
  have hrestore : (restoreInTurn (o.spawning sandboxPolicy s) hosts w.manager.nextId
      s.toPersistentSessionState).exec w' = (performInTurn w.manager.nextId
        (withHosts hosts s.toPersistentSessionState)).exec w' := by
    unfold restoreInTurn
    rw [exec_ok exec_getManager, hready.unmanaged]
  obtain ⟨w'', htables, ⟨hall, hsent, hexec⟩ | ⟨hall, error, hexec⟩⟩ :=
    performInTurn_cases hready (withHosts hosts s.toPersistentSessionState)
  · rw [exec_ok (hrestore.trans hexec), exec_pure, Atomic, SpawnDone, and_iff_right hnew,
      if_neg hnu, and_iff_right hall, liveShell, written_of_effects (heffects ▸ hsent)]
  · rw [exec_error (hrestore.trans hexec)]
    exact iff_of_false (hopened w'' htables) fun hboth => hall hboth.1

theorem spawn_atomic_iff (o : Outside σ ν) (hosts : Nat → Host) (sandboxPolicy : SandboxPolicy)
    (s : Snapshot ν) (w : World) :
    Atomic w (SpawnDone o sandboxPolicy s w)
        ((spawnShellSessionWithSnapshot o hosts sandboxPolicy s).exec w) ↔
      SpawnWhole o hosts sandboxPolicy s w := by
  unfold spawnShellSessionWithSnapshot
  rcases create_cases_shell none w with ⟨hopens, w', hcreate, htables, heffects, hfound⟩ |
    ⟨hopens, error, w', hcreate, hsame⟩
  · have hopened : ∀ w'' : World, w''.tables = w'.tables → ¬ SameTables w.manager w''.manager :=
      fun w'' hw'' => not_same_of_opened s.shellPath w.manager.nextId (hw''.trans htables)
    rw [exec_ok hcreate, SpawnWhole, imp_iff_right hopens]
    by_cases hnew : w.manager.nextId ∈ w.tables.ids
    · refine iff_of_false ?_ fun hboth => hboth.1 hnew
      have hkeeps := keeps_restoreInTurn (o.spawning sandboxPolicy s) hosts w.manager.nextId
        s.toPersistentSessionState w'
      rw [exec_bind]
      rcases hexec : (restoreInTurn (o.spawning sandboxPolicy s) hosts w.manager.nextId
        s.toPersistentSessionState).exec w' with ⟨error | ⟨⟩, w''⟩
      · rw [hexec] at hkeeps
        exact hopened w'' hkeeps
      · exact fun hdone => hdone.1 hnew
    · have hfound := hfound hnew
      rw [and_iff_right hnew]
      by_cases hnu : isManagedNuShell s.shellPath = true
      · rw [if_pos hnu] at hfound ⊢
        exact spawn_managed o hosts s hnu hnew hfound (hopened w' rfl)
      · rw [if_neg hnu] at hfound ⊢
        exact spawn_shell o hosts s hnu hnew hfound heffects hopened
  · rw [exec_error hcreate]
    refine iff_of_true hsame fun hup => ?_
    rw [hopens] at hup
    cases hup

theorem SameTables.refl (m : SessionManager) : SameTables m m := ⟨rfl, rfl, rfl, rfl, rfl⟩

theorem loadSession_effects (sandboxPolicy : SandboxPolicy) (host : Host)
    (state : PersistentSessionState) (w : World) :
    ((loadSession host sandboxPolicy state).exec w).2.effects = w.effects := by
  unfold loadSession
  by_cases hnu : isManagedNuShell state.shellPath = true
  · rw [if_pos hnu]
    have hanswer := exec_answer (host.opensNu state.shellPath sandboxPolicy state.initialCwd) w
    rcases hopens : host.opensNu state.shellPath sandboxPolicy state.initialCwd with error | ⟨⟩
    · rw [hopens] at hanswer
      rw [exec_error hanswer]
    · rw [hopens] at hanswer
      rw [exec_ok hanswer]
      rfl
  · rw [if_neg hnu]
    have hanswer := exec_answer (host.opensShell state.shellPath sandboxPolicy state.initialCwd) w
    rcases hopens : host.opensShell state.shellPath sandboxPolicy state.initialCwd with error | ⟨⟩
    · rw [hopens] at hanswer
      rw [exec_error hanswer]
    · rw [hopens] at hanswer
      rw [exec_ok hanswer]
      rfl

theorem enter_length (t : Tables) (state : PersistentSessionState) :
    (enter t state).ids.length = t.ids.length + 1 := (enter_ids t state).length_eq

theorem startsDown_cons {entry : Outside σ ν × Snapshot ν}
    {sessions : List (Outside σ ν × Snapshot ν)} :
    StartsDown sandboxPolicy (entry :: sessions) ↔ ¬ CameUp sandboxPolicy entry := by
  constructor
  · rintro ⟨first, rest, heq, hdown⟩
    obtain ⟨rfl, -⟩ := List.cons.inj heq
    exact hdown
  · exact fun hdown => ⟨entry, sessions, rfl, hdown⟩

/-- The sessions of a file come up one after the other, and those that have come up stay. -/
theorem loadInTurn_cases (sandboxPolicy : SandboxPolicy)
    (sessions : List (Outside σ ν × Snapshot ν)) (w : World) :
    ((∀ entry ∈ sessions, CameUp sandboxPolicy entry) ∧ ∃ ids w',
      (loadInTurn sandboxPolicy sessions).exec w = (.ok ids, w') ∧ w'.effects = w.effects) ∨
    (¬ (∀ entry ∈ sessions, CameUp sandboxPolicy entry) ∧ ∃ error w',
      (loadInTurn sandboxPolicy sessions).exec w = (.error error, w') ∧
        (StartsDown sandboxPolicy sessions ∧ w' = w ∨
          ¬ StartsDown sandboxPolicy sessions ∧
            w.tables.ids.length < w'.tables.ids.length)) := by
  induction sessions generalizing w with
  | nil => exact .inl ⟨by simp, [], w, rfl, rfl⟩
  | cons entry sessions ih =>
    obtain ⟨o, s⟩ := entry
    have heffects := loadSession_effects sandboxPolicy (o.loading s) s.toPersistentSessionState w
    rw [loadInTurn, forall_mem_cons, startsDown_cons]
    rcases loadSession_cases s.toPersistentSessionState w with
      ⟨hup, w', hload, htables⟩ | ⟨hup, error, hload⟩
    · have hcame : CameUp sandboxPolicy (o, s) := hup
      rw [hload] at heffects
      rw [exec_ok hload, and_iff_right hcame, not_not]
      have hlength := enter_length w.tables s.toPersistentSessionState
      rw [← htables] at hlength
      rcases ih w' with ⟨hall, ids, w'', hrest, hrestEffects⟩ | ⟨hall, error, w'', hrest, hcase⟩
      · rw [exec_ok hrest]
        exact .inl ⟨hall, _, w'', rfl, hrestEffects.trans heffects⟩
      · rw [exec_error hrest]
        refine .inr ⟨hall, error, w'', rfl, .inr ⟨hcame, ?_⟩⟩
        rcases hcase with ⟨-, rfl⟩ | ⟨-, hless⟩ <;> omega
    · have hdown : ¬ CameUp sandboxPolicy (o, s) := by
        intro hcame
        have hcame : comesUp (o.loading s) sandboxPolicy s.toPersistentSessionState = true := hcame
        rw [hup] at hcame
        cases hcame
      rw [exec_error hload]
      exact .inr ⟨fun hboth => hdown hboth.1, error, w, rfl, .inl ⟨hdown, rfl⟩⟩

theorem load_atomic_iff (sandboxPolicy : SandboxPolicy)
    (file : Except ColossalErr (List (Outside σ ν × Snapshot ν))) (w : World) :
    Atomic w (LoadDone sandboxPolicy file w)
        ((loadSessionStateInTurn sandboxPolicy file).exec w) ↔ LoadWhole sandboxPolicy file := by
  unfold loadSessionStateInTurn
  cases file with
  | error error => exact iff_of_true (SameTables.refl _) trivial
  | ok sessions =>
    rw [exec_ok (exec_answer (.ok sessions) w), LoadWhole]
    rcases loadInTurn_cases sandboxPolicy sessions w with
      ⟨hall, ids, w', hexec, heffects⟩ | ⟨hall, error, w', hexec, hcase⟩
    · have hfirst : ¬ StartsDown sandboxPolicy sessions := by
        rintro ⟨first, rest, rfl, hdown⟩
        exact hdown (hall first mem_cons_self)
      have hlive (terminal : Terminal) (cwd : String) (sessionId : SessionId) :
          liveShell terminal cwd sessionId w w' = terminal.starts cwd := by
        rw [liveShell, written, heffects, drop_length]
        rfl
      rw [hexec, or_iff_right hfirst]
      constructor
      · intro hdone entry hentry
        have hentryDone := hdone sessions rfl entry hentry
        refine ⟨hall entry hentry, ?_⟩
        by_cases hnu : isManagedNuShell entry.2.shellPath = true
        · rw [if_pos hnu] at hentryDone ⊢
          exact fun rt hrt => (hentryDone rt hrt).2
        · rw [if_neg hnu] at hentryDone ⊢
          rwa [hlive] at hentryDone
      · intro hwhole sessions' heq entry hentry
        obtain rfl := Except.ok.inj heq
        have hentryWhole := (hwhole entry hentry).2
        by_cases hnu : isManagedNuShell entry.2.shellPath = true
        · rw [if_pos hnu] at hentryWhole ⊢
          exact fun rt hrt => ⟨Nu.Builder.restored_cwd hrt, hentryWhole rt hrt⟩
        · rw [if_neg hnu] at hentryWhole ⊢
          rwa [hlive]
    · rw [hexec]
      rcases hcase with ⟨hdown, rfl⟩ | ⟨hdown, hless⟩
      · exact iff_of_true (SameTables.refl _) (.inl hdown)
      · refine iff_of_false (fun hsame => ?_) ?_
        · have hsame : SameTables w.manager w'.manager := hsame
          rw [hsame.tables] at hless
          exact absurd hless (lt_irrefl _)
        · rintro (hfirst | hrest)
          · exact hdown hfirst
          · exact hall fun entry hentry => (hrest entry hentry).1

end Claims

end Shells

def outside (opensShell : Except ColossalErr Unit) : Outside Unit Unit where
  host := { openHost with opensShell := fun _ _ _ => opensShell }
  builder := ⟨Nu.echoEngine, .ok (), fun s _ => (.ok (), s), fun s _ => s⟩
  terminal := ⟨fun cwd => ⟨cwd, []⟩, fun shell _ => shell⟩

def bashSnapshot (sessionId : SessionId) : Snapshot Unit where
  sessionId := sessionId
  shellPath := "/bin/bash"
  initialCwd := "/repo"
  envVars := []
  currentCwd := "/repo"
  replayCommands := []
  structuredEnv := none
  nuVars := []
  nuCustomCommands := []
  nuAliases := []
  nuReplayCommands := []
  nuConfig := none

def twoSessions : List (Outside Unit Unit × Snapshot Unit) :=
  [(outside (.ok ()), bashSnapshot "7_0"),
    (outside (.error (.io "no pty left")), bashSnapshot "7_1")]

end ColossalCode.Sessionizer
