import ColossalCode.Sessionizer.Consistency

/-! The operations that enter a session in the tables or take one out. -/
namespace ColossalCode.Sessionizer
open List SessionManager

open Tables (openExec openShell openManaged note close)

variable {host : Host} {w : World} {sessionId : SessionId} (session : ExecCommandSession)

theorem addSession_ok (w : World) :
    (addSession sessionId session).exec w =
      (.ok (), ((addSession sessionId session).exec w).2) := rfl

theorem addSession_tables (h : session.exited = false) :
    ((addSession sessionId session).exec w).2.tables = openExec sessionId w.tables := by
  unfold addSession
  rw [Op.exec_change]
  simp [World.tables, tables, openExec, h]

theorem addShell_tables (session : PersistentShellSession) (h : session.exited = false) :
    ((addShell sessionId session).exec w).2.tables = openShell sessionId w.tables := by
  unfold addShell
  rw [Op.exec_change]
  simp [World.tables, tables, openShell, h]

theorem addManagedNu_tables (runtime : ManagedNuRuntime) :
    ((addManagedNu sessionId runtime).exec w).2.tables = openManaged sessionId w.tables := by
  unfold addManagedNu
  rw [Op.exec_change]
  simp [World.tables, tables, openManaged]

theorem createSessionMetadata_tables (timeoutDuration : Nat) :
    ((createSessionMetadata host sessionId timeoutDuration).exec w).2.tables =
      note sessionId w.tables := by
  unfold createSessionMetadata
  rw [Op.exec_change]
  simp only [World.tables, tables, note, insertMetadata, map_cons,
    filter_map]
  rfl

theorem removeSession_map {α β : Type} (f : α → β) (table : List (SessionId × α)) :
    (removeSession sessionId table).map (fun entry => (entry.1, f entry.2)) =
      (table.map fun entry => (entry.1, f entry.2)).eraseP (·.1 == sessionId) := by
  rw [eraseP_map]
  rfl

theorem mem_entries {α β : Type} (f : α → β) (table : List (SessionId × α)) :
    sessionId ∈ (table.map fun entry => (entry.1, f entry.2)).map Prod.fst ↔
      sessionId ∈ table.map Prod.fst := by
  rw [map_map]
  rfl

/-- Whatever kind the session has. -/
theorem terminateSession_tables (sessionId : SessionId) (w : World) :
    ((terminateSession sessionId).exec w).2.tables = close sessionId w.tables := by
  unfold terminateSession
  rw [Op.exec_ok Op.exec_getManager]
  simp only [findSession_isSome]
  unfold close
  simp only [World.tables, tables, mem_entries]
  split_ifs with hexec hshell hmanaged hsemantic
  · rw [Op.exec_ok (Op.exec_change _), Op.exec_emit]
    simp only [removeSession_map]
  · rw [Op.exec_ok (Op.exec_change _), Op.exec_emit]
    simp only [removeSession_map]
  · rw [Op.exec_change]
    simp only [removeSession, eraseP_map]
    rfl
  · rw [Op.exec_ok (Op.exec_change _), Op.exec_emit]
    rw [eraseP_of_forall_not]
    intro id hid heq
    exact hmanaged (beq_iff_eq.mp heq ▸ hid)
  · rw [eraseP_of_forall_not]
    · rfl
    intro id hid heq
    exact hmanaged (beq_iff_eq.mp heq ▸ hid)

/-- The command can be put together and its process started. -/
def starts (host : Host) (params : ExecCommandParams) : Bool :=
  match params.shell.formatDefaultShellInvocation host.tryJoin params.command with
  | none => false
  | some formattedCommand =>
    match host.tryJoin formattedCommand with
    | none => false
    | some commandStr => (host.spawns commandStr params).isOk

/-- A process that is started runs. -/
theorem create_cases (host : Host) (params : ExecCommandParams) (w : World) :
    (starts host params = true ∧ ∃ session effect,
      (createSandboxedExecSession host params).exec w =
        (.ok session, { w with effects := w.effects ++ [effect] }) ∧ session.exited = false) ∨
    (starts host params = false ∧ ∃ error,
      (createSandboxedExecSession host params).exec w = (.error error, w)) := by
  unfold starts createSandboxedExecSession
  cases params.shell.formatDefaultShellInvocation host.tryJoin params.command with
  | none => exact .inr ⟨rfl, _, rfl⟩
  | some formattedCommand =>
    dsimp only
    cases host.tryJoin formattedCommand with
    | none => exact .inr ⟨rfl, _, rfl⟩
    | some commandStr =>
      dsimp only
      rcases host.spawns commandStr params with (_ | message) | ⟨⟩
      · exact .inr ⟨rfl, _, rfl⟩
      · exact .inr ⟨rfl, _, rfl⟩
      · exact .inl ⟨rfl, _, _, rfl, rfl⟩

theorem generate_exec (w : World) :
    generateUniqueSessionId.exec w = (.ok w.manager.nextId, { w with
      manager := { w.manager with
        nextSessionId := (w.manager.nextSessionId + 1) % 4294967296 } }) := rfl

theorem admitting_approved {command : List String} {askForApproval : AskForApproval}
    (h : Approved command askForApproval) (sandboxPolicy : SandboxPolicy)
    (isPty : Bool) (w : World) :
    ∃ sandboxType, (admitting (assessCommandSafety command askForApproval sandboxPolicy []
      isPty)).exec w = (.ok sandboxType, w) := by
  rw [Op.exec_admitting, clearance_approved _ _ _ _ _ h]
  exact ⟨_, rfl⟩

/-- A command that is let through starts a session that has no metadata. -/
theorem streamAfter_tables (command : List String) (askForApproval : AskForApproval)
    (params : ExecCommandParams) :
    ((streamAfter host (assessCommandSafety command askForApproval params.sandboxPolicy [] false)
      params).exec w).2.tables =
    if Approved command askForApproval ∧ starts host params then openExec w.manager.nextId w.tables
    else w.tables := by
  unfold streamAfter
  by_cases happroved : Approved command askForApproval
  · obtain ⟨sandboxType, hadmitting⟩ := admitting_approved happroved params.sandboxPolicy false w
    rw [Op.exec_ok hadmitting, Op.exec_ok (generate_exec w)]
    rcases create_cases host params _ with ⟨hstarts, session, effect, hcreate, hexited⟩ |
      ⟨hstarts, error, hcreate⟩
    · rw [Op.exec_ok hcreate, if_pos ⟨happroved, hstarts⟩, tables_bind]
      · exact addSession_tables session hexited
      · exact fun _ => keeps_bind (keeps_requireSession _ _) fun _ => keeps_pure _
    · rw [Op.exec_error hcreate, if_neg fun h => by simp [hstarts] at h]
      rfl
  · obtain ⟨code, reason, hdenied⟩ := admitting_denied (w := w) happroved params.sandboxPolicy []
      false
    rw [Op.exec_error hdenied, if_neg fun h => happroved h.1]

/-- A command of a request is noted with its session. -/
theorem handleExec_tables (params : ExecCommandParams) :
    ((handleExecCommandRequest host params).exec w).2.tables =
    if Approved params.command (params.askForApproval.getD yoloMode) ∧ starts host params then
      note w.manager.nextId (openExec w.manager.nextId w.tables)
    else w.tables := by
  unfold handleExecCommandRequest
  by_cases happroved : Approved params.command (params.askForApproval.getD yoloMode)
  · obtain ⟨sandboxType, hadmitting⟩ := admitting_approved happroved params.sandboxPolicy false w
    rw [Op.exec_ok hadmitting, Op.exec_ok (generate_exec w)]
    rcases create_cases host params _ with ⟨hstarts, session, effect, hcreate, hexited⟩ |
      ⟨hstarts, error, hcreate⟩
    · have hgo : Approved params.command (params.askForApproval.getD yoloMode) ∧
          starts host params := ⟨happroved, hstarts⟩
      rw [Op.exec_ok hcreate, Op.exec_ok (addSession_ok session _), tables_bind, if_pos hgo]
      · rw [createSessionMetadata_tables, addSession_tables session hexited]
        rfl
      · intro _
        refine keeps_bind (keeps_requireSession _ _) fun _ => ?_
        split
        · exact keeps_pure _
        · exact keeps_pure _
    · rw [Op.exec_error hcreate, if_neg]
      · rfl
      · exact fun h => by simp [hstarts] at h
  · obtain ⟨code, reason, hdenied⟩ := admitting_denied (w := w) happroved params.sandboxPolicy []
      false
    rw [Op.exec_error hdenied, if_neg fun h => happroved h.1]

end ColossalCode.Sessionizer

/-! Shells enter the tables, from scratch or from a file, and a managed runtime that takes too long
leaves them. -/
namespace ColossalCode.Sessionizer
open List

open Tables (Opens openShell openManaged note close)

variable {host : Host} {w : World} {sessionId : SessionId} {shell cwd : String}
  {sandboxPolicy : SandboxPolicy}

/-- The shell comes up. -/
def opens (host : Host) (shell : String) (sandboxPolicy : SandboxPolicy) (cwd : String) : Bool :=
  if isManagedNuShell shell then (host.opensNu shell sandboxPolicy cwd).isOk
  else (host.opensShell shell sandboxPolicy cwd).isOk

/-- The table it enters. -/
def opening (shell : String) (sessionId : SessionId) : Tables → Tables :=
  if isManagedNuShell shell then openManaged sessionId else openShell sessionId

theorem opening_opens (shell : String) (sessionId : SessionId) :
    Opens (opening shell sessionId) sessionId := by
  unfold opening
  split
  · exact Tables.openManaged_opens sessionId
  · exact Tables.openShell_opens sessionId

theorem exec_answer {α : Type} (result : Except ColossalErr α) (w : World) :
    (answer result).exec w = (result, w) := by
  cases result <;> rfl

/-- A session that comes up is added to its table. -/
def added (shell : String) (sandboxPolicy : SandboxPolicy) (cwd : String) (sessionId : SessionId)
    (m : SessionManager) : SessionManager :=
  if isManagedNuShell shell then
    { m with managedNuSessions :=
        m.managedNuSessions ++ [(sessionId, ⟨shell, cwd, sandboxPolicy⟩)] }
  else { m with persistentShellSessions := m.persistentShellSessions ++
    [(sessionId, ⟨shell, cwd, cwd, [], [], sandboxPolicy, false⟩)] }

/-- A shell that does not come up changes nothing. -/
theorem openSession_exec (sessionId : SessionId) (w : World) :
    (opens host shell sandboxPolicy cwd = true ∧
      (openSession host sessionId shell sandboxPolicy cwd).exec w =
        (.ok (), { w with manager := added shell sandboxPolicy cwd sessionId w.manager })) ∨
    (opens host shell sandboxPolicy cwd = false ∧ ∃ error,
      (openSession host sessionId shell sandboxPolicy cwd).exec w = (.error error, w)) := by
  unfold opens openSession added
  split
  · have hanswer := exec_answer (host.opensNu shell sandboxPolicy cwd) w
    rcases hnu : host.opensNu shell sandboxPolicy cwd with error | ⟨⟩
    · rw [hnu] at hanswer
      exact .inr ⟨rfl, error, Op.exec_error hanswer _⟩
    · rw [hnu] at hanswer
      exact .inl ⟨rfl, Op.exec_ok hanswer _⟩
  · have hanswer := exec_answer (host.opensShell shell sandboxPolicy cwd) w
    rcases hshell : host.opensShell shell sandboxPolicy cwd with error | ⟨⟩
    · rw [hshell] at hanswer
      exact .inr ⟨rfl, error, Op.exec_error hanswer _⟩
    · rw [hshell] at hanswer
      exact .inl ⟨rfl, Op.exec_ok hanswer _⟩

theorem added_tables (sessionId : SessionId) (w : World) :
    { w with manager := added shell sandboxPolicy cwd sessionId w.manager }.tables =
      opening shell sessionId w.tables := by
  unfold added opening
  split
  · exact addManagedNu_tables _
  · exact addShell_tables _ rfl

theorem createPersistentShellSession_tables (timeoutDuration : Option Nat) :
    ((createPersistentShellSession host shell sandboxPolicy cwd timeoutDuration).exec w).2.tables =
    if opens host shell sandboxPolicy cwd then
      note w.manager.nextId (opening shell w.manager.nextId w.tables)
    else w.tables := by
  unfold createPersistentShellSession
  rw [Op.exec_ok (generate_exec w)]
  rcases openSession_exec w.manager.nextId _ with ⟨hopens, hopen⟩ | ⟨hopens, error, hopen⟩
  · rw [Op.exec_ok hopen, if_pos hopens, tables_bind fun _ => keeps_pure _,
      createSessionMetadata_tables, added_tables]
    rfl
  · rw [Op.exec_error hopen, if_neg (by simp [hopens])]
    rfl

theorem setEnv_fold_exited (entries : List (String × String)) (session : PersistentShellSession) :
    (entries.foldl (fun session entry => setEnv entry.1 (some entry.2) session) session).exited =
      session.exited := by
  induction entries generalizing session with
  | nil => rfl
  | cons entry entries ih => exact ih _

/-- The shell of a saved session comes up. -/
def comesUp (host : Host) (sandboxPolicy : SandboxPolicy) (state : PersistentSessionState) : Bool :=
  opens host state.shellPath sandboxPolicy state.initialCwd

/-- A saved session enters the tables. -/
def enter (t : Tables) (state : PersistentSessionState) : Tables :=
  note state.sessionId (opening state.shellPath state.sessionId t)

theorem loadSession_cases (state : PersistentSessionState) (w : World) :
    (comesUp host sandboxPolicy state = true ∧
      ∃ w', (loadSession host sandboxPolicy state).exec w = (.ok state.sessionId, w') ∧
        w'.tables = enter w.tables state) ∨
    (comesUp host sandboxPolicy state = false ∧
      ∃ error, (loadSession host sandboxPolicy state).exec w = (.error error, w)) := by
  unfold comesUp opens enter opening loadSession
  split
  · have hanswer := exec_answer (host.opensNu state.shellPath sandboxPolicy state.initialCwd) w
    rcases hnu : host.opensNu state.shellPath sandboxPolicy state.initialCwd with error | ⟨⟩
    · rw [hnu] at hanswer
      exact .inr ⟨rfl, error, Op.exec_error hanswer _⟩
    · rw [hnu] at hanswer
      refine .inl ⟨rfl, _, Op.exec_ok hanswer _, ?_⟩
      exact (createSessionMetadata_tables 1800000).trans (congrArg _ (addManagedNu_tables _))
  · have hanswer := exec_answer (host.opensShell state.shellPath sandboxPolicy state.initialCwd) w
    rcases hshell : host.opensShell state.shellPath sandboxPolicy state.initialCwd with error | ⟨⟩
    · rw [hshell] at hanswer
      exact .inr ⟨rfl, error, Op.exec_error hanswer _⟩
    · rw [hshell] at hanswer
      refine .inl ⟨rfl, _, Op.exec_ok hanswer _, ?_⟩
      exact (createSessionMetadata_tables 1800000).trans
        (congrArg _ (addShell_tables _ (setEnv_fold_exited _ _)))

/-- The sessions up to the first whose shell does not come up. -/
def loaded (host : Host) (sandboxPolicy : SandboxPolicy) (states : List PersistentSessionState) :
    List PersistentSessionState := states.takeWhile (comesUp host sandboxPolicy)

variable (states : List PersistentSessionState)

theorem loadSessions_tables (w : World) :
    ((loadSessions host sandboxPolicy states).exec w).2.tables =
      (loaded host sandboxPolicy states).foldl enter w.tables := by
  induction states generalizing w with
  | nil => rfl
  | cons state states ih =>
    unfold loadSessions loaded
    rcases loadSession_cases state w with ⟨hup, w', hload, htables⟩ | ⟨hup, error, hload⟩
    · rw [Op.exec_ok hload, takeWhile_cons_of_pos hup, foldl_cons, ← htables,
        tables_bind fun _ => keeps_pure _]
      exact ih w'
    · rw [Op.exec_error hload, takeWhile_cons_of_neg (by simp [hup])]
      rfl

theorem enter_ids (t : Tables) (state : PersistentSessionState) :
    (enter t state).ids.Perm (state.sessionId :: t.ids) := by
  rw [enter, Tables.note_ids]
  exact (opening_opens state.shellPath state.sessionId).ids_perm t

theorem middle_perm (t : Tables) (state : PersistentSessionState) (ids : List SessionId) :
    (ids ++ (enter t state).ids).Perm (state.sessionId :: (ids ++ t.ids)) :=
  ((enter_ids t state).append_left ids).trans perm_middle

theorem entered_ids (t : Tables) :
    (states.foldl enter t).ids.Perm (states.map PersistentSessionState.sessionId ++ t.ids) := by
  induction states generalizing t with
  | nil => exact .refl _
  | cons state states ih =>
    rw [foldl_cons, map_cons, cons_append]
    exact (ih (enter t state)).trans (middle_perm t state _)

/-- Saved sessions belong with the others if all their ids are new. -/
theorem entered_consistent_iff {t : Tables} (ht : t.Consistent)
    (states : List PersistentSessionState) :
    (states.foldl enter t).Consistent ↔
      (states.map PersistentSessionState.sessionId ++ t.ids).Nodup := by
  constructor
  · intro h
    exact (entered_ids states t).nodup_iff.mp h.distinct
  · intro hnodup
    induction states generalizing t with
    | nil => exact ht
    | cons state states ih =>
      rw [map_cons, cons_append] at hnodup
      obtain ⟨hid, -⟩ := nodup_cons.mp hnodup
      have hnew : state.sessionId ∉ t.ids := fun hmem => hid (mem_append_right _ hmem)
      have hentered : (enter t state).Consistent :=
        (Tables.note_consistent_iff (opening_opens state.shellPath state.sessionId) ht).mpr hnew
      rw [foldl_cons]
      exact ih hentered ((middle_perm t state _).nodup_iff.mpr hnodup)

/-- The evaluation of a command takes too long. -/
def overruns (host : Host) (sessionId : SessionId) (command : String) (timeoutMs : Option Nat) :
    Bool :=
  match host.evaluates sessionId command timeoutMs with
  | .ok none => true
  | _ => false

/-- A managed runtime is ended by a command that takes too long. -/
def EndsRuntime (host : Host) (m : SessionManager) (sessionId : SessionId) (command : String)
    (timeoutMs : Option Nat) (askForApproval : Option AskForApproval) : Prop :=
  (findSession m.managedNuSessions sessionId).isSome ∧
    Approved (commandParts host command) (askForApproval.getD yoloMode) ∧
    overruns host sessionId command timeoutMs

theorem execInManagedNu_tables (runtime : ManagedNuRuntime) (command : String)
    (timeoutMs : Option Nat) (askForApproval : Option AskForApproval) (w : World) :
    ((execInManagedNu host sessionId runtime command timeoutMs askForApproval).exec w).2.tables =
    if Approved (commandParts host command) (askForApproval.getD yoloMode) ∧
        overruns host sessionId command timeoutMs then close sessionId w.tables
    else w.tables := by
  unfold execInManagedNu
  by_cases happroved : Approved (commandParts host command) (askForApproval.getD yoloMode)
  · obtain ⟨sandboxType, hadmitting⟩ := admitting_approved happroved runtime.sandboxPolicy false w
    have hactivity := keeps_updateSessionActivity host sessionId w
    rw [Op.exec_ok hadmitting]
    unfold updateSessionActivity at hactivity ⊢
    rw [Op.exec_change] at hactivity
    rw [Op.exec_ok (Op.exec_change _), Op.exec_ok (Op.exec_emit _)]
    unfold overruns
    rcases host.evaluates sessionId command timeoutMs with error | _ | result
    · rw [if_neg fun h => by cases h.2]
      exact hactivity
    · rw [if_pos ⟨happroved, rfl⟩, tables_bind fun _ => keeps_pure _, ← hactivity]
      exact (tables_tryCatch fun _ => keeps_pure _).trans (terminateSession_tables sessionId _)
    · rw [if_neg fun h => by cases h.2]
      exact hactivity
  · obtain ⟨code, reason, hdenied⟩ := admitting_denied (w := w) happroved runtime.sandboxPolicy []
      false
    rw [Op.exec_error hdenied, if_neg fun h => happroved h.1]

end ColossalCode.Sessionizer
