import ColossalCode.Sessionizer.Lifecycle

/-! Which entry points ask before they run a command. -/
namespace ColossalCode.Sessionizer
open Op

/-- A call of an entry point that runs a command, apart from its approval policy. -/
inductive Call where
  | handleExecCommandRequest (params : ExecCommandParams)
  | streamExecCommand (params : ExecCommandParams)
  | streamExecCommandEnhanced (params : ExecCommandParams)
  | execCommandInShellSession (sessionId : SessionId) (command : String) (timeoutMs : Option Nat)
  | forkEvalInManagedNuSession (sessionId : SessionId) (command : String) (timeoutMs : Option Nat)
  | sendCommandToShellSession (sessionId : SessionId) (command : String)

variable (host : Host) (policy : Option AskForApproval)

/-- The words that are checked. -/
def Call.command : Call → List String
  | .handleExecCommandRequest params => params.command
  | .streamExecCommand params => params.command
  | .streamExecCommandEnhanced params => params.command
  | .execCommandInShellSession _ command _ => commandParts host command
  | .forkEvalInManagedNuSession _ command _ => commandParts host command
  | .sendCommandToShellSession _ command => commandParts host command

/-- The policy goes to the entry points that have a place for it. -/
def runCall : Call → Op Unit
  | .handleExecCommandRequest params => do
    let _ ← handleExecCommandRequest host { params with askForApproval := policy }
  | .streamExecCommand params => do
    let _ ← streamExecCommand host { params with askForApproval := policy }
  | .streamExecCommandEnhanced params => do
    let _ ← streamExecCommandEnhanced host { params with askForApproval := policy }
  | .execCommandInShellSession sessionId command timeoutMs => do
    let _ ← execCommandInShellSession host sessionId command timeoutMs policy
  | .forkEvalInManagedNuSession sessionId command timeoutMs => do
    let _ ← forkEvalInManagedNuSession host sessionId command timeoutMs policy
  | .sendCommandToShellSession sessionId command =>
    sendCommandToShellSession host sessionId command

/-- A denial that leaves everything as it was. -/
def DeniedIn {α : Type} (w : World) (outcome : Except ColossalErr α × World) : Prop :=
  ∃ code reason, outcome = (.error (.denied code reason), w)

/-- Without approval the call is denied, and nothing is spawned, written or entered in a table. -/
def Gated (call : Call) (w : World) : Prop :=
  ¬ Approved (call.command host) (policy.getD yoloMode) →
    DeniedIn w ((runCall host policy call).exec w)

/-- The entry point looks at the policy before it does anything, or has nothing to do. -/
def Checked (w : World) : Call → Prop
  | .handleExecCommandRequest _ => True
  | .streamExecCommand params => params.command = []
  | .streamExecCommandEnhanced _ => True
  | .execCommandInShellSession _ _ _ => True
  | .forkEvalInManagedNuSession sessionId _ _ =>
    (findSession w.manager.managedNuSessions sessionId).isSome
  | .sendCommandToShellSession sessionId _ =>
    findSession w.manager.persistentShellSessions sessionId = none

section Gate

variable {α β : Type} {w : World}

theorem denied_bind {x : Op α} (h : DeniedIn w (x.exec w)) (f : α → Op β) :
    DeniedIn w ((x >>= f).exec w) := by
  obtain ⟨code, reason, heq⟩ := h
  exact ⟨code, reason, exec_error heq f⟩

/-- What is done with an answer is no denial of its own. -/
theorem denied_discard {x : Op α} : DeniedIn w ((do let _ ← x).exec w) ↔ DeniedIn w (x.exec w) := by
  constructor
  · rintro ⟨code, reason, heq⟩
    rw [exec_bind] at heq
    rcases hx : x.exec w with ⟨_ | a, w'⟩
    · rw [hx] at heq
      cases heq
      exact ⟨_, _, rfl⟩
    · rw [hx] at heq
      cases heq
  · intro h
    exact denied_bind h _

/-- An operation that starts with the check. -/
theorem admitting_denied {command : List String} {askForApproval : AskForApproval}
    (h : ¬ Approved command askForApproval) (sandboxPolicy : SandboxPolicy)
    (approvedCommands : List (List String)) (isPty : Bool) :
    DeniedIn w ((admitting (assessCommandSafety command askForApproval sandboxPolicy
      approvedCommands isPty)).exec w) := by
  obtain ⟨reason, hclearance⟩ :=
    clearance_denied command askForApproval sandboxPolicy approvedCommands isPty h
  exact ⟨-1, reason, by rw [exec_admitting, hclearance]⟩

theorem requireSession_denied {table : SessionManager → List (SessionId × α)}
    {sessionId : SessionId} (h : findSession (table w.manager) sessionId = none) :
    DeniedIn w ((requireSession table sessionId).exec w) := by
  rw [exec_requireSession, h]
  exact ⟨_, _, rfl⟩

end Gate

variable {command : String} {host : Host} {policy : Option AskForApproval} {sessionId : SessionId}
  {w : World}

theorem shell_denied (timeoutMs : Option Nat)
    (h : ¬ Approved (commandParts host command) (policy.getD yoloMode)) :
    DeniedIn w ((execCommandInShellSession host sessionId command timeoutMs policy).exec w) := by
  unfold execCommandInShellSession
  rw [exec_ok exec_getManager]
  cases findSession w.manager.managedNuSessions sessionId with
  | some runtime => exact denied_bind (admitting_denied h _ _ _) _
  | none =>
    dsimp only
    unfold execInPersistentShell
    cases hsession : findSession w.manager.persistentShellSessions sessionId with
    | none => exact denied_bind (requireSession_denied hsession) _
    | some session =>
      have hrequire := exec_requireSession
        (w := w) SessionManager.persistentShellSessions sessionId
      rw [hsession] at hrequire
      rw [exec_ok hrequire]
      exact denied_bind (admitting_denied h _ _ _) _

/-- Without a managed runtime there is nothing to run, and no denial. -/
theorem fork_denied_iff (timeoutMs : Option Nat)
    (h : ¬ Approved (commandParts host command) (policy.getD yoloMode)) :
    DeniedIn w ((forkEvalInManagedNuSession host sessionId command timeoutMs policy).exec w) ↔
      (findSession w.manager.managedNuSessions sessionId).isSome := by
  unfold forkEvalInManagedNuSession
  rw [exec_ok exec_getManager]
  cases findSession w.manager.managedNuSessions sessionId with
  | none =>
    refine iff_of_false ?_ (by simp)
    rintro ⟨code, reason, heq⟩
    cases heq
  | some runtime => exact iff_of_true (denied_bind (admitting_denied h _ _ _) _) rfl

/-- The command is sent to a shell that exists, or the shell cannot take it. -/
theorem send_denied_iff :
    DeniedIn w ((sendCommandToShellSession host sessionId command).exec w) ↔
      findSession w.manager.persistentShellSessions sessionId = none := by
  unfold sendCommandToShellSession sendWhenReady
  cases hsession : findSession w.manager.persistentShellSessions sessionId with
  | none => exact iff_of_true (denied_bind (requireSession_denied hsession) _) rfl
  | some session =>
    refine iff_of_false ?_ (by simp)
    have hrequire := exec_requireSession
      (w := w) SessionManager.persistentShellSessions sessionId
    rw [hsession] at hrequire
    rw [exec_ok hrequire]
    rintro ⟨code, reason, heq⟩
    by_cases hready : host.becomesReady sessionId
    · have hlater := findSession_updateSession w.manager.persistentShellSessions sessionId
        (addToHistory command)
      rw [hsession] at hlater
      rw [waitUntilReady, if_pos hready, pure_bind] at heq
      simp only [changeShell, sendInputToShellSession, checkInput, updateSessionActivity, pure_bind,
        exec_bind, exec_change, exec_requireSession, hlater, Option.map_some] at heq
      by_cases haccepts : host.accepts sessionId
      · rw [if_pos haccepts] at heq
        cases heq
      · rw [if_neg haccepts] at heq
        cases heq
    · rw [waitUntilReady, if_neg hready] at heq
      cases heq

/-- Starting a command may fail, but it is never denied. -/
theorem create_not_denied (host : Host) (params : ExecCommandParams) (w : World) :
    (∃ session effect, (createSandboxedExecSession host params).exec w =
      (.ok session, { w with effects := w.effects ++ [effect] })) ∨
    ∃ error, (createSandboxedExecSession host params).exec w = (.error error, w) ∧
      ∀ code reason, error ≠ .denied code reason := by
  unfold createSandboxedExecSession
  split
  · exact .inr ⟨_, rfl, by simp⟩
  · split
    · exact .inr ⟨_, rfl, by simp⟩
    · split
      · exact .inl ⟨_, _, rfl⟩
      · exact .inr ⟨_, rfl, by simp⟩
      · exact .inr ⟨_, rfl, by simp⟩

/-- A command that is not empty is started whatever the policy is. -/
theorem stream_denied_iff {params : ExecCommandParams} :
    DeniedIn w ((streamExecCommand host params).exec w) ↔ params.command = [] := by
  constructor
  · rintro ⟨code, reason, heq⟩
    by_contra hcommand
    have hclearance := clearance_approved params.command yoloMode params.sandboxPolicy [] false
      ⟨hcommand, rfl⟩
    have hadmitting := exec_admitting (w := w)
      (assessCommandSafety params.command yoloMode params.sandboxPolicy [] false)
    rw [hclearance] at hadmitting
    unfold streamExecCommand streamAfter generateUniqueSessionId at heq
    rw [exec_ok hadmitting, bind_assoc, exec_ok exec_getManager, bind_assoc,
      exec_ok (exec_change _), pure_bind] at heq
    rcases create_not_denied host params _ with
      ⟨session, effect, hcreate⟩ | ⟨error, hcreate, herror⟩
    · rw [exec_ok hcreate] at heq
      have hfound := findSession_append w.manager.sessions w.manager.nextId session
      obtain ⟨found, hfound⟩ := Option.isSome_iff_exists.mp hfound
      simp only [addSession, exec_bind, exec_change, exec_requireSession, hfound] at heq
      cases heq
    · rw [exec_error hcreate] at heq
      exact herror code reason (Except.error.inj (congrArg Prod.fst heq))
  · intro hcommand
    exact denied_bind (admitting_denied (by simp [Approved, hcommand]) _ _ _) _

/-- Every entry point asks first, except that `stream_exec_command` does not know the policy,
`send_command_to_shell_session` checks nothing, and there is nothing to fork without a runtime. -/
theorem gate_complete_iff (call : Call) (w : World) :
    Gated host policy call w ↔
      Approved (call.command host) (policy.getD yoloMode) ∨ Checked w call := by
  unfold Gated
  rw [← Classical.or_iff_not_imp_left]
  by_cases h : Approved (call.command host) (policy.getD yoloMode)
  · exact iff_of_true (.inl h) (.inl h)
  · rw [or_iff_right h, or_iff_right h]
    cases call with
    | handleExecCommandRequest params =>
      exact iff_of_true (denied_bind (denied_bind (admitting_denied h _ _ _) _) _) trivial
    | streamExecCommand params => exact denied_discard.trans stream_denied_iff
    | streamExecCommandEnhanced params =>
      exact iff_of_true (denied_bind (denied_bind (admitting_denied h _ _ _) _) _) trivial
    | execCommandInShellSession sessionId command timeoutMs =>
      exact iff_of_true (denied_bind (shell_denied timeoutMs h) _) trivial
    | forkEvalInManagedNuSession sessionId command timeoutMs =>
      exact denied_discard.trans (fork_denied_iff timeoutMs h)
    | sendCommandToShellSession sessionId command => exact send_denied_iff

def openHost : Host where
  split command := some (if command = "" then [] else [command])
  tryJoin words := some (Text.join " " words)
  now := 0
  spawns _ _ := .ok ()
  collect _ := ⟨.completed 0, "", "", "", none⟩
  backgroundLogPath sessionId := sessionId ++ ".log"
  becomesReady _ := true
  accepts _ := true
  converse _ _ _ := ⟨.completed 0, "", "", "", none⟩
  evaluates _ _ _ := .ok (some ⟨.completed 0, "", "", "", none⟩)
  escape path := path
  opensShell _ _ _ := .ok ()
  opensNu _ _ _ := .ok ()
  restoresNu _ := .ok ()

/-- A manager with one shell. -/
def shellWorld : World where
  manager := ⟨1, 7, [], [("7_0", ⟨"/bin/bash", "/w", "/w", [], [], .readOnly, false⟩)], [], [], []⟩
  effects := []

def listing : ExecCommandParams :=
  ⟨["ls"], ⟨"/bin/bash", .posix⟩, "/w", [], none, .readOnly, false, none⟩

/-- Under `OnRequest` the stream is started, and an empty command is sent to the shell. -/
theorem command_not_gated :
    ¬ Gated openHost (some .onRequest) (.streamExecCommand listing) shellWorld ∧
    ((runCall openHost (some .onRequest) (.streamExecCommand listing)).exec shellWorld).2.effects =
      [.spawn "/bin/bash -c ls" "/w" .readOnly] ∧
    ¬ Gated openHost none (.sendCommandToShellSession "7_0" "") shellWorld ∧
    ((runCall openHost none (.sendCommandToShellSession "7_0" "")).exec shellWorld).2.effects =
      [.write "7_0" "\r"] := by
  refine ⟨?_, rfl, ?_, rfl⟩
  · intro h
    obtain ⟨code, reason, heq⟩ := h (by simp [Approved, Call.command, listing, yoloMode])
    cases heq
  · intro h
    obtain ⟨code, reason, heq⟩ := h (by simp [Approved, Call.command, commandParts, openHost])
    cases heq

end ColossalCode.Sessionizer
