import ColossalCode.Nu.Runtime

/-! A managed Nu runtime that is put back from a snapshot. The directory it keeps track of is the
saved one whenever the restore succeeds, whatever the engine makes of the sources. -/
namespace ColossalCode.Nu

/-- What a snapshot keeps of a runtime; a text that cannot be read back as JSON is `some none`. -/
structure NuSnapshot (ν : Type) where
  initialCwd : String
  currentCwd : String
  envVars : List (String × String)
  structuredEnv : Option (Option (List (String × ν)))
  vars : List (String × Bool × ν)
  customCommands : List String
  aliases : List (String × String)
  replayCommands : List ReplayCommand
  config : Option (Option ν)

/-- The engine with what only a new runtime or a restore asks of it; `started` has the environment
of the process. -/
structure Builder (σ ν : Type) where
  engine : Engine σ ν
  started : Except String σ
  addVariable : σ → String × Bool × ν → Except String Unit × σ
  setConfig : σ → ν → σ

variable {σ ν : Type}

/-- Steps that are taken one after the other until one fails. -/
def inTurn : List (Runtime σ ν → Except String Unit × Runtime σ ν) → Runtime σ ν →
    Except String Unit × Runtime σ ν
  | [], rt => (.ok (), rt)
  | step :: steps, rt =>
    match step rt with
    | (.ok (), rt) => inTurn steps rt
    | (.error error, rt) => (.error error, rt)

namespace Builder

variable (b : Builder σ ν)

/-- `ManagedNuRuntime::new` -/
def newRuntime (initialCwd : String) (sandboxPolicy : Sessionizer.SandboxPolicy) :
    Except String (Runtime σ ν) :=
  b.started.map fun s =>
    { engine := b.engine.addEnvVar s "PWD" (b.engine.string initialCwd)
      currentCwd := initialCwd
      sandboxPolicy
      history := []
      customCommands := []
      aliases := []
      vars := []
      replayCommands := [] }

/-- The environment of a snapshot; one that cannot be read is passed over. -/
def restoreEnv (s : NuSnapshot ν) (rt : Runtime σ ν) : Runtime σ ν :=
  let put (rt : Runtime σ ν) (entry : String × ν) : Runtime σ ν :=
    { rt with engine := b.engine.addEnvVar rt.engine entry.1 entry.2 }
  match s.structuredEnv with
  | some (some entries) => entries.foldl put rt
  | some none => rt
  | none => (s.envVars.map fun entry => (entry.1, b.engine.string entry.2)).foldl put rt

/-- `restore_persistent_variable` -/
def restoreVariable (entry : String × Bool × ν) (rt : Runtime σ ν) :
    Except String Unit × Runtime σ ν :=
  let (result, s) := b.addVariable rt.engine entry
  (result, { rt with engine := s })

def restoreSource (source : String) (after : Runtime σ ν → Runtime σ ν) (rt : Runtime σ ν) :
    Except String Unit × Runtime σ ν :=
  match b.engine.evalString rt.engine source with
  | (.ok _, s) => (.ok (), after { rt with engine := s })
  | (.error error, s) => (.error error, { rt with engine := s })

def restoreCustomCommand (source : String) : Runtime σ ν → Except String Unit × Runtime σ ν :=
  b.restoreSource source fun rt =>
    { rt with customCommands := registerDef rt.customCommands source }

def restoreAlias (found : String × String) : Runtime σ ν → Except String Unit × Runtime σ ν :=
  b.restoreSource ("alias " ++ found.1 ++ " = " ++ found.2) fun rt =>
    rt.registerAlias found.1 found.2

/-- A file that a replayed command reads has to be what it was. -/
def checkReplayFile (rt : Runtime σ ν) (file : ReplayFile) : Except String Unit :=
  match b.engine.sha256 rt.engine file.path with
  | .error error => .error ("failed to read managed Nu replay dependency " ++ file.path ++
      " during restore: " ++ error)
  | .ok currentHash =>
    if currentHash = file.sha256 then .ok ()
    else .error ("managed Nu replay dependency changed since snapshot: " ++ file.path)

/-- A command is replayed in the directory it was run in. -/
def restoreReplay (replay : ReplayCommand) (rt : Runtime σ ν) :
    Except String Unit × Runtime σ ν :=
  match replay.files.forM (b.checkReplayFile rt) with
  | .error error => (.error error, rt)
  | .ok () =>
    match (rt.updateCwd b.engine replay.cwd).runSegment b.engine replay.command with
    | (.error error, after) => (.error error, after)
    | (.ok _, after) => (.ok (), after.updateCwd b.engine rt.currentCwd)

def restoreConfig (s : NuSnapshot ν) (rt : Runtime σ ν) : Runtime σ ν :=
  match s.config with
  | some (some value) =>
    { rt with engine := b.engine.addEnvVar (b.setConfig rt.engine value) "config" value }
  | _ => rt

/-- The fallible steps of `restore`. -/
def restoreSteps (s : NuSnapshot ν) : List (Runtime σ ν → Except String Unit × Runtime σ ν) :=
  s.vars.map b.restoreVariable ++ s.customCommands.map b.restoreCustomCommand ++
    s.aliases.map b.restoreAlias ++ s.replayCommands.map b.restoreReplay

def restore (s : NuSnapshot ν) (rt : Runtime σ ν) : Except String Unit × Runtime σ ν :=
  match inTurn (b.restoreSteps s) ((b.restoreEnv s rt).updateCwd b.engine s.currentCwd) with
  | (.error error, rt) => (.error error, rt)
  | (.ok (), rt) =>
    (.ok (), b.restoreConfig s { rt with vars := s.vars, replayCommands := s.replayCommands })

/-- A new runtime in `cwd` that is restored. -/
def restored (s : NuSnapshot ν) (cwd : String) (sandboxPolicy : Sessionizer.SandboxPolicy) :
    Except String (Runtime σ ν) :=
  (b.newRuntime cwd sandboxPolicy).bind fun rt =>
    match b.restore s rt with
    | (.ok (), rt) => .ok rt
    | (.error error, _) => .error error

/-- `ManagedNuRuntime::from_snapshot` -/
def fromSnapshot (s : NuSnapshot ν) (sandboxPolicy : Sessionizer.SandboxPolicy) :
    Except String (Runtime σ ν) := b.restored s s.initialCwd sandboxPolicy

end Builder

theorem inTurn_keeps {P : Runtime σ ν → Prop}
    {steps : List (Runtime σ ν → Except String Unit × Runtime σ ν)}
    (hsteps : ∀ step ∈ steps, ∀ rt rt', step rt = (.ok (), rt') → P rt → P rt')
    {rt rt' : Runtime σ ν} (h : inTurn steps rt = (.ok (), rt')) (hrt : P rt) : P rt' := by
  induction steps generalizing rt with
  | nil =>
    obtain ⟨-, rfl⟩ := Prod.mk.inj h
    exact hrt
  | cons step steps ih =>
    obtain ⟨hstep, hrest⟩ := List.forall_mem_cons.mp hsteps
    rw [inTurn] at h
    split at h
    · next after hafter => exact ih hrest h (hstep rt after hafter hrt)
    · cases h

namespace Builder

variable {b : Builder σ ν} {s : NuSnapshot ν} {rt rt' : Runtime σ ν}

theorem restoreSource_cwd {source : String} {after : Runtime σ ν → Runtime σ ν}
    (hafter : ∀ rt, (after rt).currentCwd = rt.currentCwd)
    (h : b.restoreSource source after rt = (.ok (), rt')) : rt'.currentCwd = rt.currentCwd := by
  rw [restoreSource] at h
  split at h
  · obtain ⟨-, rfl⟩ := Prod.mk.inj h
    rw [hafter]
  · cases h

theorem restoreReplay_cwd {replay : ReplayCommand}
    (h : b.restoreReplay replay rt = (.ok (), rt')) : rt'.currentCwd = rt.currentCwd := by
  rw [restoreReplay] at h
  split at h
  · cases h
  · split at h
    · cases h
    · obtain ⟨-, rfl⟩ := Prod.mk.inj h
      rfl

/-- Each step puts the directory back. -/
theorem restoreStep_cwd {step : Runtime σ ν → Except String Unit × Runtime σ ν}
    (hstep : step ∈ b.restoreSteps s) (h : step rt = (.ok (), rt')) :
    rt'.currentCwd = rt.currentCwd := by
  rw [restoreSteps, List.mem_append, List.mem_append, List.mem_append] at hstep
  rcases hstep with ((hvar | hcommand) | halias) | hreplay
  · obtain ⟨entry, -, rfl⟩ := List.mem_map.mp hvar
    obtain ⟨-, rfl⟩ := Prod.mk.inj h
    rfl
  · obtain ⟨source, -, rfl⟩ := List.mem_map.mp hcommand
    refine restoreSource_cwd ?_ h
    exact fun _ => rfl
  · obtain ⟨found, -, rfl⟩ := List.mem_map.mp halias
    refine restoreSource_cwd ?_ h
    exact fun _ => rfl
  · obtain ⟨replay, -, rfl⟩ := List.mem_map.mp hreplay
    exact restoreReplay_cwd h

theorem restore_cwd (h : b.restore s rt = (.ok (), rt')) : rt'.currentCwd = s.currentCwd := by
  rw [restore] at h
  split at h
  · cases h
  · next after hafter =>
    obtain ⟨-, rfl⟩ := Prod.mk.inj h
    have hcwd : after.currentCwd = s.currentCwd :=
      inTurn_keeps (P := fun rt => rt.currentCwd = s.currentCwd)
        (fun step hstep _ _ hok hrt => (restoreStep_cwd hstep hok).trans hrt) hafter rfl
    rw [restoreConfig]
    split <;> exact hcwd

theorem restored_cwd {cwd : String} {sandboxPolicy : Sessionizer.SandboxPolicy}
    (h : b.restored s cwd sandboxPolicy = .ok rt) : rt.currentCwd = s.currentCwd := by
  rw [restored] at h
  rcases hnew : b.newRuntime cwd sandboxPolicy with error | fresh
  · rw [hnew] at h
    cases h
  · rw [hnew] at h
    rcases hrestore : b.restore s fresh with ⟨error | ⟨⟩, after⟩
    · simp only [Except.bind, hrestore] at h
      cases h
    · simp only [Except.bind, hrestore] at h
      obtain rfl := Except.ok.inj h
      exact restore_cwd hrestore

end Builder

end ColossalCode.Nu
