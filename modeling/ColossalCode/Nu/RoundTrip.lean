import ColossalCode.Nu.Snapshot

/-! When what is restored of a snapshot is the runtime that it was taken of. -/
namespace ColossalCode.Nu
open List Prod

variable {σ ν : Type} {b : Builder σ ν} {o : Evaluator b} {rt rt' mid start declared : Runtime σ ν}
  {s : NuSnapshot ν} {initialCwd : String} {sandboxPolicy : Sessionizer.SandboxPolicy}

/-- Runtimes that cannot be told apart. -/
structure Agrees (o : Evaluator b) (rt rt' : Runtime σ ν) : Prop where
  view : o.view rt.engine = o.view rt'.engine
  currentCwd : rt.currentCwd = rt'.currentCwd
  customCommands : rt.customCommands = rt'.customCommands
  aliases : rt.aliases = rt'.aliases

/-- What is restored of the snapshot of `rt` cannot be told from `rt`, nor can their snapshots. -/
def RoundTrip (o : Evaluator b) (initialCwd : String) (sandboxPolicy : Sessionizer.SandboxPolicy)
    (rt : Runtime σ ν) : Prop :=
  ∃ rt', b.fromSnapshot (o.stored (o.snapshot initialCwd rt)) sandboxPolicy = .ok rt' ∧
    Agrees o rt rt' ∧ (o.snapshot initialCwd rt).Same (o.snapshot initialCwd rt')

namespace Builder

variable (b)

/-- The environment that a restore puts in. -/
def savedEntries (s : NuSnapshot ν) : List (String × ν) :=
  match s.structuredEnv with
  | some (some entries) => entries
  | some none => []
  | none => s.envVars.map fun entry => (entry.1, b.engine.string entry.2)

/-- The restored runtime before its commands are replayed: environment, directory, variables,
definitions and aliases. -/
def declare (s : NuSnapshot ν) (rt : Runtime σ ν) : Except String Unit × Runtime σ ν :=
  inTurn (s.vars.map b.restoreVariable ++ s.customCommands.map b.restoreCustomCommand ++
    s.aliases.map b.restoreAlias) ((b.restoreEnv s rt).updateCwd b.engine s.currentCwd)

end Builder

/-- What a runtime needs so that a restore brings it back: no variable that the process has is
hidden, the tracked directory is that of the engine, the configuration is that of the environment,
what is declared is what is registered, it can be declared anew, and to replay what was noted
changes nothing. -/
structure Restorable (o : Evaluator b) (initialCwd : String)
    (sandboxPolicy : Sessionizer.SandboxPolicy) (rt start declared : Runtime σ ν) : Prop where
  new : b.newRuntime initialCwd sandboxPolicy = .ok start
  inherited : ∀ key, key ≠ "PWD" → key ≠ "config" →
    (o.view rt.engine).env key = none → (o.view start.engine).env key = none
  pwd : (o.view rt.engine).env "PWD" = some (b.engine.string rt.currentCwd)
  config : match (o.view rt.engine).config with
    | some value => (o.view rt.engine).env "config" = some value
    | none => (o.view start.engine).config = none ∧
        (o.view rt.engine).env "config" = (o.view start.engine).env "config"
  commands : assignAll (rt.customCommands.map fun source => (o.commandName source, source))
    (o.view start.engine).commands = (o.view rt.engine).commands
  aliases : assignAll rt.aliases (o.view start.engine).aliases = (o.view rt.engine).aliases
  declares : b.declare (o.stored (o.snapshot initialCwd rt)) start = (.ok (), declared)
  replays : ∃ after, inTurn (rt.replayCommands.map b.restoreReplay) declared = (.ok (), after) ∧
    Agrees o declared after

theorem inTurn_cons {step : Runtime σ ν → Except String Unit × Runtime σ ν}
    {steps : List (Runtime σ ν → Except String Unit × Runtime σ ν)} :
    inTurn (step :: steps) rt = (.ok (), rt') ↔
      ∃ mid, step rt = (.ok (), mid) ∧ inTurn steps mid = (.ok (), rt') := by
  rw [inTurn]
  rcases step rt with ⟨error | ⟨⟩, next⟩
  · simp
  · constructor
    · exact fun h => ⟨next, rfl, h⟩
    · rintro ⟨mid, hmid, h⟩
      obtain ⟨-, rfl⟩ := mk.inj hmid
      exact h

theorem inTurn_append {xs ys : List (Runtime σ ν → Except String Unit × Runtime σ ν)} :
    inTurn (xs ++ ys) rt = (.ok (), rt') ↔
      ∃ mid, inTurn xs rt = (.ok (), mid) ∧ inTurn ys mid = (.ok (), rt') := by
  induction xs generalizing rt with
  | nil =>
    constructor
    · exact fun h => ⟨rt, rfl, h⟩
    · rintro ⟨mid, hmid, h⟩
      obtain ⟨-, rfl⟩ := mk.inj hmid
      exact h
  | cons step xs ih =>
    simp only [cons_append, inTurn_cons, ih]
    tauto

section Declared

variable (ho : o.Lawful)

include ho

theorem restoreEnv_view (s : NuSnapshot ν) (rt : Runtime σ ν) : ∃ engine,
    b.restoreEnv s rt = { rt with engine := engine } ∧
      o.view engine = { o.view rt.engine with
        env := assignAll (b.savedEntries s) (o.view rt.engine).env } := by
  have hput : ∀ (entries : List (String × ν)) (rt : Runtime σ ν), ∃ engine,
      entries.foldl (fun rt entry => { rt with
        engine := b.engine.addEnvVar rt.engine entry.1 entry.2 }) rt =
          { rt with engine := engine } ∧
      o.view engine = { o.view rt.engine with
        env := assignAll entries (o.view rt.engine).env } := by
    intro entries
    induction entries with
    | nil => exact fun rt => ⟨rt.engine, rfl, rfl⟩
    | cons entry entries ih =>
      intro rt
      obtain ⟨engine, hfold, hview⟩ := ih
        { rt with engine := b.engine.addEnvVar rt.engine entry.1 entry.2 }
      rw [ho.addEnvVar] at hview
      exact ⟨engine, hfold, hview⟩
  rw [Builder.restoreEnv, Builder.savedEntries]
  cases s.structuredEnv with
  | none => exact hput _ rt
  | some read =>
    cases read with
    | none => exact ⟨rt.engine, rfl, rfl⟩
    | some entries => exact hput entries rt

theorem restoreVariables_view {entries : List (String × Bool × ν)}
    (h : inTurn (entries.map b.restoreVariable) rt = (.ok (), rt')) : ∃ engine,
    rt' = { rt with engine := engine } ∧ o.view engine = { o.view rt.engine with
      vars := assignAll entries (o.view rt.engine).vars } := by
  induction entries generalizing rt with
  | nil =>
    obtain ⟨-, rfl⟩ := mk.inj h
    exact ⟨rt.engine, rfl, rfl⟩
  | cons entry entries ih =>
    obtain ⟨mid, hmid, hrest⟩ := inTurn_cons.mp h
    obtain ⟨hadded, rfl⟩ := mk.inj hmid
    obtain ⟨engine, hrt', hview⟩ := ih hrest
    have hfirst := ho.addVariable rt.engine _ entry (Prod.ext hadded rfl)
    dsimp only at hview
    rw [hfirst] at hview
    exact ⟨engine, hrt', hview⟩

theorem restoreCommands_view {sources : List String}
    (hnamed : ∀ source ∈ sources, (extractDefName source).isSome = true)
    (h : inTurn (sources.map b.restoreCustomCommand) rt = (.ok (), rt')) : ∃ engine,
    rt' = { rt with
      engine := engine
      customCommands := sources.foldl registerDef rt.customCommands } ∧
    o.view engine = { o.view rt.engine with
      commands := assignAll (sources.map fun source => (o.commandName source, source))
        (o.view rt.engine).commands } := by
  induction sources generalizing rt with
  | nil =>
    obtain ⟨-, rfl⟩ := mk.inj h
    exact ⟨rt.engine, rfl, rfl⟩
  | cons source sources ih =>
    obtain ⟨hsource, hsources⟩ := forall_mem_cons.mp hnamed
    obtain ⟨mid, hmid, hrest⟩ := inTurn_cons.mp h
    rw [Builder.restoreCustomCommand, Builder.restoreSource] at hmid
    split at hmid
    · rename_i output engine heval
      obtain ⟨-, rfl⟩ := mk.inj hmid
      obtain ⟨engine', hrt', hview⟩ := ih hsources hrest
      dsimp only at hview
      rw [ho.evalDef _ _ _ _ hsource heval] at hview
      exact ⟨engine', hrt', hview⟩
    · cases hmid

theorem restoreAliases_view {found : List (String × String)}
    (h : inTurn (found.map b.restoreAlias) rt = (.ok (), rt')) : ∃ engine,
    rt' = { rt with
      engine := engine
      aliases := found.foldl (fun aliases found =>
        (aliases.filter fun existing => existing.1 ≠ found.1) ++ [found]) rt.aliases } ∧
    o.view engine = { o.view rt.engine with
      aliases := assignAll found (o.view rt.engine).aliases } := by
  induction found generalizing rt with
  | nil =>
    obtain ⟨-, rfl⟩ := mk.inj h
    exact ⟨rt.engine, rfl, rfl⟩
  | cons first found ih =>
    obtain ⟨mid, hmid, hrest⟩ := inTurn_cons.mp h
    rw [Builder.restoreAlias, Builder.restoreSource] at hmid
    split at hmid
    · rename_i output engine heval
      obtain ⟨-, rfl⟩ := mk.inj hmid
      obtain ⟨engine', hrt', hview⟩ := ih hrest
      have hfirst := ho.evalAlias _ _ _ _ _ heval
      dsimp only [Runtime.registerAlias] at hview
      rw [hfirst] at hview
      exact ⟨engine', hrt', hview⟩
    · cases hmid

/-- What has been declared when nothing was refused. -/
theorem declare_view (hnamed : ∀ source ∈ s.customCommands, (extractDefName source).isSome = true)
    (h : b.declare s rt = (.ok (), rt')) : ∃ engine,
    rt' = { rt with
      engine := engine
      currentCwd := s.currentCwd
      customCommands := s.customCommands.foldl registerDef rt.customCommands
      aliases := s.aliases.foldl (fun aliases found =>
        (aliases.filter fun existing => existing.1 ≠ found.1) ++ [found]) rt.aliases } ∧
    o.view engine =
      { env := assign "PWD" (b.engine.string s.currentCwd)
          (assignAll (b.savedEntries s) (o.view rt.engine).env)
        vars := assignAll s.vars (o.view rt.engine).vars
        commands := assignAll (s.customCommands.map fun source => (o.commandName source, source))
          (o.view rt.engine).commands
        aliases := assignAll s.aliases (o.view rt.engine).aliases
        config := (o.view rt.engine).config } := by
  obtain ⟨env, henv, hviewEnv⟩ := restoreEnv_view ho s rt
  rw [Builder.declare, henv] at h
  obtain ⟨mid, hmid, haliases⟩ := inTurn_append.mp h
  obtain ⟨vars, hvars, hcommands⟩ := inTurn_append.mp hmid
  obtain ⟨engine₁, rfl, hview₁⟩ := restoreVariables_view ho hvars
  obtain ⟨engine₂, rfl, hview₂⟩ := restoreCommands_view ho hnamed hcommands
  obtain ⟨engine₃, rfl, hview₃⟩ := restoreAliases_view ho haliases
  refine ⟨engine₃, rfl, ?_⟩
  dsimp only [Runtime.updateCwd] at hview₁ hview₂ hview₃
  rw [hview₃, hview₂, hview₁, ho.addEnvVar, hviewEnv]

theorem restoreConfig_view (s : NuSnapshot ν) (rt : Runtime σ ν) : ∃ engine,
    b.restoreConfig s rt = { rt with engine := engine } ∧
      o.view engine = match s.config with
        | some (some value) => { o.view rt.engine with
            env := assign "config" value (o.view rt.engine).env
            config := some value }
        | _ => o.view rt.engine := by
  rw [Builder.restoreConfig]
  cases s.config with
  | none => exact ⟨rt.engine, rfl, rfl⟩
  | some read =>
    cases read with
    | none => exact ⟨rt.engine, rfl, rfl⟩
    | some value =>
      refine ⟨_, rfl, ?_⟩
      rw [ho.addEnvVar, ho.setConfig]

end Declared

theorem restoreSteps_eq (s : NuSnapshot ν) : b.restoreSteps s =
    (s.vars.map b.restoreVariable ++ s.customCommands.map b.restoreCustomCommand ++
      s.aliases.map b.restoreAlias) ++ s.replayCommands.map b.restoreReplay := rfl

/-- A restore that succeeds declares, replays and sets the configuration. -/
theorem fromSnapshot_cases : b.fromSnapshot s sandboxPolicy = .ok rt' ↔
    ∃ start declared after, b.newRuntime s.initialCwd sandboxPolicy = .ok start ∧
      b.declare s start = (.ok (), declared) ∧
      inTurn (s.replayCommands.map b.restoreReplay) declared = (.ok (), after) ∧
      rt' = b.restoreConfig s
        { after with vars := s.vars, replayCommands := s.replayCommands } := by
  rw [Builder.fromSnapshot, Builder.restored]
  cases hnew : b.newRuntime s.initialCwd sandboxPolicy with
  | error error =>
    simp [Except.bind]
  | ok start =>
    rcases hturn : inTurn (b.restoreSteps s)
        ((b.restoreEnv s start).updateCwd b.engine s.currentCwd) with ⟨error | ⟨⟩, after⟩
    · have hrestore : b.restore s start = (.error error, after) := by
        rw [Builder.restore, hturn]
      simp only [Except.bind, hrestore]
      refine iff_of_false (by simp) ?_
      rintro ⟨start', declared, after', hstart, hdeclared, hafter, -⟩
      obtain rfl := Except.ok.inj hstart
      have hboth := inTurn_append.mpr ⟨declared, hdeclared, hafter⟩
      rw [← restoreSteps_eq, hturn] at hboth
      cases hboth
    · have hrestore : b.restore s start = (.ok (), b.restoreConfig s
          { after with vars := s.vars, replayCommands := s.replayCommands }) := by
        rw [Builder.restore, hturn]
      simp only [Except.bind, hrestore]
      rw [restoreSteps_eq] at hturn
      constructor
      · intro h
        obtain ⟨declared, hdeclared, hafter⟩ := inTurn_append.mp hturn
        exact ⟨start, declared, after, rfl, hdeclared, hafter, (Except.ok.inj h).symm⟩
      · rintro ⟨start', declared, after', hstart, hdeclared, hafter, rfl⟩
        obtain rfl := Except.ok.inj hstart
        have hboth := inTurn_append.mpr ⟨declared, hdeclared, hafter⟩
        rw [hturn] at hboth
        obtain ⟨-, rfl⟩ := mk.inj hboth
        rfl

theorem newRuntime_cases (h : b.newRuntime initialCwd sandboxPolicy = .ok rt) : ∃ engine,
    b.started = .ok engine ∧
      rt.engine = b.engine.addEnvVar engine "PWD" (b.engine.string initialCwd) ∧
      rt.customCommands = [] ∧ rt.aliases = [] := by
  unfold Builder.newRuntime at h
  cases hstarted : b.started with
  | error error =>
    rw [hstarted] at h
    cases h
  | ok engine =>
    rw [hstarted] at h
    obtain rfl := Except.ok.inj h
    exact ⟨engine, rfl, rfl, rfl, rfl⟩

section Back

variable (ho : o.Lawful)

include ho

/-- Everything but the configuration is saved and read back. -/
theorem savedEntries_snapshot (initialCwd : String) (rt : Runtime σ ν) :
    ((b.savedEntries (o.stored (o.snapshot initialCwd rt))).map fst).Nodup ∧
      ∀ entry, entry ∈ b.savedEntries (o.stored (o.snapshot initialCwd rt)) ↔
        (o.view rt.engine).env entry.1 = some entry.2 ∧ entry.1 ≠ "config" := by
  have hnodup : ((o.snapshot initialCwd rt).env.map fst).Nodup :=
    (filter_sublist.map fst).nodup (ho.envVars_nodup rt.engine)
  obtain ⟨entries, hentries, hkeys, hmem⟩ := ho.readEnv _ hnodup
  have hsaved : b.savedEntries (o.stored (o.snapshot initialCwd rt)) = entries := by
    rw [Builder.savedEntries, Evaluator.stored]
    dsimp only
    rw [hentries]
  rw [hsaved]
  refine ⟨hkeys, fun entry => ?_⟩
  have hfilter : entry ∈ (o.snapshot initialCwd rt).env ↔
      entry ∈ o.envVars rt.engine ∧ entry.1 ≠ "config" := by
    rw [Evaluator.snapshot]
    simp [Runtime.syncPersistentVariables]
  rw [hmem, hfilter, ho.envVars]

theorem savedEntries_some {key : String} {value : ν} (hkey : key ≠ "config")
    (h : (o.view rt.engine).env key = some value) (f : String → Option ν) :
    assignAll (b.savedEntries (o.stored (o.snapshot initialCwd rt))) f key = some value := by
  obtain ⟨hnodup, hmem⟩ := savedEntries_snapshot ho initialCwd rt
  exact assignAll_mem hnodup ((hmem (key, value)).mpr ⟨h, hkey⟩) f

theorem savedEntries_none {key : String}
    (h : (o.view rt.engine).env key = none ∨ key = "config") (f : String → Option ν) :
    assignAll (b.savedEntries (o.stored (o.snapshot initialCwd rt))) f key = f key := by
  obtain ⟨-, hmem⟩ := savedEntries_snapshot ho initialCwd rt
  refine assignAll_not_mem (fun hkey => ?_) f
  obtain ⟨entry, hentry, rfl⟩ := mem_map.mp hkey
  obtain ⟨hsome, hconfig⟩ := (hmem entry).mp hentry
  rcases h with hnone | h
  · rw [hsome] at hnone
    cases hnone
  · exact hconfig h

/-- The variables come back as they are. -/
theorem restored_vars (hnew : b.newRuntime initialCwd sandboxPolicy = .ok start)
    (rt : Runtime σ ν) :
    assignAll (b.engine.sessionVariables rt.engine) (o.view start.engine).vars =
      (o.view rt.engine).vars := by
  obtain ⟨engine, hstarted, hengine, -, -⟩ := newRuntime_cases hnew
  have hnone : (o.view start.engine).vars = fun _ => none := by
    rw [hengine, ho.addEnvVar]
    exact ho.started engine hstarted
  funext name
  cases hvalue : (o.view rt.engine).vars name with
  | none =>
    rw [assignAll_not_mem, hnone]
    intro hmem
    obtain ⟨entry, hentry, rfl⟩ := mem_map.mp hmem
    rw [ho.vars, hvalue] at hentry
    cases hentry
  | some value =>
    exact assignAll_mem (ho.vars_nodup rt.engine) ((ho.vars rt.engine (name, value)).mpr hvalue) _

end Back

/-- The environment of the restored runtime, with the configuration that was set. -/
def restoredEnv (b : Builder σ ν) (s : NuSnapshot ν) (fresh : String → Option ν) :
    String → Option ν :=
  let env := assign "PWD" (b.engine.string s.currentCwd) (assignAll (b.savedEntries s) fresh)
  match s.config with
  | some (some value) => assign "config" value env
  | _ => env

theorem stored_config (ho : o.Lawful) (initialCwd : String) (rt : Runtime σ ν) :
    (o.stored (o.snapshot initialCwd rt)).config = (o.view rt.engine).config.map some := by
  show (o.view rt.engine).config.bind o.readConfig = _
  cases (o.view rt.engine).config with
  | none => rfl
  | some value => exact ho.readConfig value

/-- When the environment comes back. -/
theorem restoredEnv_iff (ho : o.Lawful) (initialCwd : String) (rt : Runtime σ ν)
    (fresh : String → Option ν) :
    restoredEnv b (o.stored (o.snapshot initialCwd rt)) fresh = (o.view rt.engine).env ↔
      (∀ key, key ≠ "PWD" → key ≠ "config" → (o.view rt.engine).env key = none →
        fresh key = none) ∧
      (o.view rt.engine).env "PWD" = some (b.engine.string rt.currentCwd) ∧
      match (o.view rt.engine).config with
      | some value => (o.view rt.engine).env "config" = some value
      | none => (o.view rt.engine).env "config" = fresh "config" := by
  have hcwd : (o.stored (o.snapshot initialCwd rt)).currentCwd = rt.currentCwd := rfl
  -- what the environment is at a key that is no directory and no configuration
  have hkey : ∀ key, key ≠ "PWD" → key ≠ "config" →
      restoredEnv b (o.stored (o.snapshot initialCwd rt)) fresh key =
        assignAll (b.savedEntries (o.stored (o.snapshot initialCwd rt))) fresh key := by
    intro key hpwd hconfig
    rw [restoredEnv, stored_config ho]
    cases (o.view rt.engine).config with
    | none => exact assign_other hpwd _ _
    | some value => exact (assign_other hconfig _ _).trans (assign_other hpwd _ _)
  have hpwd : restoredEnv b (o.stored (o.snapshot initialCwd rt)) fresh "PWD" =
      some (b.engine.string rt.currentCwd) := by
    rw [restoredEnv, stored_config ho, hcwd]
    cases (o.view rt.engine).config with
    | none => exact assign_same _ _ _
    | some value => exact (assign_other (by decide) _ _).trans (assign_same _ _ _)
  have hconfig : restoredEnv b (o.stored (o.snapshot initialCwd rt)) fresh "config" =
      match (o.view rt.engine).config with
      | some value => some value
      | none => fresh "config" := by
    rw [restoredEnv, stored_config ho]
    cases (o.view rt.engine).config with
    | none =>
      exact (assign_other (by decide) _ _).trans (savedEntries_none ho (.inr rfl) fresh)
    | some value => exact assign_same _ _ _
  constructor
  · intro henv
    refine ⟨fun key hnotPwd hnotConfig hnone => ?_, ?_, ?_⟩
    · have hsame := congrFun henv key
      rw [hkey key hnotPwd hnotConfig, savedEntries_none ho (.inl hnone), hnone] at hsame
      exact hsame
    · rw [← henv, hpwd]
    · rw [← henv, hconfig]
      cases (o.view rt.engine).config <;> rfl
  · rintro ⟨hinherited, hdirectory, hset⟩
    funext key
    by_cases hnotPwd : key = "PWD"
    · rw [hnotPwd, hpwd, hdirectory]
    · by_cases hnotConfig : key = "config"
      · rw [hnotConfig, hconfig]
        revert hset
        cases (o.view rt.engine).config with
        | none => exact Eq.symm
        | some value => exact Eq.symm
      · rw [hkey key hnotPwd hnotConfig]
        cases hvalue : (o.view rt.engine).env key with
        | none =>
          rw [savedEntries_none ho (.inl hvalue)]
          exact hinherited key hnotPwd hnotConfig hvalue
        | some value => exact savedEntries_some ho hnotConfig hvalue fresh

/-- What the restored engine is, once its declarations have been evaluated and its replays have
changed nothing. -/
theorem restored_view (ho : o.Lawful)
    (hnew : b.newRuntime initialCwd sandboxPolicy = .ok start)
    (hview : o.view declared.engine =
      { env := assign "PWD" (b.engine.string rt.currentCwd)
          (assignAll (b.savedEntries (o.stored (o.snapshot initialCwd rt)))
            (o.view start.engine).env)
        vars := assignAll (b.engine.sessionVariables rt.engine) (o.view start.engine).vars
        commands := assignAll (rt.customCommands.map fun source => (o.commandName source, source))
          (o.view start.engine).commands
        aliases := assignAll rt.aliases (o.view start.engine).aliases
        config := (o.view start.engine).config })
    (hdeclared : o.view mid.engine = o.view declared.engine) :
    o.view (b.restoreConfig (o.stored (o.snapshot initialCwd rt)) mid).engine =
      { env := restoredEnv b (o.stored (o.snapshot initialCwd rt)) (o.view start.engine).env
        vars := (o.view rt.engine).vars
        commands := assignAll (rt.customCommands.map fun source => (o.commandName source, source))
          (o.view start.engine).commands
        aliases := assignAll rt.aliases (o.view start.engine).aliases
        config := (o.view rt.engine).config.or (o.view start.engine).config } := by
  obtain ⟨engine, hengine, hset⟩ := restoreConfig_view ho (o.stored (o.snapshot initialCwd rt)) mid
  rw [restored_vars ho hnew] at hview
  have hcwd : (o.stored (o.snapshot initialCwd rt)).currentCwd = rt.currentCwd := rfl
  rw [hengine]
  dsimp only
  rw [hset, hdeclared, hview, restoredEnv, stored_config ho, hcwd]
  cases (o.view rt.engine).config <;> rfl

/-- The registers come back in their order. -/
theorem declared_cases (ho : o.Lawful) (hrt : rt.Registered)
    (hnew : b.newRuntime initialCwd sandboxPolicy = .ok start)
    (h : b.declare (o.stored (o.snapshot initialCwd rt)) start = (.ok (), declared)) :
    o.view declared.engine =
      { env := assign "PWD" (b.engine.string rt.currentCwd)
          (assignAll (b.savedEntries (o.stored (o.snapshot initialCwd rt)))
            (o.view start.engine).env)
        vars := assignAll (b.engine.sessionVariables rt.engine) (o.view start.engine).vars
        commands := assignAll (rt.customCommands.map fun source => (o.commandName source, source))
          (o.view start.engine).commands
        aliases := assignAll rt.aliases (o.view start.engine).aliases
        config := (o.view start.engine).config } ∧
    declared.currentCwd = rt.currentCwd ∧ declared.customCommands = rt.customCommands ∧
      declared.aliases = rt.aliases := by
  obtain ⟨-, -, -, hcommands, haliases⟩ := newRuntime_cases hnew
  obtain ⟨engine, rfl, hview⟩ := declare_view ho hrt.named h
  refine ⟨hview, rfl, ?_, ?_⟩
  · show rt.customCommands.foldl registerDef start.customCommands = rt.customCommands
    rw [hcommands]
    exact registerDef_again hrt.named hrt.commands
  · show rt.aliases.foldl _ start.aliases = rt.aliases
    rw [haliases]
    exact registerAlias_again hrt.aliases

theorem snapshot_same (ho : o.Lawful) (h : Agrees o rt rt')
    (hreplays : rt.replayCommands = rt'.replayCommands) :
    (o.snapshot initialCwd rt).Same (o.snapshot initialCwd rt') where
  initialCwd := rfl
  currentCwd := h.currentCwd
  env := by
    intro entry
    show entry ∈ (o.envVars rt.engine).filter _ ↔ entry ∈ (o.envVars rt'.engine).filter _
    rw [mem_filter, mem_filter, ho.envVars, ho.envVars, h.view]
  vars := ho.vars_sorted _ _ (congrArg View.vars h.view)
  customCommands := h.customCommands
  aliases := h.aliases
  replayCommands := hreplays
  config := congrArg View.config h.view

/-- What is restored where nothing is refused, as it can be observed. -/
theorem restored_agrees_iff (ho : o.Lawful) (hrt : rt.Registered)
    (hnew : b.newRuntime initialCwd sandboxPolicy = .ok start)
    (hdeclares : b.declare (o.stored (o.snapshot initialCwd rt)) start = (.ok (), declared))
    (hmid : Agrees o declared mid) :
    Agrees o rt (b.restoreConfig (o.stored (o.snapshot initialCwd rt)) mid) ↔
      restoredEnv b (o.stored (o.snapshot initialCwd rt)) (o.view start.engine).env =
          (o.view rt.engine).env ∧
        assignAll (rt.customCommands.map fun source => (o.commandName source, source))
          (o.view start.engine).commands = (o.view rt.engine).commands ∧
        assignAll rt.aliases (o.view start.engine).aliases = (o.view rt.engine).aliases ∧
        (o.view rt.engine).config.or (o.view start.engine).config = (o.view rt.engine).config := by
  obtain ⟨hview, hcwd, hcommands, haliases⟩ := declared_cases ho hrt hnew hdeclares
  have hrestored := restored_view ho hnew hview hmid.view.symm
  obtain ⟨engine, hengine, -⟩ := restoreConfig_view ho (o.stored (o.snapshot initialCwd rt)) mid
  constructor
  · intro h
    have hsame := h.view
    rw [hrestored] at hsame
    exact ⟨(congrArg View.env hsame).symm, (congrArg View.commands hsame).symm,
      (congrArg View.aliases hsame).symm, (congrArg View.config hsame).symm⟩
  · rintro ⟨henv, hdefs, hnames, hconfig⟩
    refine ⟨?_, ?_, ?_, ?_⟩
    · rw [hrestored, henv, hdefs, hnames, hconfig]
    · rw [hengine]
      exact hcwd.symm.trans hmid.currentCwd
    · rw [hengine]
      exact hcommands.symm.trans hmid.customCommands
    · rw [hengine]
      exact haliases.symm.trans hmid.aliases

theorem or_eq_self_iff {α : Type} (x y : Option α) :
    x.or y = x ↔ match x with | some _ => True | none => y = none := by
  cases x with
  | none => exact Iff.rfl
  | some value => exact iff_of_true rfl trivial

/-- The conditions on the engine, apart from its evaluation of the sources. -/
theorem restorable_iff (ho : o.Lawful) (hrt : rt.Registered)
    (hnew : b.newRuntime initialCwd sandboxPolicy = .ok start)
    (hdeclares : b.declare (o.stored (o.snapshot initialCwd rt)) start = (.ok (), declared))
    (hreplays : inTurn (rt.replayCommands.map b.restoreReplay) declared = (.ok (), mid))
    (hmid : Agrees o declared mid) :
    Restorable o initialCwd sandboxPolicy rt start declared ↔
      Agrees o rt (b.restoreConfig (o.stored (o.snapshot initialCwd rt)) mid) := by
  rw [restored_agrees_iff ho hrt hnew hdeclares hmid, restoredEnv_iff ho, or_eq_self_iff]
  constructor
  · rintro ⟨-, hinherited, hpwd, hconfig, hdefs, hnames, -, -⟩
    revert hconfig
    cases (o.view rt.engine).config with
    | none => exact fun hconfig => ⟨⟨hinherited, hpwd, hconfig.2⟩, hdefs, hnames, hconfig.1⟩
    | some value => exact fun hconfig => ⟨⟨hinherited, hpwd, hconfig⟩, hdefs, hnames, trivial⟩
  · rintro ⟨⟨hinherited, hpwd, hconfig⟩, hdefs, hnames, hset⟩
    refine ⟨hnew, hinherited, hpwd, ?_, hdefs, hnames, hdeclares, mid, hreplays, hmid⟩
    revert hconfig hset
    cases (o.view rt.engine).config with
    | none => exact fun hconfig hset => ⟨hset, hconfig⟩
    | some value => exact fun hconfig _ => hconfig

theorem Agrees.refl (o : Evaluator b) (rt : Runtime σ ν) : Agrees o rt rt := ⟨rfl, rfl, rfl, rfl⟩

theorem roundTrip_of_restorable (ho : o.Lawful) (hrt : rt.Registered)
    (h : Restorable o initialCwd sandboxPolicy rt start declared) :
    RoundTrip o initialCwd sandboxPolicy rt := by
  obtain ⟨mid, hreplays, hmid⟩ := h.replays
  have hkept : Agrees o declared
      { mid with
        vars := (o.stored (o.snapshot initialCwd rt)).vars
        replayCommands := (o.stored (o.snapshot initialCwd rt)).replayCommands } :=
    ⟨hmid.view, hmid.currentCwd, hmid.customCommands, hmid.aliases⟩
  have hself := (restorable_iff ho hrt h.new h.declares hreplays hmid).mp h
  have hagrees := (restored_agrees_iff ho hrt h.new h.declares hkept).mpr
    ((restored_agrees_iff ho hrt h.new h.declares hmid).mp hself)
  refine ⟨_, fromSnapshot_cases.mpr ⟨start, declared, mid, h.new, h.declares, hreplays, rfl⟩,
    hagrees, snapshot_same ho hagrees ?_⟩
  obtain ⟨engine, hengine, -⟩ := restoreConfig_view ho (o.stored (o.snapshot initialCwd rt))
    { mid with
      vars := (o.stored (o.snapshot initialCwd rt)).vars
      replayCommands := (o.stored (o.snapshot initialCwd rt)).replayCommands }
  rw [hengine]
  rfl

theorem restorable_of_roundTrip (ho : o.Lawful) (hrt : rt.Registered)
    (hnone : rt.replayCommands = []) (h : RoundTrip o initialCwd sandboxPolicy rt) :
    ∃ start declared, Restorable o initialCwd sandboxPolicy rt start declared := by
  obtain ⟨rt', hrt', hagrees, -⟩ := h
  obtain ⟨start, declared, mid, hnew, hdeclares, hreplays, rfl⟩ := fromSnapshot_cases.mp hrt'
  have hlist : (o.stored (o.snapshot initialCwd rt)).replayCommands = [] := hnone
  have hempty := hreplays
  rw [hlist] at hempty
  obtain ⟨-, rfl⟩ := mk.inj hempty
  have hstart : b.newRuntime initialCwd sandboxPolicy = .ok start := hnew
  have hkept : Agrees o declared
      { declared with
        vars := (o.stored (o.snapshot initialCwd rt)).vars
        replayCommands := (o.stored (o.snapshot initialCwd rt)).replayCommands } :=
    ⟨rfl, rfl, rfl, rfl⟩
  have hback := (restored_agrees_iff ho hrt hstart hdeclares hkept).mp hagrees
  have hself := Agrees.refl o declared
  exact ⟨start, declared, (restorable_iff ho hrt hstart hdeclares hreplays hself).mpr
    ((restored_agrees_iff ho hrt hstart hdeclares hself).mpr hback)⟩

/-- After every sequence of commands: a runtime that is restorable comes back from its snapshot,
and where nothing has to be replayed no other does. -/
theorem snapshot_round_trip (ho : o.Lawful) {first : Runtime σ ν}
    (policy : Sessionizer.SandboxPolicy) (hfirst : b.newRuntime initialCwd policy = .ok first)
    (commands : List String) :
    ((∃ start declared, Restorable o initialCwd sandboxPolicy (first.after b.engine commands) start
        declared) →
      RoundTrip o initialCwd sandboxPolicy (first.after b.engine commands)) ∧
    ((first.after b.engine commands).replayCommands = [] →
      RoundTrip o initialCwd sandboxPolicy (first.after b.engine commands) →
      ∃ start declared, Restorable o initialCwd sandboxPolicy (first.after b.engine commands) start
        declared) := by
  have hrt := after_registered (newRuntime_registered hfirst) commands (e := b.engine)
  constructor
  · rintro ⟨start, declared, h⟩
    exact roundTrip_of_restorable ho hrt h
  · exact restorable_of_roundTrip ho hrt

/-- An engine that knows environments and definitions. -/
structure Store where
  entries : List (String × String)
  nodup : (entries.map fst).Nodup
  commands : String → Option String
  config : Option String

namespace Store

def remove (s : Store) (key : String) : Store :=
  { s with
    entries := s.entries.filter fun entry => entry.1 ≠ key
    nodup := (filter_sublist.map fst).nodup s.nodup }

theorem not_mem_remove (s : Store) (key : String) : key ∉ (s.remove key).entries.map fst := by
  intro h
  obtain ⟨entry, hentry, hkey⟩ := mem_map.mp h
  exact of_decide_eq_true (mem_filter.mp hentry).2 hkey

def put (s : Store) (key value : String) : Store :=
  { s.remove key with
    entries := (key, value) :: (s.remove key).entries
    nodup := nodup_cons.mpr ⟨s.not_mem_remove key, (s.remove key).nodup⟩ }

def env (s : Store) : String → Option String := assignAll s.entries fun _ => none

theorem mem_entries (s : Store) (entry : String × String) :
    entry ∈ s.entries ↔ s.env entry.1 = some entry.2 := by
  constructor
  · exact fun h => assignAll_mem s.nodup h _
  · intro h
    by_cases hkey : entry.1 ∈ s.entries.map fst
    · obtain ⟨found, hfound, hsame⟩ := mem_map.mp hkey
      have hvalue := assignAll_mem s.nodup hfound fun _ => none
      rw [hsame] at hvalue
      have heq : found.2 = entry.2 := Option.some.inj (hvalue.symm.trans h)
      rw [← show found = entry from Prod.ext hsame heq]
      exact hfound
    · rw [env, assignAll_not_mem hkey] at h
      cases h

theorem env_put (s : Store) (key value : String) :
    (s.put key value).env = assign key value s.env := by
  funext other
  by_cases hother : other = key
  · subst hother
    rw [assign_same]
    exact ((s.put other value).mem_entries (other, value)).mp mem_cons_self
  · rw [assign_other hother]
    have hmem (found : String) : (other, found) ∈ (s.put key value).entries ↔
        (other, found) ∈ s.entries := by
      show (other, found) ∈ (key, value) :: s.entries.filter _ ↔ _
      simp [hother]
    cases hold : s.env other with
    | some found =>
      exact ((s.put key value).mem_entries (other, found)).mp
        ((hmem found).mpr ((s.mem_entries (other, found)).mpr hold))
    | none =>
      cases hnew : (s.put key value).env other with
      | none => rfl
      | some found =>
        have hback := (s.mem_entries (other, found)).mp
          ((hmem found).mp (((s.put key value).mem_entries (other, found)).mpr hnew))
        rw [hold] at hback
        cases hback

end Store

def definedName (source : String) : String := (extractDefName source).getD ""

def storeEngine : Engine Store String where
  evalStringOnce := fun s source =>
    if (extractDefName source).isSome then
      (.ok "", { s with commands := assign (definedName source) source s.commands })
    else (.error "unknown", s)
  evalValue := fun s _ => (.error "unknown", s)
  asRecord := fun _ => none
  coerceStr := some
  string := id
  getEnvVar := fun s key => s.env key
  addEnvVar := Store.put
  removeEnvVar := Store.remove
  cwd := fun s => s.env "PWD"
  sessionVariables := fun _ => []
  home := fun _ => none
  canonicalize := fun _ path => .ok path
  isDir := fun _ _ => true
  sha256 := fun _ _ => .ok ""
  split := fun _ => none

def storeBuilder : Builder Store String where
  engine := storeEngine
  started := .ok ⟨[("HOME", "/root")], by decide, fun _ => none, none⟩
  addVariable := fun s _ => (.error "no variables", s)
  setConfig := fun s value => { s with config := some value }

def storeEvaluator : Evaluator storeBuilder where
  view := fun s => ⟨s.env, fun _ => none, s.commands, fun _ => none, s.config⟩
  commandName := definedName
  envVars := Store.entries
  readEnv := fun entries => some (some entries)
  readConfig := fun value => some (some value)

theorem storeEngine_eval (s : Store) (source : String) :
    storeEngine.evalString s source = storeEngine.evalStringOnce s source := by
  rw [Engine.evalString]
  by_cases h : (extractDefName source).isSome = true
  · have honce : storeEngine.evalStringOnce s source =
        (.ok "", { s with commands := assign (definedName source) source s.commands }) := if_pos h
    rw [honce]
  · have honce : storeEngine.evalStringOnce s source = (.error "unknown", s) := if_neg h
    have hunknown : Engine.externalCommandsNotSupported "unknown" = false := by decide
    rw [honce]
    dsimp only
    rw [hunknown, Bool.false_and, if_neg Bool.false_ne_true]

theorem extractDefName_alias (rest : String) : extractDefName ("alias " ++ rest) = none := by
  have hlist : ("alias " ++ rest).toList =
      'a' :: 'l' :: 'i' :: 'a' :: 's' :: ' ' :: rest.toList := by
    rw [String.toList_append]
    rfl
  rw [extractDefName, hlist]
  rfl

theorem storeEvaluator_lawful : storeEvaluator.Lawful where
  envVars := fun s entry => s.mem_entries entry
  envVars_nodup := Store.nodup
  addEnvVar := fun s key value => congrArg
    (fun env => (⟨env, fun _ => none, s.commands, fun _ => none, s.config⟩ : View String))
    (s.env_put key value)
  addVariable := fun _ _ _ h => nomatch h
  evalDef := by
    intro s s' source output hsome h
    rw [show storeBuilder.engine = storeEngine from rfl, storeEngine_eval] at h
    have honce : storeEngine.evalStringOnce s source =
        (.ok "", { s with commands := assign (definedName source) source s.commands }) :=
      if_pos hsome
    rw [honce] at h
    obtain ⟨-, rfl⟩ := mk.inj h
    rfl
  evalAlias := by
    intro s s' name expansion output h
    rw [show storeBuilder.engine = storeEngine from rfl, storeEngine_eval, String.append_assoc,
      String.append_assoc] at h
    have hnone := extractDefName_alias (name ++ (" = " ++ expansion))
    have honce : storeEngine.evalStringOnce s ("alias " ++ (name ++ (" = " ++ expansion))) =
        (.error "unknown", s) := if_neg (by rw [hnone]; exact Bool.false_ne_true)
    rw [honce] at h
    cases h
  setConfig := fun _ _ => rfl
  vars := fun _ _ => iff_of_false not_mem_nil fun h => nomatch h
  vars_nodup := fun _ => .nil
  vars_sorted := fun _ _ _ => rfl
  started := fun _ _ => rfl
  readEnv := fun entries h => ⟨entries, rfl, h, fun _ => Iff.rfl⟩
  readConfig := fun _ => rfl

/-- The runtime of the small engine after some commands. -/
def storeRuntime (commands : List String) : Runtime Store String :=
  (⟨Store.put ⟨[("HOME", "/root")], by decide, fun _ => none, none⟩ "PWD" "/root", "/root",
    .readOnly, [], [], [], [], []⟩ : Runtime Store String).after storeEngine commands

def greetCommands : List String := ["def greet [] \x7b 1 \x7d", "cd /repo"]

theorem greet_round_trip :
    RoundTrip storeEvaluator "/root" .readOnly (storeRuntime greetCommands) := by
  refine (snapshot_round_trip storeEvaluator_lawful .readOnly rfl greetCommands).1
    ⟨storeRuntime [], _, rfl, ?_, rfl, ⟨rfl, rfl⟩, rfl, rfl, rfl, _, rfl, Agrees.refl _ _⟩
  intro key hpwd _ hnone
  by_cases hhome : key = "HOME"
  · rw [hhome] at hnone
    exact absurd hnone (by decide)
  · exact (assign_other hhome _ _).trans (assign_other hpwd _ _)

/-- The process has a variable that is hidden, and it is there again. -/
theorem hidden_comes_back : ¬ ∀ (σ ν : Type) (b : Builder σ ν) (o : Evaluator b), o.Lawful →
    ∀ (initialCwd : String) (policy sandboxPolicy : Sessionizer.SandboxPolicy)
      (first : Runtime σ ν), b.newRuntime initialCwd policy = .ok first →
      ∀ commands, RoundTrip o initialCwd sandboxPolicy (first.after b.engine commands) := by
  intro hall
  have hback := hall Store String storeBuilder storeEvaluator storeEvaluator_lawful "/root"
    .readOnly .readOnly _ rfl ["hide-env HOME"]
  have hregistered : (storeRuntime ["hide-env HOME"]).Registered :=
    after_registered ⟨fun _ h => absurd h not_mem_nil, .nil, .nil⟩ _
  obtain ⟨start, declared, hrestorable⟩ :=
    restorable_of_roundTrip storeEvaluator_lawful hregistered rfl hback
  have hstart : start = storeRuntime [] := (Except.ok.inj hrestorable.new).symm
  have hhome := hrestorable.inherited "HOME" (by decide) (by decide) rfl
  rw [hstart] at hhome
  cases hhome

end ColossalCode.Nu
