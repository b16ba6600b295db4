import ColossalCode.Nu.Restore

/-! The snapshot of a managed Nu runtime, the engine as an evaluator of declarations and of
operations on the environment, and what every run keeps of the registered sources. -/
namespace ColossalCode.Nu
open List Option Runtime

variable {σ ν α : Type} {b : Builder σ ν}

def assign (key : String) (value : α) (f : String → Option α) : String → Option α :=
  fun other => if other = key then some value else f other

/-- Entries that are put in one after the other. -/
def assignAll (entries : List (String × α)) (f : String → Option α) : String → Option α :=
  entries.foldl (fun f entry => assign entry.1 entry.2 f) f

theorem assignAll_cons (entry : String × α) (entries : List (String × α)) (f : String → Option α) :
    assignAll (entry :: entries) f = assignAll entries (assign entry.1 entry.2 f) := rfl

theorem assign_same (key : String) (value : α) (f : String → Option α) :
    assign key value f key = some value := if_pos rfl

theorem assign_other {key other : String} (h : other ≠ key) (value : α) (f : String → Option α) :
    assign key value f other = f other := if_neg h

variable {entries : List (String × α)} {rt : Runtime σ ν}

theorem assignAll_not_mem {key : String}
    (h : key ∉ entries.map Prod.fst) (f : String → Option α) : assignAll entries f key = f key := by
  induction entries generalizing f with
  | nil => rfl
  | cons entry entries ih =>
    rw [map_cons, mem_cons, not_or] at h
    rw [assignAll_cons, ih h.2, assign_other h.1]

/-- Of distinct keys each has its own value afterwards. -/
theorem assignAll_mem (hnodup : (entries.map Prod.fst).Nodup)
    {entry : String × α} (h : entry ∈ entries) (f : String → Option α) :
    assignAll entries f entry.1 = some entry.2 := by
  induction entries generalizing f with
  | nil => cases h
  | cons first entries ih =>
    rw [map_cons, nodup_cons] at hnodup
    rw [assignAll_cons]
    rcases mem_cons.mp h with rfl | h
    · rw [assignAll_not_mem hnodup.1, assign_same]
    · exact ih hnodup.2 h _

/-- What can be observed of an engine: the environment, the variables with whether they may change,
the sources of the custom commands, the expansions of the aliases, and a configuration that has been
set. -/
@[ext]
structure View (ν : Type) where
  env : String → Option ν
  vars : String → Option (Bool × ν)
  commands : String → Option String
  aliases : String → Option String
  config : Option ν

/-- The engine as an evaluator of declarations, and the JSON that a snapshot writes: none where it
cannot be written, `some none` where what is written cannot be read. -/
structure Evaluator (b : Builder σ ν) where
  view : σ → View ν
  /-- The name that the engine gives to a definition. -/
  commandName : String → String
  envVars : σ → List (String × ν)
  readEnv : List (String × ν) → Option (Option (List (String × ν)))
  readConfig : ν → Option (Option ν)

/-- What the operations of the engine do to what is observed. -/
structure Evaluator.Lawful (o : Evaluator b) : Prop where
  envVars : ∀ s entry, entry ∈ o.envVars s ↔ (o.view s).env entry.1 = some entry.2
  envVars_nodup : ∀ s, ((o.envVars s).map Prod.fst).Nodup
  addEnvVar : ∀ s key value, o.view (b.engine.addEnvVar s key value) =
    { o.view s with env := assign key value (o.view s).env }
  addVariable : ∀ s s' entry, b.addVariable s entry = (.ok (), s') →
    o.view s' = { o.view s with vars := assign entry.1 entry.2 (o.view s).vars }
  evalDef : ∀ s s' source output, (extractDefName source).isSome = true →
    b.engine.evalString s source = (.ok output, s') →
    o.view s' = { o.view s with
      commands := assign (o.commandName source) source (o.view s).commands }
  evalAlias : ∀ s s' name expansion output,
    b.engine.evalString s ("alias " ++ name ++ " = " ++ expansion) = (.ok output, s') →
    o.view s' = { o.view s with aliases := assign name expansion (o.view s).aliases }
  setConfig : ∀ s value, o.view (b.setConfig s value) = { o.view s with config := some value }
  /-- A listing has each variable once, and is the same for the same variables. -/
  vars : ∀ s entry, entry ∈ b.engine.sessionVariables s ↔
    (o.view s).vars entry.1 = some entry.2
  vars_nodup : ∀ s, ((b.engine.sessionVariables s).map Prod.fst).Nodup
  vars_sorted : ∀ s s', (o.view s).vars = (o.view s').vars →
    b.engine.sessionVariables s = b.engine.sessionVariables s'
  started : ∀ s, b.started = .ok s → (o.view s).vars = fun _ => none
  /-- What is written as JSON is read back, in whatever order. -/
  readEnv : ∀ entries, (entries.map Prod.fst).Nodup → ∃ entries',
    o.readEnv entries = some (some entries') ∧ (entries'.map Prod.fst).Nodup ∧
      ∀ entry, entry ∈ entries' ↔ entry ∈ entries
  readConfig : ∀ value, o.readConfig value = some (some value)

/-- What `snapshot` writes down. -/
structure Recorded (ν : Type) where
  initialCwd : String
  currentCwd : String
  env : List (String × ν)
  vars : List (String × Bool × ν)
  customCommands : List String
  aliases : List (String × String)
  replayCommands : List ReplayCommand
  config : Option ν

/-- The same up to the order of the environment, which is that of a hash map. -/
structure Recorded.Same (r r' : Recorded ν) : Prop where
  initialCwd : r.initialCwd = r'.initialCwd
  currentCwd : r.currentCwd = r'.currentCwd
  env : ∀ entry, entry ∈ r.env ↔ entry ∈ r'.env
  vars : r.vars = r'.vars
  customCommands : r.customCommands = r'.customCommands
  aliases : r.aliases = r'.aliases
  replayCommands : r.replayCommands = r'.replayCommands
  config : r.config = r'.config

namespace Evaluator

variable (o : Evaluator b)

/-- `snapshot`, which first notes the variables of the engine. -/
def snapshot (initialCwd : String) (rt : Runtime σ ν) : Recorded ν :=
  let rt := rt.syncPersistentVariables b.engine
  { initialCwd
    currentCwd := rt.currentCwd
    env := (o.envVars rt.engine).filter fun entry => entry.1 ≠ "config"
    vars := rt.vars
    customCommands := rt.customCommands
    aliases := rt.aliases
    replayCommands := rt.replayCommands
    config := (o.view rt.engine).config }

/-- A snapshot as it is stored: the environment as JSON, and as texts where it has one. -/
def stored (r : Recorded ν) : NuSnapshot ν where
  initialCwd := r.initialCwd
  currentCwd := r.currentCwd
  envVars := r.env.filterMap fun entry => (b.engine.coerceStr entry.2).map fun text =>
    (entry.1, text)
  structuredEnv := o.readEnv r.env
  vars := r.vars
  customCommands := r.customCommands
  aliases := r.aliases
  replayCommands := r.replayCommands
  config := r.config.bind o.readConfig

end Evaluator

/-- Each command is registered once and has a name; each alias is registered once. -/
structure Runtime.Registered (rt : Runtime σ ν) : Prop where
  named : ∀ source ∈ rt.customCommands, (extractDefName source).isSome = true
  commands : rt.customCommands.Pairwise fun source later =>
    extractDefName source ≠ extractDefName later
  aliases : rt.aliases.Pairwise fun found later => found.1 ≠ later.1

theorem registerDef_registered {customCommands : List String}
    (hnamed : ∀ source ∈ customCommands, (extractDefName source).isSome = true)
    (hcommands : customCommands.Pairwise fun source later =>
      extractDefName source ≠ extractDefName later) (source : String) :
    (∀ e ∈ registerDef customCommands source, (extractDefName e).isSome = true) ∧
      (registerDef customCommands source).Pairwise fun e later =>
        extractDefName e ≠ extractDefName later := by
  unfold registerDef
  split
  · rename_i name hname
    refine ⟨fun e he => ?_, ?_⟩
    · rcases mem_append.mp he with hold | hnew
      · exact hnamed e (mem_filter.mp hold).1
      · rw [mem_singleton.mp hnew, hname]
        rfl
    · refine pairwise_append.mpr ⟨hcommands.filter _, pairwise_singleton _ _, ?_⟩
      intro e he later hlater
      rw [mem_singleton.mp hlater, hname]
      simpa using (mem_filter.mp he).2
  · exact ⟨hnamed, hcommands⟩

theorem registerAlias_registered (h : rt.Registered) (name expansion : String) :
    (rt.registerAlias name expansion).Registered := by
  refine ⟨h.named, h.commands, ?_⟩
  refine pairwise_append.mpr ⟨h.aliases.filter _, pairwise_singleton _ _, ?_⟩
  intro found hfound later hlater
  rw [mem_singleton.mp hlater]
  simpa using (mem_filter.mp hfound).2

theorem Runtime.Registered.of_same {rt rt' : Runtime σ ν} (h : rt.Registered)
    (hcommands : rt'.customCommands = rt.customCommands) (haliases : rt'.aliases = rt.aliases) :
    rt'.Registered := by
  refine ⟨?_, ?_, ?_⟩
  · rw [hcommands]
    exact h.named
  · rw [hcommands]
    exact h.commands
  · rw [haliases]
    exact h.aliases

section Run

variable {e : Engine σ ν}

theorem recordReplaySegment_lists (rt : Runtime σ ν) (trimmed : String) :
    (rt.recordReplaySegment e trimmed).2.customCommands = rt.customCommands ∧
      (rt.recordReplaySegment e trimmed).2.aliases = rt.aliases := by
  unfold recordReplaySegment
  split
  · dsimp only
    split <;> exact ⟨rfl, rfl⟩
  · exact ⟨rfl, rfl⟩

theorem syncCwdFromStack_lists (rt : Runtime σ ν) :
    (rt.syncCwdFromStack e).customCommands = rt.customCommands ∧
      (rt.syncCwdFromStack e).aliases = rt.aliases := by
  unfold syncCwdFromStack
  split
  · split <;> exact ⟨rfl, rfl⟩
  · exact ⟨rfl, rfl⟩

theorem runEval_registered {trimmed : String}
    {after : Runtime σ ν → Except String Unit × Runtime σ ν}
    (hafter : ∀ rt : Runtime σ ν, rt.Registered → (after rt).2.Registered) (h : rt.Registered) :
    (rt.runEval e trimmed after).2.Registered := by
  unfold runEval
  split
  · exact h.of_same rfl rfl
  · rename_i output s hs
    have hrt : ({ rt with engine := s } : Runtime σ ν).Registered := h.of_same rfl rfl
    have hdone := hafter _ hrt
    split
    · rename_i hresult
      rw [hresult] at hdone
      exact hdone
    · rename_i hresult
      rw [hresult] at hdone
      exact hdone

theorem runGeneral_registered (h : rt.Registered) (trimmed : String) :
    (rt.runGeneral e trimmed).2.Registered := by
  refine runEval_registered (fun rt hrt => ?_) h
  obtain ⟨hcommands, haliases⟩ := recordReplaySegment_lists (e := e) rt trimmed
  have hrecorded := hrt.of_same hcommands haliases
  split
  · rename_i hresult
    rw [hresult] at hrecorded
    exact hrecorded
  · rename_i rt' hresult
    rw [hresult] at hrecorded
    obtain ⟨hcommands', haliases'⟩ := syncCwdFromStack_lists (e := e) rt'
    exact hrecorded.of_same hcommands' haliases'

theorem runSource_registered (h : rt.Registered) (trimmed : String) :
    (rt.runSource e trimmed).2.Registered := by
  unfold runSource
  split
  · refine runEval_registered (fun rt hrt => ?_) h
    obtain ⟨hnamed, hcommands⟩ := registerDef_registered hrt.named hrt.commands trimmed
    exact ⟨hnamed, hcommands, hrt.aliases⟩
  · split
    · exact runEval_registered (fun rt hrt => registerAlias_registered hrt _ _) h
    · exact runGeneral_registered h trimmed

theorem runLoadEnv_registered (h : rt.Registered) (expr : String) :
    (rt.runLoadEnv e expr).2.Registered := by
  unfold runLoadEnv
  split
  · exact h.of_same rfl rfl
  · rename_i value s hs
    split
    · rename_i fields hfields
      have hfold : ∀ (fields : List (String × ν)) (rt : Runtime σ ν), rt.Registered →
          (fields.foldl (fun rt field => rt.loadField e field.1 field.2) rt).Registered := by
        intro fields
        induction fields with
        | nil => exact fun _ hrt => hrt
        | cons field fields ih => exact fun rt hrt => ih _ (hrt.of_same rfl rfl)
      exact hfold fields _ (h.of_same rfl rfl)
    · exact h.of_same rfl rfl

theorem runHideEnv_registered (h : rt.Registered) (trimmed name : String) :
    (rt.runHideEnv e trimmed name).2.Registered := by
  unfold runHideEnv
  have hhidden (name : String) :
      ({ rt with engine := e.removeEnvVar rt.engine name } : Runtime σ ν).Registered :=
    h.of_same rfl rfl
  dsimp only
  split
  · obtain ⟨hcommands, haliases⟩ := recordReplaySegment_lists (e := e)
      ({ rt with engine := e.removeEnvVar rt.engine (unquoted (Text.trim name)) } : Runtime σ ν)
      trimmed
    have hrecorded := (hhidden _).of_same hcommands haliases
    split
    · rename_i hresult
      rw [hresult] at hrecorded
      exact hrecorded
    · rename_i hresult
      rw [hresult] at hrecorded
      exact hrecorded
  · exact hhidden _

/-- A segment keeps the registers in order. -/
theorem runSegment_registered (h : rt.Registered) (segment : String) :
    (rt.runSegment e segment).2.Registered := by
  unfold runSegment
  dsimp only
  split
  · exact h
  split
  · exact h
  split
  · unfold runCd
    dsimp only
    split
    · exact h.of_same rfl rfl
    · exact h
  split
  · exact runLoadEnv_registered h _
  split
  · exact runHideEnv_registered h _ _
  · exact runSource_registered h _

theorem runSegments_registered (segments : List String) (collected : String) (h : rt.Registered) :
    (rt.runSegments e collected segments).2.Registered := by
  induction segments generalizing rt collected with
  | nil => exact h
  | cons segment rest ih =>
    have hsegment := runSegment_registered (e := e) h segment
    unfold runSegments
    split
    · rename_i hresult
      rw [hresult] at hsegment
      exact ih _ hsegment
    · rename_i hresult
      rw [hresult] at hsegment
      exact hsegment

end Run

/-- A new runtime after some commands. -/
def Runtime.after (e : Engine σ ν) (rt : Runtime σ ν) (commands : List String) : Runtime σ ν :=
  commands.foldl (fun rt command => (rt.execCommand e command).2) rt

theorem after_cons (e : Engine σ ν) (rt : Runtime σ ν) (command : String) (commands : List String) :
    rt.after e (command :: commands) = (rt.execCommand e command).2.after e commands := by
  rw [Runtime.after, Runtime.after, foldl_cons]

theorem after_registered {e : Engine σ ν} (h : rt.Registered)
    (commands : List String) : (rt.after e commands).Registered := by
  induction commands generalizing rt with
  | nil => exact h
  | cons command commands ih =>
    have hnoted : (rt.noted command).Registered := by
      unfold noted
      exact ⟨h.named, h.commands, h.aliases⟩
    have hrun : (rt.execCommand e command).2.Registered := by
      rw [execCommand]
      exact runSegments_registered _ _ hnoted
    rw [after_cons]
    exact ih hrun

theorem newRuntime_registered {initialCwd : String} {sandboxPolicy : Sessionizer.SandboxPolicy}
    (h : b.newRuntime initialCwd sandboxPolicy = .ok rt) : rt.Registered := by
  unfold Builder.newRuntime at h
  cases hstarted : b.started with
  | error error =>
    rw [hstarted] at h
    cases h
  | ok s =>
    rw [hstarted] at h
    obtain rfl := Except.ok.inj h
    exact ⟨fun _ he => absurd he not_mem_nil, .nil, .nil⟩

/-- What is registered once is registered in the same order when it is registered again. -/
theorem registerDef_again {before sources : List String}
    (hnamed : ∀ source ∈ before ++ sources, (extractDefName source).isSome = true)
    (hcommands : (before ++ sources).Pairwise fun source later =>
      extractDefName source ≠ extractDefName later) :
    sources.foldl registerDef before = before ++ sources := by
  induction sources generalizing before with
  | nil => simp
  | cons source sources ih =>
    have hsome := hnamed source (by simp)
    obtain ⟨name, hname⟩ := isSome_iff_exists.mp hsome
    have hkept : before.filter (fun existing => extractDefName existing ≠ some name) = before := by
      rw [filter_eq_self]
      intro existing hexisting
      rw [decide_eq_true_eq, ← hname]
      exact (pairwise_append.mp hcommands).2.2 existing hexisting source mem_cons_self
    have hregister : registerDef before source = before ++ [source] := by
      rw [registerDef, hname]
      dsimp only
      rw [hkept]
    rw [foldl_cons, hregister, ih]
    · rw [append_assoc, singleton_append]
    · rw [append_assoc, singleton_append]
      exact hnamed
    · rw [append_assoc, singleton_append]
      exact hcommands

/-- The same for aliases, on the list of them. -/
theorem registerAlias_again {before found : List (String × String)}
    (h : (before ++ found).Pairwise fun found later => found.1 ≠ later.1) :
    found.foldl (fun aliases found =>
      (aliases.filter fun existing => existing.1 ≠ found.1) ++ [found]) before =
        before ++ found := by
  induction found generalizing before with
  | nil => simp
  | cons first found ih =>
    have hkept : before.filter (fun existing => existing.1 ≠ first.1) = before := by
      rw [filter_eq_self]
      intro existing hexisting
      rw [decide_eq_true_eq]
      exact (pairwise_append.mp h).2.2 existing hexisting first mem_cons_self
    rw [foldl_cons, hkept, ih]
    · rw [append_assoc, singleton_append]
    · rw [append_assoc, singleton_append]
      exact h

end ColossalCode.Nu
