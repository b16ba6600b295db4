import ColossalCode.Protocol.Text

/-! The settings that reach the upstream builder for a model, alone, among others and later. -/
namespace ColossalCode.ModelServer.Upstream
open List Option

/-- What both a model's configuration and the builder may hold. -/
structure Layer where
  chatTemplate : Option String
  jinjaExplicit : Option String
  numDeviceLayers : Option (List String)
  inSituQuant : Option String

def Layer.orElse (own other : Layer) : Layer :=
  ⟨own.chatTemplate.or other.chatTemplate, own.jinjaExplicit.or other.jinjaExplicit,
    own.numDeviceLayers.or other.numDeviceLayers, own.inSituQuant.or other.inSituQuant⟩

structure PagedSizes (F : Type) where
  gpuMem : Option Nat
  gpuMemUsage : Option F
  blockSize : Option Nat

def PagedSizes.orElse {F : Type} (own other : PagedSizes F) : PagedSizes F :=
  ⟨own.gpuMem.or other.gpuMem, own.gpuMemUsage.or other.gpuMemUsage,
    own.blockSize.or other.blockSize⟩

/-- What the engine decides by itself. -/
structure Engine where
  defaultMaxSeqLen : Nat
  parseDtype : String → Except String String

structure ModelBuilderParams (F : Type) where
  modelId : String
  source : String
  tokenizerJson : Option String
  dtype : Option String
  hfCachePath : Option String
  matformerConfigPath : Option String
  matformerSliceName : Option String
  contextLength : Option Nat
  modelBaseDir : Option String
  layer : Layer
  pagedAttn : Option Bool
  pagedSizes : PagedSizes F
  pagedCtxtLen : Option Nat
  prefixCacheN : Option Nat

inductive ModelSelected where
  | toml (file : String)
  | run (modelId : String) (tokenizerJson : Option String) (dtype : String) (maxSeqLen : Nat)
      (hfCachePath matformerConfigPath matformerSliceName : Option String)

structure ModelConfig where
  modelId : String
  model : ModelSelected
  layer : Layer

structure SchedulerSection (F : Type) where
  prefixCacheN : Option Nat
  pagedAttn : Option Bool
  pagedSizes : PagedSizes F
  modelBaseDir : Option String

structure ServerConfig (F : Type) where
  scheduler : SchedulerSection F
  models : List (ModelBuilderParams F)

/-- `MistralRsForServerBuilder` -/
structure Builder (F : Type) where
  model : Option ModelSelected
  models : List ModelConfig
  layer : Layer
  prefixCacheN : Nat
  pagedAttn : Option Bool
  pagedSizes : PagedSizes F
  pagedCtxtLen : Option Nat

/-- What the engine of a model is made with. -/
structure Settings (F : Type) where
  model : ModelSelected
  layer : Layer
  prefixCacheN : Nat
  pagedAttn : Option Bool
  pagedSizes : PagedSizes F
  pagedCtxtLen : Option Nat

variable {F : Type}

def Builder.default : Builder F :=
  ⟨none, [], ⟨none, none, none, none⟩, 16, none, ⟨none, none, none⟩, none⟩

section

variable (e : Engine)

def parseModelSource (raw : String) : Except String (String × Bool) :=
  if Text.startsWith raw "toml://" then .ok (String.ofList (raw.toList.drop 7), true)
  else if ".toml".toList.isSuffixOf raw.toList then .ok (raw, true)
  else
    let trimmed := Text.trim
      (if Text.startsWith raw "hf://" then String.ofList (raw.toList.drop 5) else raw)
    if trimmed.isEmpty then .error ("model source '" ++ raw ++ "' produced empty identifier")
    else .ok (trimmed, false)

namespace ModelBuilderParams

variable (params : ModelBuilderParams F)

def buildModelSelected : Except String ModelSelected := do
  let (source, isToml) ← parseModelSource params.source
  if isToml then return .toml source
  let dtype ← (params.dtype.map e.parseDtype).getD (.ok "auto")
  return .run source params.tokenizerJson dtype (params.contextLength.getD e.defaultMaxSeqLen)
    (params.hfCachePath.or params.modelBaseDir) params.matformerConfigPath params.matformerSliceName

def toUpstreamModelConfig : Except String ModelConfig := do
  return ⟨params.modelId, ← params.buildModelSelected e, params.layer⟩

end ModelBuilderParams

/-- The base directory is that of the scheduler, and the other parameters are the section's. -/
def ServerConfig.params (cfg : ServerConfig F) : List (ModelBuilderParams F) :=
  cfg.models.map fun model => { model with modelBaseDir := cfg.scheduler.modelBaseDir }

def Builder.scheduled (scheduler : SchedulerSection F) : Builder F :=
  let b : Builder F := .default
  let b := { b with prefixCacheN := scheduler.prefixCacheN.getD b.prefixCacheN }
  match scheduler.pagedAttn with
  | some enabled =>
    { b with pagedAttn := some enabled, pagedSizes := scheduler.pagedSizes.orElse b.pagedSizes }
  | none => b

def Builder.applyModelOverrides (b : Builder F) (params : ModelBuilderParams F) : Builder F :=
  { b with
    layer := params.layer.orElse b.layer
    prefixCacheN := params.prefixCacheN.getD b.prefixCacheN
    pagedAttn := params.pagedAttn.or b.pagedAttn
    pagedSizes := params.pagedSizes.orElse b.pagedSizes
    pagedCtxtLen := params.pagedCtxtLen.or b.pagedCtxtLen }

namespace ServerConfig

def toBuilder (cfg : ServerConfig F) : Except String (Builder F) := do
  let b := Builder.scheduled cfg.scheduler
  match cfg.params with
  | [params] =>
    let model ← params.buildModelSelected e
    return { b with model := some model }.applyModelOverrides params
  | models => return { b with models := ← models.mapM (·.toUpstreamModelConfig e) }

end ServerConfig

def Builder.settings (b : Builder F) (model : ModelSelected) (layer : Layer) : Settings F :=
  ⟨model, layer.orElse b.layer, b.prefixCacheN, b.pagedAttn, b.pagedSizes, b.pagedCtxtLen⟩

/-- The settings of a model that is there from the start. -/
def Builder.settingsOf (b : Builder F) (modelId : String) : Option (Settings F) :=
  match b.model with
  | some model => some (b.settings model ⟨none, none, none, none⟩)
  | none => (b.models.find? fun config => config.modelId == modelId).map fun config =>
      b.settings config.model config.layer

/-- The settings of a model that is loaded later. -/
def ServerConfig.loadModel (cfg : ServerConfig F) (params : ModelBuilderParams F) :
    Except String (Settings F) := do
  let b ← cfg.toBuilder e
  let config ← params.toUpstreamModelConfig e
  return b.settings config.model config.layer

def ServerConfig.started (cfg : ServerConfig F) (params : ModelBuilderParams F) :
    Except String (Option (Settings F)) :=
  (cfg.toBuilder e).map (·.settingsOf params.modelId)

/-- The model's own settings, and otherwise those of the scheduler. -/
def ModelBuilderParams.own (params : ModelBuilderParams F) (scheduler : SchedulerSection F)
    (model : ModelSelected) : Settings F :=
  ⟨model, params.layer, (params.prefixCacheN.or scheduler.prefixCacheN).getD 16,
    params.pagedAttn.or scheduler.pagedAttn, params.pagedSizes.orElse scheduler.pagedSizes,
    params.pagedCtxtLen⟩

/-- The settings are the model's own when it is alone, when it is not, and when it comes later. -/
def ServerConfig.Independent (cfg : ServerConfig F) (params : ModelBuilderParams F) : Prop :=
  ∃ model, params.buildModelSelected e = .ok model ∧
    let own := params.own cfg.scheduler model
    { cfg with models := [params] }.started e params = .ok (some own) ∧
      cfg.started e params = .ok (some own) ∧
      cfg.loadModel e params = .ok own

structure ServerConfig.Accepted (cfg : ServerConfig F) : Prop where
  nodup : (cfg.models.map ModelBuilderParams.modelId).Nodup
  built : ∃ b, cfg.toBuilder e = .ok b

end

/-- The sizes that the scheduler hands on. -/
def SchedulerSection.sizes (scheduler : SchedulerSection F) : PagedSizes F :=
  if scheduler.pagedAttn.isSome then scheduler.pagedSizes else ⟨none, none, none⟩

/-- None of the model's settings but those of its configuration differs from the scheduler's. -/
structure ModelBuilderParams.Plain (params : ModelBuilderParams F)
    (scheduler : SchedulerSection F) : Prop where
  prefixCacheN : (params.prefixCacheN.or scheduler.prefixCacheN).getD 16 =
    scheduler.prefixCacheN.getD 16
  pagedAttn : params.pagedAttn.or scheduler.pagedAttn = scheduler.pagedAttn
  pagedSizes : params.pagedSizes.orElse scheduler.pagedSizes = scheduler.sizes
  pagedCtxtLen : params.pagedCtxtLen = none

variable {e : Engine} {cfg : ServerConfig F} {params : ModelBuilderParams F} {model : ModelSelected}
  (scheduler : SchedulerSection F) (layer : Layer)

theorem scheduled_eq : Builder.scheduled scheduler =
    ⟨none, [], ⟨none, none, none, none⟩, scheduler.prefixCacheN.getD 16, scheduler.pagedAttn,
      scheduler.sizes, none⟩ := by
  unfold Builder.scheduled SchedulerSection.sizes
  cases scheduler.pagedAttn <;> simp [Builder.default, PagedSizes.orElse]

@[simp] theorem layer_orElse_self : layer.orElse layer = layer := by
  simp [Layer.orElse]

@[simp] theorem layer_orElse_none :
    layer.orElse ⟨none, none, none, none⟩ = layer := by
  simp [Layer.orElse]

@[simp] theorem layer_none_orElse :
    Layer.orElse ⟨none, none, none, none⟩ layer = layer := by
  simp [Layer.orElse]

def ModelBuilderParams.alone (params : ModelBuilderParams F) (scheduler : SchedulerSection F)
    (model : ModelSelected) : Settings F :=
  { params.own scheduler model with pagedSizes := params.pagedSizes.orElse scheduler.sizes }

theorem single_settings (hcfg : cfg.params = [params])
    (hmodel : params.buildModelSelected e = .ok model) :
    cfg.started e params = .ok (some (params.alone cfg.scheduler model)) ∧
      cfg.loadModel e params = .ok (params.alone cfg.scheduler model) := by
  have hb : cfg.toBuilder e = .ok (Builder.applyModelOverrides
      { Builder.scheduled cfg.scheduler with model := some model } params) := by
    simp [ServerConfig.toBuilder, hcfg, hmodel, bind, Except.bind, pure, Except.pure]
  simp [ServerConfig.started, ServerConfig.loadModel, hb, scheduled_eq, Builder.settingsOf,
    Builder.settings, Builder.applyModelOverrides, ModelBuilderParams.toUpstreamModelConfig, hmodel,
    ModelBuilderParams.alone, ModelBuilderParams.own, bind, Except.bind, pure, Except.pure,
    Except.map]

theorem toUpstream_eq {config : ModelConfig} (h : params.toUpstreamModelConfig e = .ok config) :
    ∃ model, params.buildModelSelected e = .ok model ∧
      config = ⟨params.modelId, model, params.layer⟩ := by
  unfold ModelBuilderParams.toUpstreamModelConfig at h
  cases hmodel : params.buildModelSelected e with
  | error err => simp [hmodel, bind, Except.bind] at h
  | ok model =>
    refine ⟨model, rfl, ?_⟩
    simpa [hmodel, bind, Except.bind, pure, Except.pure, eq_comm] using h

theorem mapM_config {models : List (ModelBuilderParams F)} {configs : List ModelConfig}
    (hconfigs : models.mapM (·.toUpstreamModelConfig e) = .ok configs)
    (hnodup : (models.map ModelBuilderParams.modelId).Nodup) (hparams : params ∈ models) :
    ∃ model, params.buildModelSelected e = .ok model ∧
      configs.find? (fun config => config.modelId == params.modelId) =
        some ⟨params.modelId, model, params.layer⟩ := by
  induction models generalizing configs with
  | nil => cases hparams
  | cons first rest ih =>
    rw [mapM_cons] at hconfigs
    obtain ⟨hnew, hnodup⟩ := nodup_cons.mp hnodup
    cases hfirst : first.toUpstreamModelConfig e with
    | error err => simp [hfirst, bind, Except.bind] at hconfigs
    | ok config =>
      cases hrest : rest.mapM (·.toUpstreamModelConfig e) with
      | error err => simp [hfirst, hrest, bind, Except.bind] at hconfigs
      | ok later =>
        obtain rfl : config :: later = configs := by
          simpa [hfirst, hrest, bind, Except.bind, pure, Except.pure] using hconfigs
        obtain ⟨model, hmodel, rfl⟩ := toUpstream_eq hfirst
        rcases mem_cons.mp hparams with rfl | hparams
        · exact ⟨model, hmodel, by simp⟩
        · obtain ⟨own, hown, hfind⟩ := ih hrest hnodup hparams
          have hne : first.modelId ≠ params.modelId := fun heq =>
            hnew (heq ▸ mem_map_of_mem hparams)
          exact ⟨own, hown, by simp [hne, hfind]⟩

/-- Of several models each has the paged attention and the prefix cache of the scheduler. -/
def ModelBuilderParams.shared (params : ModelBuilderParams F) (scheduler : SchedulerSection F)
    (model : ModelSelected) : Settings F :=
  ⟨model, params.layer, scheduler.prefixCacheN.getD 16, scheduler.pagedAttn, scheduler.sizes, none⟩

theorem several_settings {b : Builder F} (hb : cfg.toBuilder e = .ok b)
    (hnodup : (cfg.params.map ModelBuilderParams.modelId).Nodup) (hparams : params ∈ cfg.params)
    (hseveral : cfg.params.length ≠ 1) :
    ∃ model, params.buildModelSelected e = .ok model ∧
      cfg.started e params =
        .ok (some (params.shared cfg.scheduler model)) ∧
      cfg.loadModel e params = .ok (params.shared cfg.scheduler model) := by
  obtain ⟨configs, hconfigs, rfl⟩ : ∃ configs,
      cfg.params.mapM (·.toUpstreamModelConfig e) = .ok configs ∧
        b = { Builder.scheduled cfg.scheduler with models := configs } := by
    unfold ServerConfig.toBuilder at hb
    split at hb
    · simp_all
    · cases hconfigs : cfg.params.mapM (·.toUpstreamModelConfig e) with
      | error err => simp [hconfigs, bind, Except.bind] at hb
      | ok configs =>
        refine ⟨configs, rfl, ?_⟩
        simpa [hconfigs, bind, Except.bind, pure, Except.pure, eq_comm] using hb
  obtain ⟨model, hmodel, hfind⟩ := mapM_config hconfigs hnodup hparams
  refine ⟨model, hmodel, ?_⟩
  simp [ServerConfig.started, ServerConfig.loadModel, hb, scheduled_eq, Builder.settingsOf, hfind,
    Builder.settings, ModelBuilderParams.toUpstreamModelConfig, hmodel, ModelBuilderParams.shared,
    bind, Except.bind, pure, Except.pure, Except.map]

theorem alone_eq_own_iff (model : ModelSelected) :
    params.alone scheduler model = params.own scheduler model ↔
      params.pagedSizes.orElse scheduler.sizes = params.pagedSizes.orElse scheduler.pagedSizes := by
  simp [ModelBuilderParams.alone, ModelBuilderParams.own]

theorem shared_eq_own_iff (model : ModelSelected) :
    params.shared scheduler model = params.own scheduler model ↔ params.Plain scheduler := by
  simp only [ModelBuilderParams.shared, ModelBuilderParams.own, Settings.mk.injEq, true_and]
  exact ⟨fun ⟨hcache, hpaged, hsizes, hlength⟩ => ⟨hcache.symm, hpaged.symm, hsizes.symm,
    hlength.symm⟩, fun h => ⟨h.prefixCacheN.symm, h.pagedAttn.symm, h.pagedSizes.symm,
    h.pagedCtxtLen.symm⟩⟩

theorem independent_iff (hcfg : cfg.Accepted e) (hparams : params ∈ cfg.params) :
    cfg.Independent e params ↔
      params.pagedSizes.orElse cfg.scheduler.sizes =
          params.pagedSizes.orElse cfg.scheduler.pagedSizes ∧
        (1 < cfg.models.length → params.Plain cfg.scheduler) := by
  obtain ⟨b, hb⟩ := hcfg.built
  have hlength : cfg.params.length = cfg.models.length := length_map _
  have hbase : { cfg with models := [params] }.params = [params] := by
    obtain ⟨section', -, rfl⟩ := mem_map.mp hparams
    rfl
  have halone (model : ModelSelected)
      (hmodel : params.buildModelSelected e = .ok model) :
      { cfg with models := [params] }.started e params =
        .ok (some (params.alone cfg.scheduler model)) := (single_settings hbase hmodel).1
  unfold ServerConfig.Independent
  by_cases hone : cfg.params.length = 1
  · obtain ⟨only, honly⟩ := length_eq_one_iff.mp hone
    obtain rfl : params = only := by simpa [honly] using hparams
    obtain ⟨model, hmodel⟩ : ∃ model,
        params.buildModelSelected e = .ok model := by
      cases hmodel : params.buildModelSelected e with
      | error err => simp [ServerConfig.toBuilder, honly, hmodel, bind, Except.bind] at hb
      | ok model => exact ⟨model, rfl⟩
    obtain ⟨hstarted, hloaded⟩ := single_settings honly hmodel
    have hnot : ¬ 1 < cfg.models.length := by omega
    simp [hmodel, halone model hmodel, hstarted, hloaded, alone_eq_own_iff, hnot]
  · have hnodup : (cfg.params.map ModelBuilderParams.modelId).Nodup := by
      rw [ServerConfig.params, List.map_map]
      exact hcfg.nodup
    obtain ⟨model, hmodel, hstarted, hloaded⟩ := several_settings hb hnodup hparams hone
    have hseveral : 1 < cfg.models.length := by
      have hpos := length_pos_of_mem hparams
      omega
    simp [hmodel, halone model hmodel, hstarted, hloaded, alone_eq_own_iff, shared_eq_own_iff,
      hseveral]

def sampleEngine : Engine := ⟨4096, .ok⟩

def sampleParams (modelId : String) (prefixCacheN : Option Nat) : ModelBuilderParams Unit :=
  ⟨modelId, modelId, none, none, none, none, none, none, none, ⟨none, none, none, none⟩, none,
    ⟨none, none, none⟩, none, prefixCacheN⟩

def sampleConfig (models : List (ModelBuilderParams Unit)) : ServerConfig Unit :=
  ⟨⟨none, none, ⟨none, none, none⟩, none⟩, models⟩

theorem single_model_independent : (sampleConfig [sampleParams "a" (some 4)]).Independent
    sampleEngine (sampleParams "a" (some 4)) :=
  (independent_iff ⟨by decide, _, rfl⟩
    (by simp [sampleConfig, ServerConfig.params, sampleParams])).mpr ⟨rfl, fun h => absurd h (by decide)⟩

/-- The prefix cache of two models is that of the scheduler. -/
theorem second_model_changes_first :
    ¬ ∀ (e : Engine) (cfg : ServerConfig Unit) (params : ModelBuilderParams Unit), cfg.Accepted e →
      params ∈ cfg.params → cfg.Independent e params := by
  intro hall
  have hcfg : (sampleConfig [sampleParams "a" (some 4), sampleParams "b" none]).Accepted
      sampleEngine := ⟨by decide, _, rfl⟩
  have hparams : sampleParams "a" (some 4) ∈
      (sampleConfig [sampleParams "a" (some 4), sampleParams "b" none]).params := by
    simp [sampleConfig, ServerConfig.params, sampleParams]
  obtain ⟨model, hmodel, -, -, hloaded⟩ := hall _ _ _ hcfg hparams
  obtain ⟨b, hb⟩ := hcfg.built
  obtain ⟨model', -, -, hshared⟩ := several_settings hb (by decide) hparams (by decide)
  rw [hshared] at hloaded
  exact absurd (congrArg Settings.prefixCacheN (Except.ok.inj hloaded)) (show ¬ 16 = 4 by decide)

end ColossalCode.ModelServer.Upstream
