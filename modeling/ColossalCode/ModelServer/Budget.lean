import ColossalCode.ModelServer.Agreement

/-! When the models that are loaded fit into the memory. The scheduler compares with a total that
stays zero, so the limit holds a single model back and never a sum. -/
namespace ColossalCode.ModelServer
open Function List Option

open Transition MistralModelManager

def configured (params : List ModelBuilderParams) : List String :=
  (params.map ModelBuilderParams.modelId).dedup

def loadedSize (size : String → Nat) (params : List ModelBuilderParams)
    (m : MistralModelManager) : Nat :=
  totalOf size ((configured params).filter m.isLoaded)

/-- The files of a model are measured, or their size is not known and taken for zero. -/
def Measures (size : String → Nat) : Operation → Prop
  | .load o req => o.diskSize = size req.model ∨ o.diskSize = 0
  | _ => True

/-- A request for a model that is loaded fails because there is not memory enough. -/
def RefusesLoaded (m : MistralModelManager) : Operation → Prop
  | .load o req => m.isLoaded req.model = true ∧ (m.modelParams req.model).isSome = true ∧
      (m.applySchedulerAdvice o.now o.removes).scheduler.canLoadModel o.diskSize = false
  | _ => False

section Totals

variable {size : String → Nat} {models : List String} {model : String}

theorem totalOf_cons : totalOf size (model :: models) = size model + totalOf size models := rfl

theorem totalOf_filter_le (keep : String → Bool) :
    totalOf size (models.filter keep) ≤ totalOf size models := by
  induction models with
  | nil => exact Nat.le_refl _
  | cons model models ih =>
    cases hkeep : keep model with
    | true =>
      rw [filter_cons_of_pos hkeep, totalOf_cons, totalOf_cons]
      omega
    | false =>
      rw [filter_cons_of_neg (by simp [hkeep]), totalOf_cons]
      omega

theorem totalOf_mem_le (size : String → Nat)
    (h : model ∈ models) : size model ≤ totalOf size models := by
  induction models with
  | nil => cases h
  | cons head models ih =>
    rw [totalOf_cons]
    rcases mem_cons.mp h with rfl | h
    · omega
    · have := ih h
      omega

end Totals

/-- Nothing is known of a model outside the configuration, and the limit is the one set. -/
structure Configured (ids : List String) (limit : Nat) (m : MistralModelManager) : Prop
    extends Booked m where
  known : ∀ model, (m.models model).isSome = true → model ∈ ids
  listed : ∀ model, (m.modelParams model).isSome = true → model ∈ ids
  limit : m.scheduler.maxVramBytes = limit

section Steps

variable {now limit : Nat} {removes : String → Bool} {advised : Bool} {ids : List String}
  {m t : MistralModelManager} {model other : String}

theorem unload_known : ((unloadModelInternal now removes false advised m model).models
    other).isSome = (m.models other).isSome := by
  by_cases hother : other = model
  · subst hother
    unfold unloadModelInternal
    cases hmodel : m.models other with
    | none => simp [hmodel]
    | some metadata =>
      dsimp only
      split
      · simp [hmodel]
      · split
        · simp [hmodel]
        · split
          · split <;> simp
          · simp [hmodel]
  · rw [(unload_frame hother).1]

theorem unload_all_known (now : Nat) (removes : String → Bool) (advised : Bool)
    (m : MistralModelManager) (other : String) (models : List String) :
    ((models.foldl (unloadModelInternal now removes false advised) m).models other).isSome =
      (m.models other).isSome := by
  induction models generalizing m with
  | nil => rfl
  | cons model models ih => rw [foldl_cons, ih, unload_known]

variable {a : Action}

theorem step_keeps (ht : step m a = some t) :
    t.modelParams = m.modelParams ∧ t.scheduler.maxVramBytes = m.scheduler.maxVramBytes := by
  cases a with
  | tick now removes =>
    obtain rfl := some.inj ht
    have hsame := advice_same now removes m
    exact ⟨hsame.modelParams, hsame.maxVramBytes⟩
  | unload now removes model =>
    obtain rfl := some.inj ht
    exact ⟨unload_same.modelParams, unload_same.maxVramBytes⟩
  | activity now model =>
    obtain rfl := some.inj ht
    exact ⟨rfl, rfl⟩
  | touch now model =>
    obtain rfl := some.inj ht
    unfold touchModel
    split <;> exact ⟨rfl, rfl⟩
  | override now duration model =>
    obtain rfl := some.inj ht
    exact ⟨rfl, rfl⟩
  | acquire model =>
    obtain ⟨current, -, -, -, rfl⟩ := acquireGuard_eq_some.mp ht
    exact ⟨rfl, rfl⟩
  | drop model =>
    obtain rfl := some.inj ht
    exact ⟨rfl, rfl⟩
  | refresh now req =>
    obtain rfl := some.inj ht
    unfold refreshLoadedMetadata
    split <;> exact ⟨rfl, rfl⟩
  | finalize now req =>
    obtain ⟨params, -, rfl⟩ := map_eq_some_iff.mp ht
    exact ⟨rfl, rfl⟩
  | register now metadata =>
    obtain ⟨-, rfl⟩ := step_register_eq_some.mp ht
    exact ⟨rfl, rfl⟩

/-- A model comes to be known only through its parameters. -/
theorem step_known (ht : step m a = some t) (hmodel : (t.models model).isSome = true) :
    (m.models model).isSome = true ∨ (m.modelParams model).isSome = true := by
  cases a with
  | tick now removes =>
    obtain rfl := some.inj ht
    have hsame := unload_all_known now removes true
      { m with scheduler := (m.scheduler.adviseEvict now).2 } model (m.scheduler.adviseEvict now).1
    exact .inl (hsame.symm.trans hmodel)
  | unload now removes model =>
    obtain rfl := some.inj ht
    exact .inl (unload_known.symm.trans hmodel)
  | activity now model =>
    obtain rfl := some.inj ht
    exact .inl hmodel
  | touch now model =>
    obtain rfl := some.inj ht
    unfold touchModel at hmodel
    split at hmodel <;> exact .inl hmodel
  | override now duration model =>
    obtain rfl := some.inj ht
    exact .inl hmodel
  | acquire model =>
    obtain ⟨current, -, -, -, rfl⟩ := acquireGuard_eq_some.mp ht
    exact .inl hmodel
  | drop model =>
    obtain rfl := some.inj ht
    exact .inl hmodel
  | refresh now req =>
    obtain rfl := some.inj ht
    unfold refreshLoadedMetadata at hmodel
    split at hmodel
    · exact .inl hmodel
    · rename_i metadata hknown
      have hmodel : (update m.models req.model (some _) model).isSome = true := hmodel
      by_cases hself : model = req.model
      · subst hself
        exact .inl (by rw [hknown]; rfl)
      · rw [update_of_ne hself] at hmodel
        exact .inl hmodel
  | finalize now req =>
    obtain ⟨params, hparams, rfl⟩ := map_eq_some_iff.mp ht
    have hmodel : (update m.models req.model (some _) model).isSome = true := hmodel
    by_cases hself : model = req.model
    · subst hself
      exact .inr (by rw [hparams]; rfl)
    · rw [update_of_ne hself] at hmodel
      exact .inl hmodel
  | register now metadata =>
    obtain ⟨-, rfl⟩ := step_register_eq_some.mp ht
    exact .inl hmodel

theorem Configured.step (h : Configured ids limit m) (ht : step m a = some t) :
    Configured ids limit t := by
  obtain ⟨hparams, hlimit⟩ := step_keeps ht
  refine ⟨h.toBooked.step ht, fun model hmodel => ?_, fun model hmodel => ?_,
    hlimit.trans h.limit⟩
  · exact (step_known ht hmodel).elim (h.known model) (h.listed model)
  · rw [hparams] at hmodel
    exact h.listed model hmodel

theorem Configured.perform {op : Operation} (h : Configured ids limit m)
    (ht : perform m op = some t) : Configured ids limit t := by
  obtain ⟨actions, hsteps⟩ := perform_becomes ht
  exact hsteps.invariant (fun _ _ _ _ hst hs => hs.step hst) h

theorem Configured.performs (h : Configured ids limit m) (ht : Performs m t) :
    Configured ids limit t := by
  obtain ⟨operations, hsteps⟩ := ht
  exact hsteps.invariant (fun _ _ _ _ hst hs => hs.perform hst) h

/-- Whatever is loaded, a model is held back only by its own size. -/
theorem Configured.canLoadModel (h : Configured ids limit m) (estimate : Nat) :
    m.scheduler.canLoadModel estimate = true ↔
      limit = 0 ∨ min estimate 18446744073709551615 ≤ limit := by
  unfold LruScheduler.canLoadModel LruScheduler.saturatingAdd
  rw [h.limit, h.scheduler.total]
  simp

end Steps

section Runs

variable {now maxModels limit : Nat} {managerCfg : ManagerConfig}
  {params : List ModelBuilderParams} {size : String → Nat} {m t : MistralModelManager}

theorem loadedSize_le (m : MistralModelManager) :
    loadedSize size params m ≤ totalOf size (configured params) := totalOf_filter_le _

variable {model : String}

theorem addModels_present (h : (m.models model).isSome = true ∨
    model ∈ params.map ModelBuilderParams.modelId) :
    ((params.foldl (addModel now) m).models model).isSome = true := by
  induction params generalizing m with
  | nil => exact h.resolve_right not_mem_nil
  | cons param params ih =>
    refine ih ?_
    have hadded : (addModel now m param).models = update m.models param.modelId
        (some (metadataFromParams param m.managerCfg)) := rfl
    by_cases hmodel : model = param.modelId
    · rw [hadded, hmodel, update_self]
      exact .inl rfl
    · rcases h with h | h
      · rw [hadded, update_of_ne hmodel]
        exact .inl h
      · exact .inr ((mem_cons.mp h).resolve_left hmodel)

theorem addModels_listed (h : ((params.foldl (addModel now) m).modelParams model).isSome = true) :
    (m.modelParams model).isSome = true ∨ model ∈ params.map ModelBuilderParams.modelId := by
  induction params generalizing m with
  | nil => exact .inl h
  | cons param params ih =>
    have hadded : (addModel now m param).modelParams =
        update m.modelParams param.modelId (some param) := rfl
    rcases ih h with hbefore | hmem
    · by_cases hmodel : model = param.modelId
      · exact .inr (mem_cons.mpr (.inl hmodel))
      · rw [hadded, update_of_ne hmodel] at hbefore
        exact .inl hbefore
    · exact .inr (mem_cons_of_mem _ hmem)

theorem fromComponents_configured (hlimit : managerCfg.pagedAttnGpuMem = some limit) :
    Configured (configured params) limit (fromComponents now maxModels managerCfg params) := by
  refine ⟨fromComponents_booked, fun model hmodel => ?_, fun model hmodel => ?_, ?_⟩
  · obtain ⟨metadata, hmetadata⟩ := isSome_iff_exists.mp hmodel
    exact mem_dedup.mpr (fromComponents_known hmetadata).1
  · have hlisted := (addModels_listed hmodel).resolve_left Bool.false_ne_true
    exact mem_dedup.mpr hlisted
  · have hset : (fromComponents now maxModels managerCfg params).scheduler.maxVramBytes =
        managerCfg.pagedAttnGpuMem.getD 0 := rfl
    rw [hset, hlimit]
    rfl

/-- At the start every model of the configuration is loaded. -/
theorem fromComponents_loadedSize : loadedSize size params
    (fromComponents now maxModels managerCfg params) = totalOf size (configured params) := by
  have hall : (configured params).filter
      (fromComponents now maxModels managerCfg params).isLoaded = configured params := by
    refine filter_eq_self.mpr fun model hmodel => ?_
    have hpresent : ((fromComponents now maxModels managerCfg params).models model).isSome = true :=
      addModels_present (.inr (mem_dedup.mp hmodel))
    obtain ⟨metadata, hmetadata⟩ := isSome_iff_exists.mp hpresent
    unfold isLoaded
    rw [hmetadata]
    exact (fromComponents_known hmetadata).2.2.2
  rw [loadedSize, hall]

/-- Whatever has been asked for, the books are in order, and a model is held back only by its own
size. -/
theorem demands_admitted (hlimit : managerCfg.pagedAttnGpuMem = some limit)
    (demands : List Demand) (estimate : Nat) :
    let t := demands.foldl serve (fromComponents now maxModels managerCfg params)
    Configured (configured params) limit t ∧
      (t.scheduler.canLoadModel estimate = true ↔
        limit = 0 ∨ min estimate 18446744073709551615 ≤ limit) := by
  intro t
  have hkept : Configured (configured params) limit t := by
    apply foldlRecOn demands serve (fromComponents_configured hlimit)
    exact fun m hm demand _ => hm.performs (serve_performs m demand)
  exact ⟨hkept, hkept.canLoadModel estimate⟩

theorem demands_admitted_again :
    ([.request ⟨1, fun _ => true, .loaded, true, 9⟩ "chat" none].foldl serve
      (fromComponents 0 4 ⟨30, 4, 8, some 10⟩ [chat])).scheduler.canLoadModel 9 = true :=
  (demands_admitted rfl _ 9).2.mpr (.inr (by decide))

theorem fits_refuses_none {op : Operation} (h : Configured (configured params) limit m)
    (hfits : totalOf size (configured params) ≤ limit) (hop : Measures size op) :
    ¬ RefusesLoaded m op := by
  cases op with
  | load o req =>
    rintro ⟨-, hparams, hrefused⟩
    have hsize := totalOf_mem_le size (h.listed req.model hparams)
    have hafter : Configured (configured params) limit (m.applySchedulerAdvice o.now o.removes) :=
      h.step (a := .tick o.now o.removes) rfl
    have hcan := hafter.canLoadModel o.diskSize
    have hroom : min o.diskSize 18446744073709551615 ≤ limit := by
      rcases hop with hop | hop <;> omega
    rw [hrefused] at hcan
    exact absurd (hcan.mpr (.inr hroom)) Bool.false_ne_true
  | _ => exact id

/-- What is loaded stays within the limit, and no request for a loaded model is refused for lack of
memory, if the whole configuration is within the limit. -/
theorem within_budget_iff {operations : List Operation}
    (hlimit : managerCfg.pagedAttnGpuMem = some limit)
    (hsizes : ∀ op ∈ operations, Measures size op)
    (h : run perform (fromComponents now maxModels managerCfg params) operations = some t) :
    (Throughout perform (fun m => loadedSize size params m ≤ limit)
        (fromComponents now maxModels managerCfg params) operations ∧
      Steps perform (fun m op => ¬ RefusesLoaded m op)
        (fromComponents now maxModels managerCfg params) operations t) ↔
      totalOf size (configured params) ≤ limit := by
  constructor
  · rintro ⟨hwithin, -⟩
    have hstart : loadedSize size params (fromComponents now maxModels managerCfg params) ≤ limit :=
      hwithin [] _ nil_prefix rfl
    rwa [fromComponents_loadedSize] at hstart
  · intro hfits
    have hkept : Throughout perform (Configured (configured params) limit)
        (fromComponents now maxModels managerCfg params) operations :=
      (steps_of_run h).throughout (fun _ _ _ _ hst hs => hs.perform hst) (fun _ hs => hs)
        (fromComponents_configured hlimit)
    refine ⟨fun pre u _ _ => (loadedSize_le u).trans hfits, ?_⟩
    refine ((steps_of_run h).and_mem hsizes).mono_throughout hkept ?_
    rintro u op v ⟨-, hop⟩ _ hu _
    exact fits_refuses_none hu hfits hop

def fiveEach : String → Nat := fun _ => 5

def roomForTen : ManagerConfig := ⟨30, 4, 8, some 10⟩

/-- One model after the other is unloaded and loaded again. -/
def reloads (size : Nat) : List Operation :=
  [.unload 1 (fun _ => true) "chat", .unload 1 (fun _ => true) "embed",
    .load ⟨2, fun _ => true, .notFound, true, size⟩ ⟨"chat", none, false⟩,
    .load ⟨3, fun _ => true, .notFound, true, size⟩ ⟨"embed", none, false⟩]

/-- Two models of five each have room in ten, however they are loaded again. -/
theorem within_budget_of_two : ∃ t,
    run perform (fromComponents 0 4 roomForTen [chat, embed]) (reloads 5) = some t ∧
    Throughout perform (fun m => loadedSize fiveEach [chat, embed] m ≤ 10)
      (fromComponents 0 4 roomForTen [chat, embed]) (reloads 5) := by
  have hsizes : ∀ op ∈ reloads 5, Measures fiveEach op := by
    intro op hop
    simp only [reloads, mem_cons, not_mem_nil, or_false] at hop
    rcases hop with rfl | rfl | rfl | rfl
    · trivial
    · trivial
    · exact .inl rfl
    · exact .inl rfl
  exact ⟨_, rfl, ((within_budget_iff rfl hsizes rfl).mpr (by decide)).1⟩

/-- Two models of six each are loaded one after the other into ten, when neither was loaded, and a
request for one of twelve that is loaded is refused. -/
theorem loads_exceed_limit :
    (∃ t u, run perform (fromComponents 0 4 roomForTen [chat, embed]) ((reloads 6).take 2) =
      some t ∧
      loadedSize (fun _ => 6) [chat, embed] t = 0 ∧ run perform t ((reloads 6).drop 2) = some u ∧
      ¬ loadedSize (fun _ => 6) [chat, embed] u ≤ 10) ∧
    RefusesLoaded (fromComponents 0 4 roomForTen [chat])
      (.load ⟨2, fun _ => true, .notFound, true, 12⟩ ⟨"chat", none, false⟩) :=
  ⟨⟨_, _, rfl, rfl, rfl, by decide⟩, rfl, rfl, rfl⟩

end Runs

end ColossalCode.ModelServer
