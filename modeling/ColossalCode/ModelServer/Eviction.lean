import ColossalCode.ModelServer.Manager

/-! When the deadlines that the scheduler looks up let a model go before its time. -/
namespace ColossalCode.ModelServer
open Function List Option LruScheduler

open Transition MistralModelManager

/-- The steps that requests, loads and ticks are made of. -/
inductive Action where
  | tick (now : Nat) (removes : String → Bool)
  | unload (now : Nat) (removes : String → Bool) (model : String)
  | activity (now : Nat) (model : String)
  | touch (now : Nat) (model : String)
  | override (now : Nat) (duration : Option Nat) (model : String)
  | acquire (model : String)
  | drop (model : String)
  | refresh (now : Nat) (req : LoadModelRequest)
  | finalize (now : Nat) (req : LoadModelRequest)
  | register (now : Nat) (metadata : ModelMetadata)

def step (m : MistralModelManager) : Action → Option MistralModelManager
  | .tick now removes => some (m.applySchedulerAdvice now removes)
  | .unload now removes model => some (m.unloadModel now removes model)
  | .activity now model => some (m.registerActivity now model)
  | .touch now model => some (m.touchModel now model)
  | .override now duration model => some (m.applyKeepAliveOverride now duration model)
  | .acquire model => m.acquireGuard model
  | .drop model => some (m.dropGuard model)
  | .refresh now req => some (m.refreshLoadedMetadata now req)
  | .finalize now req => (m.modelParams req.model).map (m.finalizeModelLoad now req)
  | .register now metadata =>
    if metadata ∈ m.registering then
      some { m with
        scheduler := m.scheduler.onModelLoaded now metadata
        registering := m.registering.erase metadata }
    else none

theorem step_register_eq_some {m t : MistralModelManager} {now : Nat} {metadata : ModelMetadata} :
    step m (.register now metadata) = some t ↔ metadata ∈ m.registering ∧
      t = { m with
        scheduler := m.scheduler.onModelLoaded now metadata
        registering := m.registering.erase metadata } := by
  rw [step, ite_none_right_eq_some, some.injEq, eq_comm (b := t)]

/-- No model was let go on advice while it was pinned or its deadline lay in the future. -/
def NoEarlyEviction (m : MistralModelManager) : Prop :=
  ∀ e ∈ m.unloads, e.advised = true → e.pinned = false ∧ ∀ d, e.deadline = some d → d ≤ e.time

/-- Nothing keeps the model: it is loaded, neither pinned nor in use, and the engine removes it. -/
def Leaves (m : MistralModelManager) (removes : String → Bool) (model : String) : Prop :=
  (∃ metadata, m.models model = some metadata ∧ metadata.loaded = true) ∧
    m.pinned model = false ∧ m.hasActiveRequests model = false ∧ removes model = true

/-- The models due by the deadlines in the copy are due by those of the manager. -/
def Timely (m : MistralModelManager) : Action → Prop
  | .tick now removes => ∀ model ∈ m.scheduler.due now, Leaves m removes model →
    ∀ d, m.keepAlive model = some d → d ≤ now
  | _ => True

structure Invariant (m : MistralModelManager) : Prop where
  order : m.scheduler.order.Nodup
  pinned : ∀ model metadata, m.models model = some metadata → metadata.pinned = true →
    m.pinned model = true

section Unload

variable {now : Nat} {removes : String → Bool} {advised : Bool} {m : MistralModelManager}
  {model other : String}

/-- What is noted of the unloading of a model. -/
def unloadEvent (now : Nat) (removes : String → Bool) (advised : Bool) (m : MistralModelManager)
    (model : String) : Option Unload :=
  match m.models model with
  | none => none
  | some metadata =>
    if !m.pinned model && !m.hasActiveRequests model && metadata.loaded && removes model then
      some ⟨model, advised, now, m.keepAlive model, metadata.pinned || m.pinned model⟩
    else none

theorem unloadEvent_eq_some {e : Unload} (h : Invariant m) :
    unloadEvent now removes advised m model = some e ↔
      Leaves m removes model ∧ e = ⟨model, advised, now, m.keepAlive model, false⟩ := by
  unfold unloadEvent Leaves
  cases hmodel : m.models model with
  | none => simp
  | some metadata =>
    have hunpinned : m.pinned model = false → metadata.pinned = false := by
      intro hset
      by_contra hpinned
      have htrue := h.pinned model metadata hmodel (by simpa using hpinned)
      rw [hset] at htrue
      cases htrue
    cases hset : m.pinned model with
    | true => simp
    | false =>
      dsimp only
      rw [hunpinned hset]
      cases m.hasActiveRequests model with
      | true => simp
      | false =>
        cases hloaded : metadata.loaded with
        | false => simp [hloaded]
        | true =>
          cases removes model with
          | false => simp [hloaded]
          | true =>
            have hcomm : (⟨model, advised, now, m.keepAlive model, false⟩ : Unload) = e ↔
                e = ⟨model, advised, now, m.keepAlive model, false⟩ := eq_comm
            simpa [hloaded] using hcomm

theorem unload_unloads :
    (unloadModelInternal now removes false advised m model).unloads =
      m.unloads ++ (unloadEvent now removes advised m model).toList := by
  unfold unloadModelInternal unloadEvent
  cases m.models model with
  | none => simp
  | some metadata =>
    dsimp only
    cases hpinned : m.pinned model
    · cases hactive : m.hasActiveRequests model
      · cases hloaded : metadata.loaded
        · simp
        · cases hremoves : removes model <;> simp
      · simp
    · simp

/-- The other models are not touched, and no pin is. -/
theorem unload_frame (h : other ≠ model) :
    let after := unloadModelInternal now removes false advised m model
    after.models other = m.models other ∧ after.keepAlive other = m.keepAlive other ∧
      after.pinned = m.pinned ∧ after.activeRequests = m.activeRequests := by
  unfold unloadModelInternal
  dsimp only
  split
  · exact ⟨rfl, rfl, rfl, rfl⟩
  · split
    · exact ⟨rfl, rfl, rfl, rfl⟩
    · split
      · exact ⟨rfl, rfl, rfl, rfl⟩
      · split
        · split
          · exact ⟨update_of_ne h _ _, update_of_ne h _ _, rfl, rfl⟩
          · exact ⟨update_of_ne h _ _, rfl, rfl, rfl⟩
        · exact ⟨rfl, rfl, rfl, rfl⟩

theorem unloadEvent_frame (h : other ≠ model) :
    unloadEvent now removes advised (unloadModelInternal now removes false advised m model) other =
      unloadEvent now removes advised m other := by
  obtain ⟨hmodels, hkeepAlive, hpinned, hactive⟩ :=
    unload_frame h
  unfold unloadEvent hasActiveRequests
  rw [hmodels, hkeepAlive, hpinned, hactive]

theorem unload_all {models : List String} (hnodup : models.Nodup) :
    (models.foldl (unloadModelInternal now removes false advised) m).unloads =
      m.unloads ++ models.filterMap (unloadEvent now removes advised m) := by
  induction models generalizing m with
  | nil => simp
  | cons model models ih =>
    obtain ⟨hmodel, hrest⟩ := nodup_cons.mp hnodup
    have hframe : ∀ other ∈ models, unloadEvent now removes advised
        (unloadModelInternal now removes false advised m model) other =
          unloadEvent now removes advised m other := fun other hother =>
      unloadEvent_frame fun heq => hmodel (heq ▸ hother)
    rw [foldl_cons, ih hrest, unload_unloads, filterMap_congr hframe, append_assoc,
      filterMap_cons]
    cases unloadEvent now removes advised m model <;> rfl

end Unload

section Invariant

variable {now : Nat} {removes : String → Bool} {advised : Bool} {m t : MistralModelManager}
  {model : String}

theorem Invariant.unload (h : Invariant m) :
    Invariant (unloadModelInternal now removes false advised m model) := by
  have hpins : ∀ metadata, m.models model = some metadata → ∀ other metadata',
      update m.models model (some { metadata with loaded := false }) other =
        some metadata' → metadata'.pinned = true → m.pinned other = true := by
    intro metadata hmodel other metadata' heq hpinned
    by_cases hother : other = model
    · subst hother
      rw [update_self] at heq
      obtain rfl := some.inj heq
      exact h.pinned other metadata hmodel hpinned
    · rw [update_of_ne hother] at heq
      exact h.pinned other metadata' heq hpinned
  unfold unloadModelInternal
  split
  · exact h
  · rename_i metadata hmodel
    split
    · exact h
    · split
      · exact h
      · split
        · dsimp only
          split
          · exact ⟨without_nodup h.order model, hpins metadata hmodel⟩
          · exact ⟨h.order, hpins metadata hmodel⟩
        · exact h

theorem Invariant.unload_all (h : Invariant m) (models : List String) :
    Invariant (models.foldl (unloadModelInternal now removes false advised) m) := by
  induction models generalizing m with
  | nil => exact h
  | cons model models ih => exact ih h.unload

theorem Invariant.advice (h : Invariant m) (now : Nat) :
    Invariant { m with scheduler := (m.scheduler.adviseEvict now).2 } :=
  ⟨(adviseEvict_order m.scheduler now).nodup h.order, h.pinned⟩

/-- The metadata of a model that is loaded, and the pin that goes with it. -/
theorem Invariant.load (h : Invariant m) {metadata : ModelMetadata} {pinned : String → Bool}
    (hself : metadata.pinned = true → pinned model = true)
    (hothers : ∀ other, other ≠ model → m.pinned other = true → pinned other = true)
    (keepAlive : String → Option Nat) (activeRequests : String → Option Nat) :
    Invariant { m with
      models := update m.models model (some metadata)
      pinned := pinned
      activeRequests := activeRequests
      keepAlive := keepAlive
      scheduler := m.scheduler.onModelLoaded now metadata } := by
  refine ⟨without_append_nodup h.order metadata.name, ?_⟩
  intro other metadata' heq hpinned
  have heq : update m.models model (some metadata) other = some metadata' := heq
  by_cases hother : other = model
  · subst hother
    rw [update_self] at heq
    obtain rfl := some.inj heq
    exact hself hpinned
  · rw [update_of_ne hother] at heq
    exact hothers other hother (h.pinned other metadata' heq hpinned)

theorem Invariant.refresh (h : Invariant m) (req : LoadModelRequest) :
    Invariant (m.refreshLoadedMetadata now req) := by
  unfold refreshLoadedMetadata
  cases hmodel : m.models req.model with
  | none => exact h
  | some metadata =>
    refine h.load (fun hpinned => ?_) (fun other hother hset => ?_) _ m.activeRequests
    · cases hreq : req.pinned with
      | true => simp
      | false =>
        simp only [requested, hreq, Bool.or_false] at hpinned
        simpa using h.pinned req.model metadata hmodel hpinned
    · cases req.pinned with
      | true => simpa [hother] using hset
      | false => simpa using hset

theorem Invariant.finalize (h : Invariant m) (req : LoadModelRequest)
    (params : ModelBuilderParams) : Invariant (m.finalizeModelLoad now req params) := by
  unfold finalizeModelLoad
  refine h.load (fun hpinned => ?_) (fun other hother hset => ?_) _ _
  · rw [update_self]
    exact hpinned
  · rw [update_of_ne hother]
    exact hset

theorem Invariant.step {a : Action} (h : Invariant m) (ht : step m a = some t) : Invariant t := by
  cases a with
  | tick now removes =>
    obtain rfl := some.inj ht
    exact (h.advice now).unload_all _
  | unload now removes model =>
    obtain rfl := some.inj ht
    exact h.unload
  | activity now model =>
    obtain rfl := some.inj ht
    exact ⟨without_append_nodup h.order model, h.pinned⟩
  | touch now model =>
    obtain rfl := some.inj ht
    unfold touchModel
    split
    · exact ⟨h.order, h.pinned⟩
    · exact h
  | override now duration model =>
    obtain rfl := some.inj ht
    exact ⟨h.order, h.pinned⟩
  | acquire model =>
    obtain ⟨current, -, -, -, rfl⟩ := acquireGuard_eq_some.mp ht
    exact ⟨h.order, h.pinned⟩
  | drop model =>
    obtain rfl := some.inj ht
    exact ⟨h.order, h.pinned⟩
  | refresh now req =>
    obtain rfl := some.inj ht
    exact h.refresh req
  | finalize now req =>
    obtain ⟨params, -, rfl⟩ := map_eq_some_iff.mp ht
    exact h.finalize req params
  | register now metadata =>
    obtain ⟨-, rfl⟩ := step_register_eq_some.mp ht
    exact ⟨without_append_nodup h.order metadata.name, h.pinned⟩

theorem addModel_pinned {params : ModelBuilderParams} (now : Nat)
    (h : ∀ model metadata, m.models model = some metadata → metadata.pinned = true →
      m.pinned model = true) (model : String) (metadata : ModelMetadata)
    (hmodel : (addModel now m params).models model = some metadata)
    (hpinned : metadata.pinned = true) : (addModel now m params).pinned model = true := by
  unfold addModel at hmodel ⊢
  dsimp only at hmodel ⊢
  by_cases hself : model = params.modelId
  · subst hself
    rw [update_self] at hmodel
    obtain rfl := some.inj hmodel
    rw [if_pos hpinned, update_self]
  · rw [update_of_ne hself] at hmodel
    split
    · rw [update_of_ne hself]
      exact h model metadata hmodel hpinned
    · exact h model metadata hmodel hpinned

theorem addModels_scheduler (now : Nat) (params : List ModelBuilderParams) :
    (params.foldl (addModel now) m).scheduler = m.scheduler ∧
      (params.foldl (addModel now) m).unloads = m.unloads := by
  induction params generalizing m with
  | nil => exact ⟨rfl, rfl⟩
  | cons param params ih => exact ih

theorem addModels_pinned (now : Nat) (params : List ModelBuilderParams)
    (h : ∀ model metadata, m.models model = some metadata → metadata.pinned = true →
      m.pinned model = true) (model : String) (metadata : ModelMetadata)
    (hmodel : (params.foldl (addModel now) m).models model = some metadata)
    (hpinned : metadata.pinned = true) :
    (params.foldl (addModel now) m).pinned model = true := by
  induction params generalizing m with
  | nil => exact h model metadata hmodel hpinned
  | cons param params ih => exact ih (addModel_pinned now h) hmodel

theorem fromComponents_invariant (now maxModels : Nat) (managerCfg : ManagerConfig)
    (params : List ModelBuilderParams) :
    Invariant (fromComponents now maxModels managerCfg params) := by
  refine ⟨?_, fun model metadata hmodel hpinned => ?_⟩
  · have horder : (fromComponents now maxModels managerCfg params).scheduler.order = [] :=
      congrArg order (addModels_scheduler now params).1
    rw [horder]
    exact nodup_nil
  · exact addModels_pinned now params (by simp) model metadata hmodel hpinned

end Invariant

section Runs

variable {m t : MistralModelManager}

/-- A step other than a tick lets no model go on advice. -/
theorem noEarly_append_iff {unloads : List Unload} (h : t.unloads = m.unloads ++ unloads)
    (hm : NoEarlyEviction m) : NoEarlyEviction t ↔
      ∀ e ∈ unloads, e.advised = true → e.pinned = false ∧ ∀ d, e.deadline = some d →
        d ≤ e.time := by
  unfold NoEarlyEviction
  rw [h, forall_mem_append]
  exact and_iff_right hm

theorem tick_noEarly_iff {now : Nat} {removes : String → Bool} (h : Invariant m)
    (hm : NoEarlyEviction m) :
    NoEarlyEviction (m.applySchedulerAdvice now removes) ↔ Timely m (.tick now removes) := by
  have hadvice : (m.scheduler.adviseEvict now).1 = m.scheduler.due now :=
    adviseEvict_eq h.order
  have hnodup : (m.scheduler.adviseEvict now).1.Nodup :=
    hadvice ▸ due_nodup _ h.order
  have hunloads : (m.applySchedulerAdvice now removes).unloads =
      m.unloads ++ (m.scheduler.due now).filterMap (unloadEvent now removes true m) :=
    (unload_all hnodup).trans (by rw [hadvice]; rfl)
  rw [noEarly_append_iff hunloads hm]
  constructor
  · intro hearly model hmodel hleaves d hd
    have hevent : unloadEvent now removes true m model =
        some ⟨model, true, now, m.keepAlive model, false⟩ :=
          (unloadEvent_eq_some h).mpr ⟨hleaves, rfl⟩
    exact (hearly _ (mem_filterMap.mpr ⟨model, hmodel, hevent⟩) rfl).2 d hd
  · intro htimely e he _
    obtain ⟨model, hmodel, hevent⟩ := mem_filterMap.mp he
    obtain ⟨hleaves, rfl⟩ := (unloadEvent_eq_some h).mp hevent
    exact ⟨rfl, htimely model hmodel hleaves⟩

theorem step_unloads {a : Action} (ht : step m a = some t)
    (ha : ∀ now removes, a ≠ .tick now removes) :
    ∃ unloads, t.unloads = m.unloads ++ unloads ∧ ∀ e ∈ unloads, e.advised = false := by
  cases a with
  | tick now removes => exact absurd rfl (ha now removes)
  | unload now removes model =>
    obtain rfl := some.inj ht
    refine ⟨_, unload_unloads, fun e he => ?_⟩
    have hevent := mem_toList.mp he
    unfold unloadEvent at hevent
    split at hevent
    · cases hevent
    · split at hevent
      · obtain rfl := some.inj hevent
        rfl
      · cases hevent
  | activity now model =>
    obtain rfl := some.inj ht
    exact ⟨[], (append_nil _).symm, by simp⟩
  | touch now model =>
    obtain rfl := some.inj ht
    refine ⟨[], ?_, by simp⟩
    unfold touchModel
    split <;> simp
  | override now duration model =>
    obtain rfl := some.inj ht
    exact ⟨[], (append_nil _).symm, by simp⟩
  | acquire model =>
    obtain ⟨current, -, -, -, rfl⟩ := acquireGuard_eq_some.mp ht
    exact ⟨[], (append_nil _).symm, by simp⟩
  | drop model =>
    obtain rfl := some.inj ht
    exact ⟨[], (append_nil _).symm, by simp⟩
  | refresh now req =>
    obtain rfl := some.inj ht
    refine ⟨[], ?_, by simp⟩
    unfold refreshLoadedMetadata
    split <;> simp
  | finalize now req =>
    obtain ⟨params, -, rfl⟩ := map_eq_some_iff.mp ht
    exact ⟨[], (append_nil _).symm, by simp⟩
  | register now metadata =>
    obtain ⟨-, rfl⟩ := step_register_eq_some.mp ht
    exact ⟨[], (append_nil _).symm, by simp⟩

theorem step_noEarly_iff {a : Action} (h : Invariant m) (hm : NoEarlyEviction m)
    (ht : step m a = some t) : NoEarlyEviction t ↔ Timely m a := by
  by_cases ha : ∃ now removes, a = .tick now removes
  · obtain ⟨now, removes, rfl⟩ := ha
    obtain rfl := some.inj ht
    exact tick_noEarly_iff h hm
  · have hother : ∀ now removes, a ≠ .tick now removes := fun now removes heq =>
      ha ⟨now, removes, heq⟩
    obtain ⟨unloads, hunloads, hadvised⟩ := step_unloads ht hother
    rw [noEarly_append_iff hunloads hm]
    refine iff_of_true (fun e he htrue => absurd htrue (by simp [hadvised e he])) ?_
    cases a with
    | tick now removes => exact absurd rfl (hother now removes)
    | _ => trivial

/-- No model is let go early in a run if whatever is due by the copied deadlines is due. -/
theorem no_early_eviction_iff {now maxModels : Nat} {managerCfg : ManagerConfig}
    {params : List ModelBuilderParams} {actions : List Action}
    (h : run step (fromComponents now maxModels managerCfg params) actions = some t) :
    Throughout step NoEarlyEviction (fromComponents now maxModels managerCfg params) actions ↔
      Steps step Timely (fromComponents now maxModels managerCfg params) actions t := by
  refine throughout_iff_steps (I := Invariant) (fun _ _ _ ht hs => hs.step ht)
    (fun _ _ _ hs ht hP => step_noEarly_iff hs hP ht) h (fromComponents_invariant ..) ?_
  have hunloads : (fromComponents now maxModels managerCfg params).unloads = [] :=
    (addModels_scheduler now params).2
  intro e he
  rw [hunloads] at he
  exact absurd he not_mem_nil

/-- Some steps lead from one state to the other. -/
def Becomes (m t : MistralModelManager) : Prop := Leads step (fun _ _ => True) m t

theorem becomes_step {a : Action} (h : step m a = some t) : Becomes m t := leads_of_step trivial h

theorem loadModel_becomes (o : Outside) (req : LoadModelRequest) (m : MistralModelManager) :
    Becomes m (m.loadModel o req).1 := by
  have htick : Becomes m (m.applySchedulerAdvice o.now o.removes) :=
    becomes_step (a := .tick o.now o.removes) rfl
  unfold loadModel
  dsimp only
  split
  · exact htick
  · rename_i params hparams
    split
    · exact htick
    · split
      · exact htick.trans (becomes_step (a := .refresh o.now req) rfl)
      · split
        · refine htick.trans (becomes_step (a := .finalize o.now req) ?_)
          exact congrArg (Option.map _) hparams
        · exact htick

def chat : ModelBuilderParams := ⟨"chat", none, some 10, false, none⟩

def embed : ModelBuilderParams := ⟨"embed", none, some 20, false, none⟩

/-- Room for one model, and two are registered. -/
def twoModels : MistralModelManager :=
  fromComponents 0 1 ⟨30, 4, 8, none⟩ [chat, embed]

def registrations : List Action :=
  [.register 0 ⟨"chat", 0, true, 10, false⟩, .register 0 ⟨"embed", 0, true, 20, false⟩]

/-- The model that is not used goes when its time is over. -/
theorem no_early_eviction_unused : ∃ t,
    run step twoModels (registrations ++ [.touch 5 "embed", .tick 12 fun _ => true]) = some t ∧
    t.unloads = [⟨"chat", true, 12, some 10, false⟩] ∧
    Throughout step NoEarlyEviction twoModels
      (registrations ++ [.touch 5 "embed", .tick 12 fun _ => true]) := by
  refine ⟨_, rfl, rfl, (no_early_eviction_iff rfl).mpr ?_⟩
  refine .head trivial rfl (.head trivial rfl (.head trivial rfl (.head ?_ rfl (.refl _))))
  intro model hmodel _ d hd
  obtain rfl : model = "chat" := mem_singleton.mp hmodel
  obtain rfl : 10 = d := some.inj hd
  decide

/-- A model that is used at 5 goes at 12, three before its time. -/
theorem evicted_before_deadline : ∃ t,
    run step twoModels (registrations ++ [.touch 5 "chat", .tick 12 fun _ => true]) = some t ∧
    t.unloads = [⟨"chat", true, 12, some 15, false⟩] ∧ ¬ NoEarlyEviction t := by
  refine ⟨_, rfl, rfl, ?_⟩
  intro h
  exact absurd ((h _ mem_cons_self rfl).2 15 rfl) (by decide)

end Runs

end ColossalCode.ModelServer
