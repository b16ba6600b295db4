import ColossalCode.ModelServer.Entries
import Mathlib.Data.List.Dedup

/-! When the scheduler and the manager agree on what is loaded. -/
namespace ColossalCode.ModelServer
open Function List Option

open Transition MistralModelManager

/-- What the manager is asked for, in the parts that others may come between. -/
inductive Operation where
  | evict (now : Nat) (removes : String → Bool)
  | unload (now : Nat) (removes : String → Bool) (model : String)
  | load (o : Outside) (req : LoadModelRequest)
  | activity (now : Nat) (model : String)
  | touch (now : Nat) (model : String)
  | override (now : Nat) (duration : Option Nat) (model : String)
  | acquire (model : String)
  | drop (model : String)
  | register (now : Nat) (metadata : ModelMetadata)

def perform (m : MistralModelManager) : Operation → Option MistralModelManager
  | .evict now removes => step m (.tick now removes)
  | .unload now removes model => step m (.unload now removes model)
  | .load o req => some (m.loadModel o req).1
  | .activity now model => step m (.activity now model)
  | .touch now model => step m (.touch now model)
  | .override now duration model => step m (.override now duration model)
  | .acquire model => step m (.acquire model)
  | .drop model => step m (.drop model)
  | .register now metadata => step m (.register now metadata)

/-- The registration of the model that was spawned at construction has not run yet. -/
def Pending (m : MistralModelManager) (model : String) : Prop :=
  ∃ metadata ∈ m.registering, metadata.name = model

def totalOf (size : String → Nat) (models : List String) : Nat :=
  models.foldr (fun model total => size model + total) 0

/-- The total of the scheduler is the sum of the sizes that it has recorded. -/
def Accounted (s : LruScheduler) : Prop :=
  ∃ recorded : List String, recorded.Nodup ∧
    (∀ model, model ∈ recorded ↔ (s.modelSizes model).isSome = true) ∧
    s.totalSize = totalOf (fun model => (s.modelSizes model).getD 0) recorded

/-- Of every model whose registration has run, scheduler and manager know the same. -/
structure InStep (m : MistralModelManager) : Prop where
  order : m.scheduler.order.Nodup
  ordered : ∀ model, ¬ Pending m model →
    (model ∈ m.scheduler.order ↔ m.isLoaded model = true)
  recorded : ∀ model, ¬ Pending m model →
    ((m.scheduler.modelSizes model).isSome = true ↔ m.isLoaded model = true)
  total : Accounted m.scheduler

/-- The load goes through for a model that the advice could not let go. -/
def Reloads (m : MistralModelManager) (o : Outside) (req : LoadModelRequest) : Prop :=
  (m.modelParams req.model).isSome = true ∧ m.scheduler.canLoadModel o.diskSize = true ∧
    (m.inUse req.model = true ∨ o.builds = true)

/-- What is advised to leave does leave, what is to be unloaded is not lost, and only what is loaded
is noted as used. -/
def Steady (m : MistralModelManager) : Operation → Prop
  | .evict now removes => ∀ model ∈ m.scheduler.due now, Pending m model ∨ Leaves m removes model
  | .unload _ removes model => Pending m model ∨
    (m.isLoaded model = true → m.inUse model = false → removes model = true)
  | .load o req => ∀ model ∈ m.scheduler.due o.now,
    Pending m model ∨ Leaves m o.removes model ∨ (model = req.model ∧ Reloads m o req)
  | .activity _ model => Pending m model ∨ m.isLoaded model = true
  | .register _ metadata => m.isLoaded metadata.name = true
  | _ => True

/-- Models are kept under their own names, and no size is ever known. -/
def Named (models : String → Option ModelMetadata) : Prop :=
  ∀ model metadata, models model = some metadata → metadata.name = model ∧ metadata.sizeBytes = 0

/-- The scheduler has recorded finitely many sizes, all of them zero. -/
structure Weightless (s : LruScheduler) : Prop where
  sizes : ∀ model size, s.modelSizes model = some size → size = 0
  total : s.totalSize = 0
  recorded : ∃ recorded : List String, recorded.Nodup ∧
    ∀ model, model ∈ recorded ↔ (s.modelSizes model).isSome = true

structure Booked (m : MistralModelManager) : Prop extends Invariant m where
  models : Named m.models
  params : ∀ model params, m.modelParams model = some params → params.modelId = model
  registering : (m.registering.map ModelMetadata.name).Nodup
  registered : ∀ metadata ∈ m.registering, metadata.sizeBytes = 0
  scheduler : Weightless m.scheduler

section Books

variable {now : Nat} {removes : String → Bool} {advised : Bool} {m t : MistralModelManager}
  {s : LruScheduler} {metadata : ModelMetadata} {model : String}
  {models : String → Option ModelMetadata}

theorem Named.update (h : Named models) (hname : metadata.name = model)
    (hsize : metadata.sizeBytes = 0) :
    Named (update models model (some metadata)) := by
  intro other metadata' heq
  by_cases hother : other = model
  · subst hother
    rw [update_self] at heq
    obtain rfl := some.inj heq
    exact ⟨hname, hsize⟩
  · rw [update_of_ne hother] at heq
    exact h other metadata' heq

theorem Weightless.onModelLoaded (h : Weightless s) (hsize : metadata.sizeBytes = 0) :
    Weightless (s.onModelLoaded now metadata) := by
  obtain ⟨recorded, hnodup, hmem⟩ := h.recorded
  refine ⟨fun model size heq => ?_, ?_, recorded.insert metadata.name, hnodup.insert,
    fun model => ?_⟩
  · have heq : update s.modelSizes metadata.name (some metadata.sizeBytes) model =
        some size := heq
    by_cases hmodel : model = metadata.name
    · rw [hmodel, update_self] at heq
      exact (some.inj heq).symm.trans hsize
    · rw [update_of_ne hmodel] at heq
      exact h.sizes model size heq
  · simp [LruScheduler.onModelLoaded, LruScheduler.saturatingAdd, h.total, hsize]
  · rw [mem_insert_iff, hmem]
    by_cases hmodel : model = metadata.name
    · simp [LruScheduler.onModelLoaded, hmodel]
    · simp [LruScheduler.onModelLoaded, hmodel]

theorem Weightless.onModelUnloaded (h : Weightless s) (model : String) :
    Weightless (s.onModelUnloaded model) := by
  obtain ⟨recorded, hnodup, hmem⟩ := h.recorded
  refine ⟨fun other size heq => ?_, ?_, LruScheduler.without model recorded,
    LruScheduler.without_nodup hnodup model, fun other => ?_⟩
  · have heq : update s.modelSizes model none other = some size := heq
    by_cases hother : other = model
    · rw [hother, update_self] at heq
      cases heq
    · rw [update_of_ne hother] at heq
      exact h.sizes other size heq
  · simp [LruScheduler.onModelUnloaded, h.total]
  · rw [mem_without, hmem]
    by_cases hother : other = model
    · simp [LruScheduler.onModelUnloaded, hother]
    · simp [LruScheduler.onModelUnloaded, hother]

theorem Weightless.advice (h : Weightless s) (now : Nat) : Weightless (s.adviseEvict now).2 := by
  obtain ⟨hsizes, htotal, -⟩ := adviseEvict_sizes s now
  refine ⟨?_, htotal.trans h.total, ?_⟩
  · rw [hsizes]
    exact h.sizes
  · rw [hsizes]
    exact h.recorded

theorem Booked.unload (h : Booked m) :
    Booked (unloadModelInternal now removes false advised m model) := by
  have hsame : SameOutside m (unloadModelInternal now removes false advised m model) := unload_same
  have hkept : Named (unloadModelInternal now removes false advised m model).models ∧
      Weightless (unloadModelInternal now removes false advised m model).scheduler := by
    unfold unloadModelInternal
    split
    · exact ⟨h.models, h.scheduler⟩
    · rename_i metadata hmodel
      obtain ⟨hname, hsize⟩ := h.models model metadata hmodel
      split
      · exact ⟨h.models, h.scheduler⟩
      · split
        · exact ⟨h.models, h.scheduler⟩
        · split
          · dsimp only
            split
            · exact ⟨h.models.update hname hsize, h.scheduler.onModelUnloaded model⟩
            · exact ⟨h.models.update hname hsize, h.scheduler⟩
          · exact ⟨h.models, h.scheduler⟩
  refine ⟨h.toInvariant.unload, hkept.1, ?_, ?_, ?_, hkept.2⟩
  · rw [hsame.modelParams]
    exact h.params
  · rw [hsame.registering]
    exact h.registering
  · rw [hsame.registering]
    exact h.registered

theorem Booked.unload_all (h : Booked m) (models : List String) :
    Booked (models.foldl (unloadModelInternal now removes false advised) m) := by
  induction models generalizing m with
  | nil => exact h
  | cons model models ih => exact ih h.unload

theorem Booked.advice (h : Booked m) (now : Nat) :
    Booked { m with scheduler := (m.scheduler.adviseEvict now).2 } :=
  ⟨h.toInvariant.advice now, h.models, h.params, h.registering, h.registered,
    h.scheduler.advice now⟩

variable {req : LoadModelRequest}

theorem Booked.requested (h : Booked m) (hmodel : m.models req.model = some metadata) :
    (requested req metadata).name = req.model ∧ (requested req metadata).sizeBytes = 0 :=
  h.models req.model metadata hmodel

/-- A model that is loaded has its name from its parameters where nothing is known of it. -/
theorem Booked.known (h : Booked m) {params : ModelBuilderParams}
    (hparams : m.modelParams req.model = some params) :
    let known := (m.models req.model).getD (metadataFromParams params m.managerCfg)
    known.name = req.model ∧ known.sizeBytes = 0 := by
  cases hmodel : m.models req.model with
  | none => exact ⟨h.params req.model params hparams, rfl⟩
  | some metadata => exact h.models req.model metadata hmodel

theorem Booked.step {a : Action} (h : Booked m) (ht : step m a = some t) : Booked t := by
  have hinvariant : Invariant t := h.toInvariant.step ht
  cases a with
  | tick now removes =>
    obtain rfl := some.inj ht
    exact (h.advice now).unload_all _
  | unload now removes model =>
    obtain rfl := some.inj ht
    exact h.unload
  | activity now model =>
    obtain rfl := some.inj ht
    exact ⟨hinvariant, h.models, h.params, h.registering, h.registered, h.scheduler.1,
      h.scheduler.2, h.scheduler.3⟩
  | touch now model =>
    obtain rfl := some.inj ht
    unfold touchModel at hinvariant ⊢
    split
    · exact ⟨⟨h.order, h.pinned⟩, h.models, h.params, h.registering, h.registered, h.scheduler⟩
    · exact h
  | override now duration model =>
    obtain rfl := some.inj ht
    exact ⟨hinvariant, h.models, h.params, h.registering, h.registered, h.scheduler⟩
  | acquire model =>
    obtain ⟨current, -, -, -, rfl⟩ := acquireGuard_eq_some.mp ht
    exact ⟨hinvariant, h.models, h.params, h.registering, h.registered, h.scheduler⟩
  | drop model =>
    obtain rfl := some.inj ht
    exact ⟨hinvariant, h.models, h.params, h.registering, h.registered, h.scheduler⟩
  | refresh now req =>
    obtain rfl := some.inj ht
    unfold refreshLoadedMetadata at hinvariant ⊢
    cases hmodel : m.models req.model with
    | none => exact h
    | some metadata =>
      rw [hmodel] at hinvariant
      obtain ⟨hname, hsize⟩ := h.requested hmodel
      exact ⟨hinvariant, h.models.update hname hsize, h.params, h.registering, h.registered,
        h.scheduler.onModelLoaded hsize⟩
  | finalize now req =>
    obtain ⟨params, hparams, rfl⟩ := map_eq_some_iff.mp ht
    obtain ⟨hname, hsize⟩ := h.known hparams
    exact ⟨hinvariant, h.models.update hname hsize, h.params, h.registering, h.registered,
      h.scheduler.onModelLoaded hsize⟩
  | register now metadata =>
    obtain ⟨hmem, rfl⟩ := step_register_eq_some.mp ht
    have hsub : (m.registering.erase metadata).Sublist m.registering := erase_sublist
    exact ⟨hinvariant, h.models, h.params, (hsub.map _).nodup h.registering,
      fun other hother => h.registered other (hsub.subset hother),
      h.scheduler.onModelLoaded (h.registered metadata hmem)⟩

end Books

section Operations

variable {m t : MistralModelManager} {model : String}

theorem perform_becomes {op : Operation} (h : perform m op = some t) : Becomes m t := by
  cases op with
  | load o req =>
    obtain rfl := some.inj h
    exact loadModel_becomes o req m
  | evict now removes => exact becomes_step (a := .tick now removes) h
  | unload now removes model => exact becomes_step (a := .unload now removes model) h
  | activity now model => exact becomes_step (a := .activity now model) h
  | touch now model => exact becomes_step (a := .touch now model) h
  | override now duration model => exact becomes_step (a := .override now duration model) h
  | acquire model => exact becomes_step (a := .acquire model) h
  | drop model => exact becomes_step (a := .drop model) h
  | register now metadata => exact becomes_step (a := .register now metadata) h

/-! Requests are made of these operations. -/

/-- Some operations lead from one state to the other. -/
def Performs (m t : MistralModelManager) : Prop := Leads perform (fun _ _ => True) m t

theorem performs_one (op : Operation) (h : perform m op = some t) : Performs m t :=
  leads_of_step trivial h

variable (o : Outside)

theorem ensure_performs (model : String) (m : MistralModelManager) :
    Performs m (m.ensureEngineHasModel o model).1 := by
  unfold ensureEngineHasModel
  split
  · exact Leads.refl m
  · exact performs_one (.load o ⟨model, none, false⟩) rfl
  · exact Leads.refl m

theorem used_performs (model : String) (m : MistralModelManager) :
    Performs m ((m.registerActivity o.now model).touchModel o.now model) :=
  (performs_one (.activity o.now model) rfl).trans
    (performs_one (.touch o.now model) rfl)

theorem acquire_performs (model : String) (m : MistralModelManager) :
    Performs m ((m.acquireGuard model).getD m) := by
  cases hguard : m.acquireGuard model with
  | none => exact Leads.refl m
  | some t => exact performs_one (.acquire model) hguard

theorem beginRequest_performs (model : String) (override : Option (Option Nat))
    (m : MistralModelManager) : Performs m (m.beginRequest o model override) := by
  have hevict : Performs m (m.applySchedulerAdvice o.now o.removes) :=
    performs_one (.evict o.now o.removes) rfl
  have hoverride : ∀ (duration : Option Nat) (u : MistralModelManager),
      Performs u (u.applyKeepAliveOverride o.now duration model) := fun duration u =>
    performs_one (.override o.now duration model) rfl
  unfold beginRequest
  dsimp only
  split
  · exact hevict
  · have hensured := hevict.trans (ensure_performs o model _)
    split
    · exact hensured
    · have hused := hensured.trans (used_performs o model _)
      split
      · exact hused
      · exact (hused.trans (hoverride _ _)).trans (acquire_performs model _)
      · exact (hused.trans (hoverride none _)).trans (acquire_performs model _)

theorem beginEmbeddings_performs (model : String) (m : MistralModelManager) :
    Performs m (m.beginEmbeddings o model) := by
  have hevict : Performs m (m.applySchedulerAdvice o.now o.removes) :=
    performs_one (.evict o.now o.removes) rfl
  unfold beginEmbeddings
  dsimp only
  split
  · exact hevict
  · have hensured := hevict.trans (ensure_performs o model _)
    split
    · exact hensured
    · exact (hensured.trans (used_performs o model _)).trans (acquire_performs model _)

/-- What is asked of the server. -/
inductive Demand where
  | request (o : Outside) (model : String) (override : Option (Option Nat))
  | embeddings (o : Outside) (model : String)
  | operation (op : Operation)

def serve (m : MistralModelManager) : Demand → MistralModelManager
  | .request o model override => m.beginRequest o model override
  | .embeddings o model => m.beginEmbeddings o model
  | .operation op => (perform m op).getD m

theorem serve_performs (m : MistralModelManager) (demand : Demand) :
    Performs m (serve m demand) := by
  cases demand with
  | request o model override => exact beginRequest_performs o model override m
  | embeddings o model => exact beginEmbeddings_performs o model m
  | operation op =>
    rw [serve]
    cases hperform : perform m op with
    | none => exact Leads.refl m
    | some t => exact performs_one op hperform

theorem Booked.becomes (h : Booked m) (ht : Becomes m t) : Booked t := by
  obtain ⟨actions, hsteps⟩ := ht
  exact hsteps.invariant (fun _ _ _ _ hst hs => hs.step hst) h

theorem Booked.performs (h : Booked m) (ht : Performs m t) : Booked t := by
  obtain ⟨operations, hsteps⟩ := ht
  exact hsteps.invariant (fun _ _ _ _ hst hs => hs.becomes (perform_becomes hst)) h

theorem Weightless.accounted {s : LruScheduler} (h : Weightless s) : Accounted s := by
  obtain ⟨recorded, hnodup, hmem⟩ := h.recorded
  refine ⟨recorded, hnodup, hmem, ?_⟩
  have hzero : ∀ models : List String,
      totalOf (fun model => (s.modelSizes model).getD 0) models = 0 := by
    intro models
    induction models with
    | nil => rfl
    | cons model models ih =>
      rw [totalOf, foldr_cons, ← totalOf, ih]
      cases hsize : s.modelSizes model with
      | none => rfl
      | some size => exact h.sizes model size hsize
  rw [h.total, hzero]

theorem entry_agrees : (m.entry model).Agrees ↔
    (model ∈ m.scheduler.order ↔ m.isLoaded model = true) ∧
      ((m.scheduler.modelSizes model).isSome = true ↔ m.isLoaded model = true) := by
  refine and_congr ?_ Bool.eq_iff_iff
  rw [Bool.eq_iff_iff, entry, decide_eq_true_iff]
  rfl

theorem inStep_iff (h : Booked m) :
    InStep m ↔ ∀ model, ¬ Pending m model → (m.entry model).Agrees := by
  constructor
  · intro hm model hmodel
    exact entry_agrees.mpr ⟨hm.ordered model hmodel, hm.recorded model hmodel⟩
  · intro hm
    exact ⟨h.order, fun model hmodel => (entry_agrees.mp (hm model hmodel)).1,
      fun model hmodel => (entry_agrees.mp (hm model hmodel)).2, h.scheduler.accounted⟩

/-- An operation after which each model that was agreed on is so when it should be. -/
theorem agrees_all_iff {ok : String → Prop}
    (h : ∀ model, ¬ Pending m model → (m.entry model).Agrees)
    (hregistering : t.registering = m.registering)
    (hok : ∀ model, (m.entry model).Agrees → ((t.entry model).Agrees ↔ ok model)) :
    (∀ model, ¬ Pending t model → (t.entry model).Agrees) ↔
      ∀ model, Pending m model ∨ ok model := by
  have hpending : ∀ model, Pending t model ↔ Pending m model := by
    intro model
    rw [Pending, hregistering, Pending]
  constructor
  · intro ht model
    by_cases hmodel : Pending m model
    · exact .inl hmodel
    · exact .inr ((hok model (h model hmodel)).mp
        (ht model fun hp => hmodel ((hpending model).mp hp)))
  · intro hall model hmodel
    have hmodel : ¬ Pending m model := fun hp => hmodel ((hpending model).mpr hp)
    exact (hok model (h model hmodel)).mpr ((hall model).resolve_left hmodel)

theorem tick_booked (h : Booked m) (now : Nat) (removes : String → Bool) :
    Booked (m.applySchedulerAdvice now removes) :=
  h.step (a := .tick now removes) rfl

theorem canLoadModel_advice (h : Booked m) (now : Nat) (removes : String → Bool) (size : Nat) :
    (m.applySchedulerAdvice now removes).scheduler.canLoadModel size =
      m.scheduler.canLoadModel size := by
  unfold LruScheduler.canLoadModel
  rw [(advice_same now removes m).maxVramBytes, (tick_booked h now removes).scheduler.total,
    h.scheduler.total]

/-- The load reaches the scheduler, after the advice. -/
def GoesThrough (m : MistralModelManager) (o : Outside) (req : LoadModelRequest) : Prop :=
  (m.modelParams req.model).isSome = true ∧ m.scheduler.canLoadModel o.diskSize = true ∧
    ((m.applySchedulerAdvice o.now o.removes).isLoaded req.model = true ∨ o.builds = true)

theorem load_agrees_iff (h : Booked m) (o : Outside) (req : LoadModelRequest) :
    ((m.loadModel o req).1.entry model).Agrees ↔
      ((m.applySchedulerAdvice o.now o.removes).entry model).Agrees ∨
        model = req.model ∧ GoesThrough m o req := by
  have hbooked := tick_booked h o.now o.removes
  have hcan := canLoadModel_advice h o.now o.removes o.diskSize
  have hparams := (advice_same o.now o.removes m).modelParams
  unfold loadModel GoesThrough
  generalize m.applySchedulerAdvice o.now o.removes = a at hbooked hcan hparams ⊢
  dsimp only
  rw [← hparams, ← hcan]
  -- what a model that has been loaded leaves behind
  have hdone : ∀ metadata : ModelMetadata, ∀ b : MistralModelManager, metadata.name = req.model →
      metadata.loaded = true → b.models = update a.models metadata.name (some metadata) →
      b.scheduler = a.scheduler.onModelLoaded o.now metadata →
      ((b.entry model).Agrees ↔ (a.entry model).Agrees ∨ model = req.model) := by
    intro metadata b hname hloaded hmodels hscheduler
    rw [loaded_entry hmodels hscheduler, hname]
    by_cases hmodel : model = req.model
    · rw [if_pos hmodel]
      exact iff_of_true ⟨hloaded.symm, hloaded.symm⟩ (.inr hmodel)
    · rw [if_neg hmodel]
      exact (or_iff_left hmodel).symm
  cases hknown : a.modelParams req.model with
  | none => simp
  | some params =>
    dsimp only
    cases hroom : a.scheduler.canLoadModel o.diskSize with
    | false => simp
    | true =>
      rw [Bool.not_true, if_neg Bool.false_ne_true]
      split
      · rename_i hloaded
        obtain ⟨metadata, hmodel, hmetadata⟩ := (any_eq_true _ _).mp hloaded
        have hname := (hbooked.requested hmodel).1
        have hrefresh := hdone (requested req metadata) (a.refreshLoadedMetadata o.now req) hname
          hmetadata (by rw [refreshLoadedMetadata, hmodel, hname])
            (by rw [refreshLoadedMetadata, hmodel])
        simpa [isLoaded, hloaded] using hrefresh
      · rename_i hunloaded
        split
        · rename_i hbuilds
          have hname := (hbooked.known hknown).1
          have hfinalize := hdone
            { requested req ((a.models req.model).getD
              (metadataFromParams params a.managerCfg)) with
              loaded := true } (a.finalizeModelLoad o.now req params) hname rfl
            (congrArg (fun name => update a.models name _) hname.symm) rfl
          simpa [hbuilds] using hfinalize
        · rename_i hfails
          simp [isLoaded, hunloaded, hfails]

variable {now : Nat} {removes : String → Bool} {metadata : ModelMetadata}

theorem evict_inStep_iff (h : Booked m) (hm : ∀ model, ¬ Pending m model → (m.entry model).Agrees) :
    InStep (m.applySchedulerAdvice now removes) ↔ Steady m (.evict now removes) := by
  have hok : ∀ model, (m.entry model).Agrees →
      (((m.applySchedulerAdvice now removes).entry model).Agrees ↔
        (model ∈ m.scheduler.due now → Leaves m removes model)) :=
    fun model hagrees => advice_agrees_iff h.order hagrees
  rw [inStep_iff (tick_booked h now removes),
    agrees_all_iff hm (advice_same now removes m).registering hok]
  refine forall_congr' fun model => ?_
  by_cases hdue : model ∈ m.scheduler.due now <;> simp [hdue]

/-- An operation on one model. -/
theorem one_inStep_iff {ok : Prop} (hbooked : Booked t)
    (hm : ∀ other, ¬ Pending m other → (m.entry other).Agrees)
    (hregistering : t.registering = m.registering)
    (hothers : ∀ other, other ≠ model → t.entry other = m.entry other)
    (hself : (m.entry model).Agrees → ((t.entry model).Agrees ↔ ok)) :
    InStep t ↔ Pending m model ∨ ok := by
  have hok : ∀ other, (m.entry other).Agrees →
      ((t.entry other).Agrees ↔ (other = model → ok)) := by
    intro other hagrees
    by_cases hother : other = model
    · subst hother
      exact (hself hagrees).trans ⟨fun hq _ => hq, fun hq => hq rfl⟩
    · rw [hothers other hother]
      exact iff_of_true hagrees fun heq => absurd heq hother
  rw [inStep_iff hbooked, agrees_all_iff hm hregistering hok]
  constructor
  · intro hall
    exact (hall model).imp id fun himp => himp rfl
  · intro hone other
    by_cases hother : other = model
    · subst hother
      exact hone.imp id fun hq _ => hq
    · exact .inr fun heq => absurd heq hother

theorem unload_inStep_iff (h : Booked m)
    (hm : ∀ model, ¬ Pending m model → (m.entry model).Agrees) :
    InStep (m.unloadModel now removes model) ↔ Steady m (.unload now removes model) := by
  refine one_inStep_iff (h.step (a := .unload now removes model) rfl) hm unload_same.registering
    (fun other hother => ?_) (fun hagrees => ?_)
  · rw [unloadModel, unload_entry, if_neg hother]
  · rw [unloadModel, unload_entry, if_pos rfl]
    exact Entry.letGo_agrees_iff hagrees

theorem advised_loaded (removes : String → Bool) (h : Booked m)
    (hdue : model ∈ m.scheduler.due now) (hloaded : m.isLoaded model = true) :
    (m.applySchedulerAdvice now removes).isLoaded model = m.inUse model := by
  have hentry : ((m.applySchedulerAdvice now removes).entry model).loaded = m.inUse model := by
    rw [advice_entry h.order, if_pos hdue]
    exact Entry.letGo_loaded hloaded
  exact hentry

theorem load_same (req : LoadModelRequest) (m : MistralModelManager) :
    (m.loadModel o req).1.registering = m.registering := by
  have hadvice := (advice_same o.now o.removes m).registering
  unfold loadModel
  dsimp only
  split
  · exact hadvice
  · split
    · exact hadvice
    · split
      · unfold refreshLoadedMetadata
        split <;> exact hadvice
      · split
        · exact hadvice
        · exact hadvice

theorem load_inStep_iff {o : Outside} {req : LoadModelRequest} (h : Booked m)
    (hm : ∀ model, ¬ Pending m model → (m.entry model).Agrees) :
    InStep (m.loadModel o req).1 ↔ Steady m (.load o req) := by
  have hok : ∀ other, (m.entry other).Agrees → (((m.loadModel o req).1.entry other).Agrees ↔
      (other ∈ m.scheduler.due o.now →
        Leaves m o.removes other ∨ other = req.model ∧ Reloads m o req)) := by
    intro other hagrees
    rw [load_agrees_iff h, advice_agrees_iff h.order hagrees]
    by_cases hdue : other ∈ m.scheduler.due o.now
    · have hordered : (m.entry other).ordered = true := decide_eq_true (due_mem hdue)
      have hloaded : m.isLoaded other = true := hagrees.1.symm.trans hordered
      have hadvised := advised_loaded o.removes h hdue hloaded
      simp only [hdue, true_implies]
      refine or_congr_right (and_congr_right fun heq => ?_)
      subst heq
      unfold GoesThrough Reloads
      rw [hadvised]
    · exact iff_of_true (.inl fun hmem => absurd hmem hdue) fun hmem => absurd hmem hdue
  rw [inStep_iff (h.becomes (loadModel_becomes o req m)), agrees_all_iff hm (load_same o req m) hok]
  refine forall_congr' fun model => ?_
  by_cases hdue : model ∈ m.scheduler.due o.now <;> simp [hdue]

/-- An operation that neither the scheduler nor the metadata notice. -/
theorem same_inStep (hbooked : Booked t) (hm : ∀ model, ¬ Pending m model → (m.entry model).Agrees)
    (hregistering : t.registering = m.registering) (hentry : t.entry = m.entry) : InStep t := by
  have hok : ∀ other, (m.entry other).Agrees → ((t.entry other).Agrees ↔ True) := by
    intro other hagrees
    rw [hentry]
    exact iff_true_intro hagrees
  exact (inStep_iff hbooked).mpr
    ((agrees_all_iff hm hregistering hok).mpr fun _ => .inr trivial)

theorem activity_inStep_iff (h : Booked m)
    (hm : ∀ model, ¬ Pending m model → (m.entry model).Agrees) :
    InStep (m.registerActivity now model) ↔ Steady m (.activity now model) := by
  have hentry : ∀ other, (m.registerActivity now model).entry other =
      if other = model then { m.entry model with ordered := true } else m.entry other := by
    intro other
    unfold registerActivity LruScheduler.registerActivity LruScheduler.touch entry
    by_cases hother : other = model
    · simp [hother]
    · simp [hother, mem_without]
  refine one_inStep_iff (h.step (a := .activity now model) rfl) hm rfl
    (fun other hother => ?_) (fun hagrees => ?_)
  · rw [hentry, if_neg hother]
  · rw [hentry, if_pos rfl]
    constructor
    · intro hafter
      exact hafter.1.symm
    · intro hloaded
      exact ⟨hloaded.symm, hagrees.2⟩

theorem registered_pending (h : Booked m) (hmem : metadata ∈ m.registering) :
    (∃ other ∈ m.registering.erase metadata, other.name = model) ↔
      Pending m model ∧ model ≠ metadata.name := by
  have hnodup : m.registering.Nodup := h.registering.of_map _
  constructor
  · rintro ⟨other, hother, rfl⟩
    obtain ⟨hne, hother⟩ := hnodup.mem_erase_iff.mp hother
    refine ⟨⟨other, hother, rfl⟩, fun heq => hne ?_⟩
    exact inj_on_of_nodup_map h.registering hother hmem heq
  · rintro ⟨⟨other, hother, rfl⟩, hname⟩
    refine ⟨other, hnodup.mem_erase_iff.mpr ⟨fun heq => hname (heq ▸ rfl), hother⟩, rfl⟩

/-- A registration ends the wait for its model. -/
theorem register_inStep_iff (h : Booked m)
    (hm : ∀ model, ¬ Pending m model → (m.entry model).Agrees)
    (ht : perform m (.register now metadata) = some t) :
    InStep t ↔ Steady m (.register now metadata) := by
  have hbooked : Booked t := h.becomes (perform_becomes ht)
  obtain ⟨hmem, rfl⟩ := step_register_eq_some.mp ht
  have hpending : ∀ model, Pending { m with
      scheduler := m.scheduler.onModelLoaded now metadata
      registering := m.registering.erase metadata } model ↔
        Pending m model ∧ model ≠ metadata.name := fun model => registered_pending h hmem
  have hself : (MistralModelManager.entry { m with
      scheduler := m.scheduler.onModelLoaded now metadata
      registering := m.registering.erase metadata } metadata.name).Agrees ↔
        m.isLoaded metadata.name = true := by
    have hentry : MistralModelManager.entry { m with
        scheduler := m.scheduler.onModelLoaded now metadata
        registering := m.registering.erase metadata } metadata.name =
          ⟨true, some metadata.sizeBytes, m.models metadata.name⟩ := by
      simp [entry, LruScheduler.onModelLoaded]
    rw [hentry]
    exact ⟨fun hagrees => hagrees.1.symm, fun hloaded => ⟨hloaded.symm, hloaded.symm⟩⟩
  have hothers : ∀ model, model ≠ metadata.name → MistralModelManager.entry { m with
      scheduler := m.scheduler.onModelLoaded now metadata
      registering := m.registering.erase metadata } model = m.entry model := by
    intro model hmodel
    simp [entry, LruScheduler.onModelLoaded, mem_without, hmodel]
  rw [inStep_iff hbooked]
  constructor
  · intro hall
    exact hself.mp (hall metadata.name fun hp => ((hpending _).mp hp).2 rfl)
  · intro hloaded model hmodel
    by_cases hname : model = metadata.name
    · subst hname
      exact hself.mpr hloaded
    · rw [hothers model hname]
      exact hm model fun hp => hmodel ((hpending model).mpr ⟨hp, hname⟩)

theorem perform_inStep_iff {op : Operation} (h : Booked m) (hm : InStep m)
    (ht : perform m op = some t) : InStep t ↔ Steady m op := by
  have hagrees := (inStep_iff h).mp hm
  have hbooked : Booked t := h.becomes (perform_becomes ht)
  cases op with
  | evict now removes =>
    obtain rfl := some.inj ht
    exact evict_inStep_iff h hagrees
  | unload now removes model =>
    obtain rfl := some.inj ht
    exact unload_inStep_iff h hagrees
  | load o req =>
    obtain rfl := some.inj ht
    exact load_inStep_iff h hagrees
  | activity now model =>
    obtain rfl := some.inj ht
    exact activity_inStep_iff h hagrees
  | touch now model =>
    obtain rfl := some.inj ht
    refine iff_of_true (same_inStep hbooked hagrees ?_ ?_) trivial
    · unfold touchModel
      split <;> rfl
    · unfold touchModel
      split <;> rfl
  | override now duration model =>
    obtain rfl := some.inj ht
    exact iff_of_true (same_inStep hbooked hagrees rfl rfl) trivial
  | acquire model =>
    obtain ⟨current, -, -, -, rfl⟩ := acquireGuard_eq_some.mp ht
    exact iff_of_true (same_inStep hbooked hagrees rfl rfl) trivial
  | drop model =>
    obtain rfl := some.inj ht
    exact iff_of_true (same_inStep hbooked hagrees rfl rfl) trivial
  | register now metadata => exact register_inStep_iff h hagrees ht

end Operations

section Runs

variable {now maxModels : Nat} {managerCfg : ManagerConfig} {params : List ModelBuilderParams}
  {m : MistralModelManager} {metadata : ModelMetadata} {model : String}

/-- What is known of a model after those of the configuration have been added. -/
theorem addModels_known (h : (params.foldl (addModel now) m).models model = some metadata) :
    m.models model = some metadata ∨
      model ∈ params.map ModelBuilderParams.modelId ∧ metadata.name = model ∧
        metadata.sizeBytes = 0 ∧ metadata.loaded = true := by
  induction params generalizing m with
  | nil => exact .inl h
  | cons param params ih =>
    rcases ih h with hbefore | ⟨hmem, hrest⟩
    · have hadded : update m.models param.modelId
          (some (metadataFromParams param m.managerCfg)) model = some metadata := hbefore
      by_cases hmodel : model = param.modelId
      · subst hmodel
        rw [update_self] at hadded
        obtain rfl := some.inj hadded
        exact .inr ⟨mem_cons_self, rfl, rfl, rfl⟩
      · rw [update_of_ne hmodel] at hadded
        exact .inl hadded
    · exact .inr ⟨mem_cons_of_mem _ hmem, hrest⟩

theorem addModels_params {param : ModelBuilderParams}
    (h : ∀ model param, m.modelParams model = some param → param.modelId = model)
    (hparam : (params.foldl (addModel now) m).modelParams model = some param) :
    param.modelId = model := by
  induction params generalizing m with
  | nil => exact h model param hparam
  | cons head params ih =>
    refine ih (fun other param' heq => ?_) hparam
    have heq : update m.modelParams head.modelId (some head) other = some param' := heq
    by_cases hother : other = head.modelId
    · subst hother
      rw [update_self] at heq
      obtain rfl := some.inj heq
      rfl
    · rw [update_of_ne hother] at heq
      exact h other param' heq

theorem filterMap_names {models : String → Option ModelMetadata} (h : Named models)
    (ids : List String) : ((ids.filterMap models).map ModelMetadata.name).Sublist ids := by
  induction ids with
  | nil => exact .slnil
  | cons id ids ih =>
    cases hid : models id with
    | none =>
      rw [filterMap_cons_none hid]
      exact ih.cons id
    | some metadata =>
      rw [filterMap_cons_some hid, map_cons, (h id metadata hid).1]
      exact ih.cons_cons id

/-- The models that the constructor knows are those of the configuration, all of them loaded. -/
theorem fromComponents_known
    (h : (fromComponents now maxModels managerCfg params).models model = some metadata) :
    model ∈ params.map ModelBuilderParams.modelId ∧ metadata.name = model ∧
      metadata.sizeBytes = 0 ∧ metadata.loaded = true :=
  (addModels_known h).resolve_left fun hempty => by cases hempty

theorem fromComponents_scheduler :
    (fromComponents now maxModels managerCfg params).scheduler.order = [] ∧
      (fromComponents now maxModels managerCfg params).scheduler.modelSizes = fun _ => none := by
  have hnew := (addModels_scheduler now params (m := ⟨.new maxModels, managerCfg, fun _ => none,
    fun _ => none, fun _ => none, fun _ => false, fun _ => none, 0, [], []⟩)).1
  exact ⟨congrArg LruScheduler.order hnew, congrArg LruScheduler.modelSizes hnew⟩

theorem fromComponents_named : Named (fromComponents now maxModels managerCfg params).models := by
  intro model metadata hmodel
  obtain ⟨-, hname, hsize, -⟩ := fromComponents_known hmodel
  exact ⟨hname, hsize⟩

theorem fromComponents_booked : Booked (fromComponents now maxModels managerCfg params) := by
  have hregistering : (fromComponents now maxModels managerCfg params).registering =
      ((params.map ModelBuilderParams.modelId).dedup.filterMap
        (fromComponents now maxModels managerCfg params).models).filter (·.loaded) := rfl
  have htotal : (fromComponents now maxModels managerCfg params).scheduler.totalSize = 0 :=
    congrArg LruScheduler.totalSize (addModels_scheduler now params).1
  refine ⟨fromComponents_invariant .., fromComponents_named, ?_, ?_, ?_, ?_, htotal, [],
    nodup_nil, ?_⟩
  · intro model param hparam
    exact addModels_params (by simp) hparam
  · rw [hregistering]
    have hnamed := @fromComponents_named now maxModels managerCfg params
    have hsub := filterMap_names hnamed (params.map ModelBuilderParams.modelId).dedup
    exact ((filter_sublist.map _).trans hsub).nodup (nodup_dedup _)
  · intro metadata hmem
    rw [hregistering] at hmem
    obtain ⟨model, -, hmodel⟩ := mem_filterMap.mp (mem_of_mem_filter hmem)
    exact (fromComponents_named model metadata hmodel).2
  · rw [fromComponents_scheduler.2]
    intro model size hsize
    cases hsize
  · rw [fromComponents_scheduler.2]
    simp

/-- Whatever has been asked for, advice takes the first of those that may go, and no more. -/
theorem demands_advised (demands : List Demand) (later : Nat) :
    let s := (demands.foldl serve (fromComponents now maxModels managerCfg params)).scheduler
    s.Least later (s.adviseEvict later).1 := by
  apply LruScheduler.adviseEvict_least
  have hbooked : Booked (demands.foldl serve (fromComponents now maxModels managerCfg params)) := by
    apply foldlRecOn demands serve fromComponents_booked
    exact fun m hm demand _ => hm.performs (serve_performs m demand)
  exact hbooked.order

theorem fromComponents_inStep : InStep (fromComponents now maxModels managerCfg params) := by
  refine (inStep_iff fromComponents_booked).mpr fun model hmodel => ?_
  have hunknown : (fromComponents now maxModels managerCfg params).models model = none := by
    rw [eq_none_iff_forall_ne_some]
    intro metadata hmetadata
    obtain ⟨hmem, hname, -, hloaded⟩ := fromComponents_known hmetadata
    refine hmodel ⟨metadata, mem_filter.mpr ⟨mem_filterMap.mpr
      ⟨model, mem_dedup.mpr hmem, hmetadata⟩, hloaded⟩, hname⟩
  unfold entry
  rw [hunknown, fromComponents_scheduler.1, fromComponents_scheduler.2]
  exact ⟨rfl, rfl⟩

/-- Scheduler and manager agree throughout a run if every operation of it is steady. -/
theorem agreement_iff {operations : List Operation}
    (h : run perform (fromComponents now maxModels managerCfg params) operations = some m) :
    Throughout perform InStep (fromComponents now maxModels managerCfg params) operations ↔
      Steps perform Steady (fromComponents now maxModels managerCfg params) operations m :=
  throughout_iff_steps (I := Booked) (fun _ _ _ ht hs => hs.becomes (perform_becomes ht))
    (fun _ _ _ hs ht hP => perform_inStep_iff hs hP ht) h fromComponents_booked
    fromComponents_inStep

def bothRegistered : List Operation :=
  [.register 0 ⟨"chat", 0, true, 10, false⟩, .register 0 ⟨"embed", 0, true, 20, false⟩]

/-- The model whose time is over goes, and the other one stays. -/
theorem agreement_after_eviction : ∃ t,
    run perform twoModels (bothRegistered ++ [.acquire "embed", .evict 50 fun _ => true]) = some t ∧
    t.scheduler.order = ["embed"] ∧ Throughout perform InStep twoModels
      (bothRegistered ++ [.acquire "embed", .evict 50 fun _ => true]) := by
  refine ⟨_, rfl, rfl, (agreement_iff rfl).mpr ?_⟩
  refine .head rfl rfl (.head rfl rfl (.head trivial rfl (.head ?_ rfl (.refl _))))
  intro model hmodel
  obtain rfl : model = "chat" := mem_singleton.mp hmodel
  exact .inr ⟨⟨⟨"chat", 0, true, 10, false⟩, rfl, rfl⟩, rfl, rfl, rfl⟩

/-- A model in use whose eviction is advised stays loaded, and the scheduler has forgotten it. -/
theorem refused_eviction_forgotten : ∃ t,
    run perform twoModels (bothRegistered ++ [.acquire "chat", .evict 50 fun _ => true]) = some t ∧
    t.registering = [] ∧ t.isLoaded "chat" = true ∧ t.scheduler.order = ["embed"] ∧
    ¬ InStep t := by
  refine ⟨_, rfl, rfl, rfl, rfl, fun h => ?_⟩
  have hordered := (h.ordered "chat" fun hp => by
    obtain ⟨metadata, hmem, -⟩ := hp
    exact not_mem_nil hmem).mpr rfl
  exact absurd (mem_singleton.mp hordered) (by decide)

end Runs

end ColossalCode.ModelServer
