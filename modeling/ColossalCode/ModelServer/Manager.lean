import Mathlib.Data.List.Sort
import Mathlib.Logic.Function.Basic
import ColossalCode.Transition.Run

/-! The scheduler of the model server: which models it advises to evict. Times are in
milliseconds. -/
namespace ColossalCode.ModelServer
open Function List

structure ModelMetadata where
  name : String
  sizeBytes : Nat
  loaded : Bool
  keepAlive : Nat
  pinned : Bool
  deriving DecidableEq, Repr

structure LruScheduler where
  maxModels : Nat
  order : List String
  lastAccess : String → Option Nat
  modelSizes : String → Option Nat
  totalSize : Nat
  pinned : String → Bool
  keepAliveFn : String → Option Nat
  maxVramBytes : Nat

namespace LruScheduler

def new (maxModels : Nat) : LruScheduler :=
  ⟨maxModels, [], fun _ => none, fun _ => none, 0, fun _ => false, fun _ => none, 0⟩

/-- `u64::saturating_add` -/
def saturatingAdd (a b : Nat) : Nat := min (a + b) 18446744073709551615

def without (model : String) (order : List String) : List String := order.filter (· != model)

def touch (s : LruScheduler) (now : Nat) (model : String) : LruScheduler :=
  { s with
    order := without model s.order ++ [model]
    lastAccess := update s.lastAccess model (some now) }

def registerActivity (s : LruScheduler) (now : Nat) (model : String) : LruScheduler :=
  s.touch now model

def onModelLoaded (s : LruScheduler) (now : Nat) (metadata : ModelMetadata) : LruScheduler :=
  { s with
    order := without metadata.name s.order ++ [metadata.name]
    lastAccess := update s.lastAccess metadata.name (some now)
    modelSizes := update s.modelSizes metadata.name (some metadata.sizeBytes)
    totalSize := saturatingAdd (s.totalSize - (s.modelSizes metadata.name).getD 0)
      metadata.sizeBytes
    pinned := update s.pinned metadata.name metadata.pinned }

def onModelUnloaded (s : LruScheduler) (model : String) : LruScheduler :=
  { s with
    order := without model s.order
    lastAccess := update s.lastAccess model none
    modelSizes := update s.modelSizes model none
    totalSize := s.totalSize - (s.modelSizes model).getD 0
    pinned := update s.pinned model false }

def canLoadModel (s : LruScheduler) (estimatedSizeBytes : Nat) : Bool :=
  s.maxVramBytes == 0 || saturatingAdd s.totalSize estimatedSizeBytes ≤ s.maxVramBytes

/-- A model in the order, with its deadline and its last access. -/
structure Candidate where
  name : String
  keepAliveDeadline : Nat
  lastAccess : Nat

def candidate (s : LruScheduler) (now : Nat) (name : String) : Candidate :=
  ⟨name, (s.keepAliveFn name).getD now, (s.lastAccess name).getD now⟩

/-- Those that are pinned come last, the others by deadline and then by last access. -/
def before (s : LruScheduler) (a b : Candidate) : Prop :=
  (s.pinned a.name).toNat < (s.pinned b.name).toNat ∨
    (s.pinned a.name).toNat = (s.pinned b.name).toNat ∧
      (a.keepAliveDeadline < b.keepAliveDeadline ∨
        a.keepAliveDeadline = b.keepAliveDeadline ∧ a.lastAccess ≤ b.lastAccess)

instance (s : LruScheduler) : DecidableRel s.before := fun _ _ => instDecidableOr

def sortedCandidates (s : LruScheduler) (now : Nat) : List Candidate :=
  (s.order.map (s.candidate now)).insertionSort s.before

/-- The candidates are gone through until few enough models are left. -/
def evictLoop (now : Nat) : List Candidate → LruScheduler → List String × LruScheduler
  | [], s => ([], s)
  | c :: candidates, s =>
    if s.order.length ≤ s.maxModels then ([], s)
    else if s.pinned c.name then evictLoop now candidates s
    else if now < c.keepAliveDeadline then evictLoop now candidates s
    else
      let result := evictLoop now candidates { s with
        order := without c.name s.order
        lastAccess := update s.lastAccess c.name none }
      (c.name :: result.1, result.2)

def adviseEvict (s : LruScheduler) (now : Nat) : List String × LruScheduler :=
  if s.order.length ≤ s.maxModels then ([], s)
  else evictLoop now (s.sortedCandidates now) s

/-- The scheduler holds nothing against the eviction of the model. -/
def evictable (s : LruScheduler) (now : Nat) (c : Candidate) : Bool :=
  !s.pinned c.name && c.keepAliveDeadline ≤ now

/-- The first of the candidates that may go, as many as there are too many models. -/
def due (s : LruScheduler) (now : Nat) : List String :=
  (((s.sortedCandidates now).filter (s.evictable now)).take (s.order.length - s.maxModels)).map
    Candidate.name

variable {s : LruScheduler} {now : Nat} {model : String} {order : List String}

theorem without_length (hnodup : order.Nodup) (h : model ∈ order) :
    (without model order).length + 1 = order.length := by
  have heq : without model order = order.erase model := (hnodup.erase_eq_filter model).symm
  have hpos : 0 < order.length := length_pos_of_mem h
  rw [heq, length_erase_of_mem h]
  omega

/-- What the loop keeps is what it needs to go on. -/
theorem evictLoop_eq {candidates : List Candidate} (hnodup : s.order.Nodup)
    (hmem : ∀ c ∈ candidates, c.name ∈ s.order) (hnames : (candidates.map Candidate.name).Nodup) :
    (evictLoop now candidates s).1 =
      ((candidates.filter (s.evictable now)).take (s.order.length - s.maxModels)).map
        Candidate.name := by
  induction candidates generalizing s with
  | nil => rw [evictLoop, filter_nil, take_nil, map_nil]
  | cons c candidates ih =>
    obtain ⟨hc, hnames⟩ := nodup_cons.mp hnames
    have hrest : ∀ d ∈ candidates, d.name ∈ s.order :=
      fun d hd => hmem d (mem_cons_of_mem _ hd)
    unfold evictLoop
    split
    · rename_i hfew
      rw [Nat.sub_eq_zero_of_le hfew, take_zero, map_nil]
    · rename_i hmany
      split
      · rename_i hpinned
        rw [ih hnodup hrest hnames, filter_cons_of_neg (by simp [evictable, hpinned])]
      · rename_i hpinned
        split
        · rename_i hlater
          rw [ih hnodup hrest hnames,
            filter_cons_of_neg (by simp [evictable]; omega)]
        · rename_i hnow
          have hlength := without_length hnodup (hmem c mem_cons_self)
          have hgo : s.evictable now c = true := by
            simp [evictable, hpinned]
            omega
          have hlater : ∀ d ∈ candidates, d.name ∈ without c.name s.order := by
            intro d hd
            refine mem_filter.mpr ⟨hrest d hd, ?_⟩
            have hne : d.name ≠ c.name := fun h => hc (h ▸ mem_map_of_mem hd)
            simpa using hne
          have hthen := ih (s := { s with
            order := without c.name s.order
            lastAccess := update s.lastAccess c.name none })
            (hnodup.filter _) hlater hnames
          have hcount : s.order.length - s.maxModels =
              ((without c.name s.order).length - s.maxModels) + 1 := by omega
          dsimp only
          rw [hthen, filter_cons_of_pos hgo, hcount, take_succ_cons, map_cons]
          rfl

theorem sortedCandidates_perm (s : LruScheduler) (now : Nat) :
    (s.sortedCandidates now).Perm (s.order.map (s.candidate now)) :=
  perm_insertionSort _ _

theorem sortedCandidates_names (s : LruScheduler) (now : Nat) :
    ((s.sortedCandidates now).map Candidate.name).Perm s.order := by
  have hnames : (s.order.map (s.candidate now)).map Candidate.name = s.order := by
    rw [map_map]
    exact map_id _
  exact hnames ▸ (s.sortedCandidates_perm now).map Candidate.name

theorem adviseEvict_eq (hnodup : s.order.Nodup) : (s.adviseEvict now).1 = s.due now := by
  have hnames := s.sortedCandidates_names now
  unfold adviseEvict
  split
  · rename_i hfew
    rw [due, Nat.sub_eq_zero_of_le hfew, take_zero, map_nil]
  · refine evictLoop_eq hnodup (fun c hc => ?_) (hnames.nodup_iff.mpr hnodup)
    exact hnames.mem_iff.mp (mem_map_of_mem hc)

theorem due_nodup (now : Nat) (hnodup : s.order.Nodup) : (s.due now).Nodup := by
  have hsorted := (s.sortedCandidates_names now).nodup_iff.mpr hnodup
  have hsub : (s.due now).Sublist ((s.sortedCandidates now).map Candidate.name) :=
    ((take_sublist _ _).trans filter_sublist).map _
  exact hsub.nodup hsorted

theorem sortedCandidates_pairwise (s : LruScheduler) (now : Nat) :
    (s.sortedCandidates now).Pairwise s.before := by
  have : Std.Total s.before := ⟨fun a b => by unfold before; omega⟩
  have : IsTrans Candidate s.before := ⟨fun a b c => by unfold before; omega⟩
  exact pairwise_insertionSort _ _

/-- As many are advised to leave as have to and may, and the others that may come after them. -/
structure Least (s : LruScheduler) (now : Nat) (advised : List String) : Prop where
  nodup : advised.Nodup
  length : advised.length = min (s.order.length - s.maxModels)
    (s.order.countP fun model => s.evictable now (s.candidate now model))
  first : ∀ model ∈ advised, model ∈ s.order ∧ s.evictable now (s.candidate now model) = true ∧
    ∀ other ∈ s.order, other ∉ advised → s.evictable now (s.candidate now other) = true →
      s.before (s.candidate now model) (s.candidate now other)

theorem adviseEvict_least (hnodup : s.order.Nodup) : Least s now (s.adviseEvict now).1 := by
  have hperm := s.sortedCandidates_perm now
  have hsorted := (s.sortedCandidates_pairwise now).filter (s.evictable now)
  rw [← take_append_drop (s.order.length - s.maxModels) (filter _ _), pairwise_append] at hsorted
  rw [adviseEvict_eq hnodup]
  refine ⟨due_nodup now hnodup, ?_, fun model hmodel => ?_⟩
  · rw [due, length_map, length_take, ← countP_eq_length_filter, hperm.countP_eq, countP_map]
    rfl
  · obtain ⟨c, hc, rfl⟩ := mem_map.mp hmodel
    obtain ⟨hlisted, hmay⟩ := mem_filter.mp (mem_of_mem_take hc)
    obtain ⟨model, hmem, rfl⟩ := mem_map.mp (hperm.mem_iff.mp hlisted)
    refine ⟨hmem, hmay, fun other hother hstays hlet => hsorted.2.2 _ hc _ ?_⟩
    -- a candidate that may go is advised to, or comes after those that are
    have hcandidate := hperm.mem_iff.mpr (mem_map_of_mem (f := s.candidate now) hother)
    have hplace := mem_filter.mpr ⟨hcandidate, hlet⟩
    rw [← take_append_drop (s.order.length - s.maxModels) (filter _ _), mem_append] at hplace
    exact hplace.resolve_left fun htaken => hstays (mem_map_of_mem htaken)

/-- Advice changes the order and the last accesses only. -/
theorem evictLoop_order (candidates : List Candidate) :
    (evictLoop now candidates s).2.order.Sublist s.order := by
  induction candidates generalizing s with
  | nil => exact .refl _
  | cons c candidates ih =>
    unfold evictLoop
    split
    · exact .refl _
    · split
      · exact ih
      · split
        · exact ih
        · exact ih.trans filter_sublist

theorem adviseEvict_order (s : LruScheduler) (now : Nat) :
    (s.adviseEvict now).2.order.Sublist s.order := by
  unfold adviseEvict
  split
  · exact .refl _
  · exact evictLoop_order _

theorem without_nodup (h : order.Nodup) (model : String) :
    (without model order).Nodup := h.filter _

theorem without_append_nodup (h : order.Nodup) (model : String) :
    (without model order ++ [model]).Nodup := by
  refine nodup_append.mpr ⟨without_nodup h model, by simp, ?_⟩
  intro a ha b hb
  obtain rfl := mem_singleton.mp hb
  have hne := (mem_filter.mp ha).2
  simpa using hne

end LruScheduler

end ColossalCode.ModelServer

/-! The manager of the models: requests, loading and unloading. What the engine and the builder
answer, and when, comes from outside. -/
namespace ColossalCode.ModelServer
open Function List

structure ModelBuilderParams where
  modelId : String
  keepAliveOverride : Option Nat
  keepAlive : Option Nat
  pinned : Bool
  maxParallelRequests : Option Nat

structure ManagerConfig where
  keepAliveDefault : Nat
  maxParallelRequestsPerModel : Nat
  maxTotalConcurrentRequests : Nat
  pagedAttnGpuMem : Option Nat

structure LoadModelRequest where
  model : String
  keepAlive : Option Nat
  pinned : Bool

/-- A model that the engine has let go, with what the manager knew of it at the time. -/
structure Unload where
  model : String
  advised : Bool
  time : Nat
  deadline : Option Nat
  pinned : Bool
  deriving DecidableEq, Repr

/-- `registering` are the models whose registration with the scheduler has been spawned; `unloads`
is kept for the account. -/
structure MistralModelManager where
  scheduler : LruScheduler
  managerCfg : ManagerConfig
  modelParams : String → Option ModelBuilderParams
  models : String → Option ModelMetadata
  keepAlive : String → Option Nat
  pinned : String → Bool
  activeRequests : String → Option Nat
  totalActive : Nat
  registering : List ModelMetadata
  unloads : List Unload

def effectiveKeepAlive (params : ModelBuilderParams) (managerCfg : ManagerConfig) : Nat :=
  (params.keepAliveOverride.or params.keepAlive).getD managerCfg.keepAliveDefault

def metadataFromParams (params : ModelBuilderParams) (managerCfg : ManagerConfig) :
    ModelMetadata :=
  ⟨params.modelId, 0, true, effectiveKeepAlive params managerCfg, params.pinned⟩

namespace MistralModelManager

def addModel (now : Nat) (m : MistralModelManager) (params : ModelBuilderParams) :
    MistralModelManager :=
  let metadata := metadataFromParams params m.managerCfg
  { m with
    modelParams := update m.modelParams params.modelId (some params)
    models := update m.models params.modelId (some metadata)
    keepAlive := update m.keepAlive params.modelId (some (now + metadata.keepAlive))
    pinned := if metadata.pinned then update m.pinned params.modelId true else m.pinned
    activeRequests := update m.activeRequests params.modelId (some 0) }

/-- The scheduler is given a lookup in a copy of the deadlines. -/
def registerKeepAliveCallback (m : MistralModelManager) : MistralModelManager :=
  { m with scheduler := { m.scheduler with keepAliveFn := m.keepAlive } }

/-- The models in the order in which the map yields them. -/
def registerExistingModels (ids : List String) (m : MistralModelManager) : MistralModelManager :=
  { m with registering := (ids.filterMap m.models).filter (·.loaded) }

def fromComponents (now maxModels : Nat) (managerCfg : ManagerConfig)
    (params : List ModelBuilderParams) : MistralModelManager :=
  let empty : MistralModelManager := ⟨.new maxModels, managerCfg, fun _ => none, fun _ => none,
    fun _ => none, fun _ => false, fun _ => none, 0, [], []⟩
  let m := registerExistingModels (params.map ModelBuilderParams.modelId).dedup
    (params.foldl (addModel now) empty).registerKeepAliveCallback
  { m with scheduler := { m.scheduler with maxVramBytes := managerCfg.pagedAttnGpuMem.getD 0 } }

def hasActiveRequests (m : MistralModelManager) (model : String) : Bool :=
  0 < (m.activeRequests model).getD 0

/-- The engine may fail to remove the model. -/
def unloadModelInternal (now : Nat) (removes : String → Bool) (allowPinned advised : Bool)
    (m : MistralModelManager) (model : String) : MistralModelManager :=
  match m.models model with
  | none => m
  | some metadata =>
    if m.pinned model && !allowPinned then m
    else if m.hasActiveRequests model then m
    else if metadata.loaded then
      let models := update m.models model (some { metadata with loaded := false })
      if removes model then
        { m with
          models := models
          keepAlive := update m.keepAlive model none
          scheduler := m.scheduler.onModelUnloaded model
          unloads := m.unloads ++ [⟨model, advised, now, m.keepAlive model,
            metadata.pinned || m.pinned model⟩] }
      else { m with models := models }
    else m

/-- What the scheduler advises is unloaded, one model after the other; `/admin/evict` without a list
of models does the same. -/
def applySchedulerAdvice (now : Nat) (removes : String → Bool) (m : MistralModelManager) :
    MistralModelManager :=
  let advice := m.scheduler.adviseEvict now
  advice.1.foldl (unloadModelInternal now removes false true) { m with scheduler := advice.2 }

def unloadModel (now : Nat) (removes : String → Bool) (m : MistralModelManager) (model : String) :
    MistralModelManager := unloadModelInternal now removes false false m model

def touchModel (now : Nat) (m : MistralModelManager) (model : String) : MistralModelManager :=
  match m.models model with
  | some metadata =>
    { m with keepAlive := update m.keepAlive model (some (now + metadata.keepAlive)) }
  | none => m

/-- An override that `humantime` has read. -/
def applyKeepAliveOverride (now : Nat) (duration : Option Nat) (m : MistralModelManager)
    (model : String) : MistralModelManager :=
  let ttl := duration.getD (((m.models model).map ModelMetadata.keepAlive).getD
    m.managerCfg.keepAliveDefault)
  { m with keepAlive := update m.keepAlive model (some (now + ttl)) }

def requested (req : LoadModelRequest) (metadata : ModelMetadata) : ModelMetadata :=
  { metadata with
    keepAlive := req.keepAlive.getD metadata.keepAlive
    pinned := metadata.pinned || req.pinned }

def refreshLoadedMetadata (now : Nat) (m : MistralModelManager) (req : LoadModelRequest) :
    MistralModelManager :=
  match m.models req.model with
  | none => m
  | some metadata =>
    let metadata := requested req metadata
    { m with
      models := update m.models req.model (some metadata)
      pinned := if req.pinned then update m.pinned req.model true else m.pinned
      keepAlive := update m.keepAlive req.model (some (now + metadata.keepAlive))
      scheduler := m.scheduler.onModelLoaded now metadata }

/-- The scheduler is told after the manager. -/
def finalizeModelLoad (now : Nat) (m : MistralModelManager) (req : LoadModelRequest)
    (params : ModelBuilderParams) : MistralModelManager :=
  let known := (m.models req.model).getD (metadataFromParams params m.managerCfg)
  let metadata : ModelMetadata := { requested req known with loaded := true }
  { m with
    models := update m.models req.model (some metadata)
    pinned := update m.pinned req.model metadata.pinned
    activeRequests := update m.activeRequests req.model
      (some ((m.activeRequests req.model).getD 0))
    keepAlive := update m.keepAlive req.model (some (now + metadata.keepAlive))
    scheduler := m.scheduler.onModelLoaded now metadata }

def parallelLimit (m : MistralModelManager) (model : String) : Nat :=
  ((m.modelParams model).bind ModelBuilderParams.maxParallelRequests).getD
    m.managerCfg.maxParallelRequestsPerModel

/-- `none` where there is no counter or a limit is reached. -/
def acquireGuard (m : MistralModelManager) (model : String) : Option MistralModelManager :=
  match m.activeRequests model with
  | none => none
  | some current =>
    if m.parallelLimit model ≤ current then none
    else if m.managerCfg.maxTotalConcurrentRequests ≤ m.totalActive then none
    else some { m with
      activeRequests := update m.activeRequests model (some (current + 1))
      totalActive := m.totalActive + 1 }

theorem acquireGuard_eq_some {m t : MistralModelManager} {model : String} :
    m.acquireGuard model = some t ↔ ∃ current, m.activeRequests model = some current ∧
      current < m.parallelLimit model ∧ m.totalActive < m.managerCfg.maxTotalConcurrentRequests ∧
      t = { m with
        activeRequests := update m.activeRequests model (some (current + 1))
        totalActive := m.totalActive + 1 } := by
  constructor
  · intro h
    unfold acquireGuard at h
    split at h
    · cases h
    · rename_i current hcurrent
      split at h
      · cases h
      · rename_i hparallel
        split at h
        · cases h
        · rename_i htotal
          exact ⟨current, hcurrent, by omega, by omega, (Option.some.inj h).symm⟩
  · rintro ⟨current, hcurrent, hparallel, htotal, rfl⟩
    unfold acquireGuard
    rw [hcurrent]
    dsimp only
    rw [if_neg (by omega), if_neg (by omega)]

def dropGuard (m : MistralModelManager) (model : String) : MistralModelManager :=
  { m with
    activeRequests := update m.activeRequests model ((m.activeRequests model).map (· - 1))
    totalActive := m.totalActive - 1 }

def registerActivity (now : Nat) (m : MistralModelManager) (model : String) : MistralModelManager :=
  { m with scheduler := m.scheduler.registerActivity now model }

end MistralModelManager

/-- What a request meets: the engine knows the model, does not, or fails; the builder loads it or
fails; the size of its files. -/
inductive EngineAnswer where
  | loaded
  | notFound
  | failed

structure Outside where
  now : Nat
  removes : String → Bool
  engine : EngineAnswer
  builds : Bool
  diskSize : Nat

namespace MistralModelManager

/-- The manager afterwards, and whether the load succeeded. -/
def loadModel (o : Outside) (req : LoadModelRequest) (m : MistralModelManager) :
    MistralModelManager × Bool :=
  let m := m.applySchedulerAdvice o.now o.removes
  match m.modelParams req.model with
  | none => (m, false)
  | some params =>
    if !m.scheduler.canLoadModel o.diskSize then (m, false)
    else if (m.models req.model).any ModelMetadata.loaded then
      (m.refreshLoadedMetadata o.now req, true)
    else if o.builds then (m.finalizeModelLoad o.now req params, true)
    else (m, false)

def ensureEngineHasModel (o : Outside) (model : String) (m : MistralModelManager) :
    MistralModelManager × Bool :=
  match o.engine with
  | .loaded => (m, true)
  | .notFound => m.loadModel o ⟨model, none, false⟩
  | .failed => (m, false)

/-- The part of `generate`, `chat` and their streams before the engine is asked; the guard is
dropped later. An override that cannot be read is `some none`. -/
def beginRequest (o : Outside) (model : String) (override : Option (Option Nat))
    (m : MistralModelManager) : MistralModelManager :=
  let m := m.applySchedulerAdvice o.now o.removes
  if (m.models model).isNone then m
  else
    let ensured := m.ensureEngineHasModel o model
    if !ensured.2 then ensured.1
    else
      let m := (ensured.1.registerActivity o.now model).touchModel o.now model
      match override with
      | some none => m
      | some (some duration) =>
        let m := m.applyKeepAliveOverride o.now (some duration) model
        (m.acquireGuard model).getD m
      | none =>
        let m := m.applyKeepAliveOverride o.now none model
        (m.acquireGuard model).getD m

/-- The part of `embeddings` before the engine is asked. -/
def beginEmbeddings (o : Outside) (model : String) (m : MistralModelManager) :
    MistralModelManager :=
  let m := m.applySchedulerAdvice o.now o.removes
  if (m.models model).isNone then m
  else
    let ensured := m.ensureEngineHasModel o model
    if !ensured.2 then ensured.1
    else
      let m := (ensured.1.registerActivity o.now model).touchModel o.now model
      (m.acquireGuard model).getD m

end MistralModelManager

end ColossalCode.ModelServer
