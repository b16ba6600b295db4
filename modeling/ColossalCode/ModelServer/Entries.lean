import ColossalCode.ModelServer.Eviction

/-! What the manager and the scheduler hold of one model, and what each operation does to it. -/
namespace ColossalCode.ModelServer
open Function List Option LruScheduler

open Transition MistralModelManager

/-- The place of a model in the order, its recorded size and its metadata. -/
structure Entry where
  ordered : Bool
  size : Option Nat
  metadata : Option ModelMetadata

namespace Entry

def loaded (e : Entry) : Bool := e.metadata.any ModelMetadata.loaded

/-- The scheduler holds the model as loaded, or does not hold it at all, as the manager has it. -/
def Agrees (e : Entry) : Prop := e.ordered = e.loaded ∧ e.size.isSome = e.loaded

/-- What unloading leaves of a model: nothing is done where it is in use or not loaded. -/
def letGo (inUse removed : Bool) (e : Entry) : Entry :=
  match e.metadata with
  | none => e
  | some metadata =>
    if inUse then e
    else if metadata.loaded then
      if removed then ⟨false, none, some { metadata with loaded := false }⟩
      else { e with metadata := some { metadata with loaded := false } }
    else e

variable {e : Entry} {inUse removed : Bool}

theorem letGo_loaded (h : e.loaded = true) : (e.letGo inUse removed).loaded = inUse := by
  unfold loaded at h
  unfold letGo
  cases hmetadata : e.metadata with
  | none =>
    rw [hmetadata] at h
    cases h
  | some metadata =>
    rw [hmetadata] at h
    have hloaded : metadata.loaded = true := h
    dsimp only
    cases inUse with
    | true => simpa [loaded, hmetadata] using hloaded
    | false => cases removed <;> simp [hloaded, loaded]

/-- A model that the advice has taken out of the order must leave. -/
theorem advised_agrees_iff (h : e.loaded = true) (hsize : e.size.isSome = true) :
    (Entry.letGo inUse removed { e with ordered := false }).Agrees ↔
      inUse = false ∧ removed = true := by
  unfold loaded at h
  cases hmetadata : e.metadata with
  | none =>
    rw [hmetadata] at h
    cases h
  | some metadata =>
    rw [hmetadata] at h
    have hloaded : metadata.loaded = true := h
    cases inUse <;> cases removed <;> simp [Agrees, letGo, loaded, hloaded, hsize]

/-- A model that the scheduler holds rightly may only be lost by an engine that fails. -/
theorem letGo_agrees_iff (h : e.Agrees) : (e.letGo inUse removed).Agrees ↔
    (e.loaded = true → inUse = false → removed = true) := by
  obtain ⟨hordered, hsize⟩ := h
  cases hmetadata : e.metadata with
  | none =>
    have hunloaded : e.loaded = false := by rw [loaded, hmetadata]; rfl
    rw [hunloaded] at hordered hsize
    simp [Agrees, letGo, hmetadata, hunloaded, hordered, hsize]
  | some metadata =>
    have hloaded : e.loaded = metadata.loaded := by rw [loaded, hmetadata]; rfl
    rw [hloaded] at hordered hsize ⊢
    cases hvalue : metadata.loaded
    · rw [hvalue] at hordered hsize hloaded
      cases inUse <;> simp [Agrees, letGo, hmetadata, hvalue, hloaded, hordered, hsize]
    · rw [hvalue] at hordered hsize hloaded
      cases inUse <;> cases removed <;>
        simp [Agrees, letGo, loaded, hmetadata, hvalue, hordered, hsize]

end Entry

namespace MistralModelManager

def isLoaded (m : MistralModelManager) (model : String) : Bool :=
  (m.models model).any ModelMetadata.loaded

def entry (m : MistralModelManager) (model : String) : Entry :=
  ⟨decide (model ∈ m.scheduler.order), m.scheduler.modelSizes model, m.models model⟩

/-- Pinned, or asked for by a request that has not ended. -/
def inUse (m : MistralModelManager) (model : String) : Bool :=
  m.pinned model || m.hasActiveRequests model

end MistralModelManager

section Advice

variable {s : LruScheduler} {now : Nat} {model : String}

theorem mem_without {order : List String} {other : String} :
    other ∈ without model order ↔ other ∈ order ∧ other ≠ model := by
  simp [without]

theorem evictLoop_mem (candidates : List LruScheduler.Candidate) :
    model ∈ (evictLoop now candidates s).2.order ↔
      model ∈ s.order ∧ model ∉ (evictLoop now candidates s).1 := by
  induction candidates generalizing s with
  | nil => simp [evictLoop]
  | cons c candidates ih =>
    unfold evictLoop
    split
    · simp
    · split
      · exact ih
      · split
        · exact ih
        · dsimp only
          rw [ih, mem_without, mem_cons, not_or, and_assoc]

/-- Advice touches neither the sizes nor the pins. -/
theorem evictLoop_sizes (candidates : List LruScheduler.Candidate) :
    let after := (evictLoop now candidates s).2
    after.modelSizes = s.modelSizes ∧ after.totalSize = s.totalSize ∧
      after.maxVramBytes = s.maxVramBytes := by
  induction candidates generalizing s with
  | nil => exact ⟨rfl, rfl, rfl⟩
  | cons c candidates ih =>
    unfold evictLoop
    split
    · exact ⟨rfl, rfl, rfl⟩
    · split
      · exact ih
      · split
        · exact ih
        · exact ih

theorem adviseEvict_mem (h : s.order.Nodup) :
    model ∈ (s.adviseEvict now).2.order ↔ model ∈ s.order ∧ model ∉ s.due now := by
  rw [← adviseEvict_eq h]
  unfold adviseEvict
  split
  · simp
  · exact evictLoop_mem _

theorem adviseEvict_sizes (s : LruScheduler) (now : Nat) :
    let after := (s.adviseEvict now).2
    after.modelSizes = s.modelSizes ∧ after.totalSize = s.totalSize ∧
      after.maxVramBytes = s.maxVramBytes := by
  unfold adviseEvict
  split
  · exact ⟨rfl, rfl, rfl⟩
  · exact evictLoop_sizes _

theorem due_mem (h : model ∈ s.due now) : model ∈ s.order := by
  obtain ⟨c, hc, rfl⟩ := mem_map.mp h
  have hcandidate := mem_of_mem_filter (mem_of_mem_take hc)
  exact (s.sortedCandidates_names now).mem_iff.mp (mem_map_of_mem hcandidate)

end Advice

section Unloading

variable {now : Nat} {removes : String → Bool} {advised : Bool} {m : MistralModelManager}
  {model other : String}

theorem unload_entry :
    (unloadModelInternal now removes false advised m model).entry other =
      if other = model then (m.entry model).letGo (m.inUse model) (removes model)
      else m.entry other := by
  have hcases : (unloadModelInternal now removes false advised m model).entry model =
      (m.entry model).letGo (m.inUse model) (removes model) := by
    unfold unloadModelInternal inUse Entry.letGo entry
    cases hmodel : m.models model with
    | none => simp [hmodel]
    | some metadata =>
      cases hpinned : m.pinned model
      · cases hactive : m.hasActiveRequests model
        · cases hloaded : metadata.loaded
          · simp [hmodel, hloaded]
          · cases removes model <;>
              simp [hloaded, onModelUnloaded, without]
        · simp [hmodel]
      · simp [hmodel]
  by_cases hother : other = model
  · subst hother
    rw [if_pos rfl, hcases]
  · rw [if_neg hother]
    unfold unloadModelInternal entry
    cases m.models model with
    | none => rfl
    | some metadata =>
      dsimp only
      split
      · rfl
      · split
        · rfl
        · split
          · split
            · simp [onModelUnloaded, mem_without, hother]
            · simp [hother]
          · rfl

/-- What no unloading touches. -/
structure SameOutside (m t : MistralModelManager) : Prop where
  pinned : t.pinned = m.pinned
  activeRequests : t.activeRequests = m.activeRequests
  modelParams : t.modelParams = m.modelParams
  registering : t.registering = m.registering
  managerCfg : t.managerCfg = m.managerCfg
  maxVramBytes : t.scheduler.maxVramBytes = m.scheduler.maxVramBytes

theorem unload_same : SameOutside m (unloadModelInternal now removes false advised m model) := by
  unfold unloadModelInternal
  split
  · exact ⟨rfl, rfl, rfl, rfl, rfl, rfl⟩
  · split
    · exact ⟨rfl, rfl, rfl, rfl, rfl, rfl⟩
    · split
      · exact ⟨rfl, rfl, rfl, rfl, rfl, rfl⟩
      · split
        · dsimp only
          split <;> exact ⟨rfl, rfl, rfl, rfl, rfl, rfl⟩
        · exact ⟨rfl, rfl, rfl, rfl, rfl, rfl⟩

theorem SameOutside.trans {t u : MistralModelManager} (h : SameOutside m t)
    (h' : SameOutside t u) : SameOutside m u :=
  ⟨h'.pinned.trans h.pinned, h'.activeRequests.trans h.activeRequests,
    h'.modelParams.trans h.modelParams, h'.registering.trans h.registering,
    h'.managerCfg.trans h.managerCfg, h'.maxVramBytes.trans h.maxVramBytes⟩

theorem SameOutside.inUse {t : MistralModelManager} (h : SameOutside m t) (model : String) :
    t.inUse model = m.inUse model := by
  unfold MistralModelManager.inUse hasActiveRequests
  rw [h.pinned, h.activeRequests]

theorem unload_all_same (models : List String) :
    SameOutside m (models.foldl (unloadModelInternal now removes false advised) m) := by
  induction models generalizing m with
  | nil => exact ⟨rfl, rfl, rfl, rfl, rfl, rfl⟩
  | cons model models ih => exact unload_same.trans ih

theorem unload_all_entry {models : List String} (hnodup : models.Nodup) :
    (models.foldl (unloadModelInternal now removes false advised) m).entry other =
      if other ∈ models then (m.entry other).letGo (m.inUse other) (removes other)
      else m.entry other := by
  induction models generalizing m with
  | nil => rfl
  | cons model models ih =>
    obtain ⟨hmodel, hrest⟩ := nodup_cons.mp hnodup
    rw [foldl_cons, ih hrest, unload_entry, unload_same.inUse]
    by_cases hother : other = model
    · subst hother
      rw [if_neg hmodel, if_pos rfl, if_pos mem_cons_self]
    · rw [if_neg hother]
      by_cases hmem : other ∈ models
      · rw [if_pos hmem, if_pos (mem_cons_of_mem _ hmem)]
      · have hnone : other ∉ model :: models := fun h =>
          (mem_cons.mp h).elim hother hmem
        rw [if_neg hmem, if_neg hnone]

theorem advice_same (now : Nat) (removes : String → Bool) (m : MistralModelManager) :
    SameOutside m (m.applySchedulerAdvice now removes) :=
  have hadvised : SameOutside m { m with scheduler := (m.scheduler.adviseEvict now).2 } :=
    ⟨rfl, rfl, rfl, rfl, rfl, (adviseEvict_sizes m.scheduler now).2.2⟩
  hadvised.trans (unload_all_same _)

theorem advice_entry (h : m.scheduler.order.Nodup) :
    (m.applySchedulerAdvice now removes).entry model =
      if model ∈ m.scheduler.due now then
        Entry.letGo (m.inUse model) (removes model) { m.entry model with ordered := false }
      else m.entry model := by
  have hadvice : (m.scheduler.adviseEvict now).1 = m.scheduler.due now :=
    adviseEvict_eq h
  have hnodup := due_nodup now h
  have hadvised : ({ m with scheduler := (m.scheduler.adviseEvict now).2 } :
      MistralModelManager).entry model =
        if model ∈ m.scheduler.due now then { m.entry model with ordered := false }
        else m.entry model := by
    unfold entry
    dsimp only
    rw [(adviseEvict_sizes m.scheduler now).1]
    by_cases hdue : model ∈ m.scheduler.due now
    · have hgone : model ∉ (m.scheduler.adviseEvict now).2.order := fun hmem =>
        ((adviseEvict_mem h).mp hmem).2 hdue
      rw [if_pos hdue, decide_eq_false hgone]
    · have hstays : model ∈ (m.scheduler.adviseEvict now).2.order ↔ model ∈ m.scheduler.order :=
        (adviseEvict_mem h).trans (and_iff_left hdue)
      rw [if_neg hdue, decide_eq_decide.mpr hstays]
  unfold applySchedulerAdvice
  dsimp only
  rw [hadvice, unload_all_entry hnodup, hadvised]
  by_cases hdue : model ∈ m.scheduler.due now
  · rw [if_pos hdue, if_pos hdue, if_pos hdue]
    rfl
  · rw [if_neg hdue, if_neg hdue, if_neg hdue]

/-- The models due leave, and what the scheduler holds rightly of the others it still does. -/
theorem advice_agrees_iff (h : m.scheduler.order.Nodup) (hagrees : (m.entry model).Agrees) :
    ((m.applySchedulerAdvice now removes).entry model).Agrees ↔
      (model ∈ m.scheduler.due now → Leaves m removes model) := by
  rw [advice_entry h]
  by_cases hdue : model ∈ m.scheduler.due now
  · have hordered : (m.entry model).ordered = true := decide_eq_true (due_mem hdue)
    have hloaded : (m.entry model).loaded = true := hagrees.1.symm.trans hordered
    rw [if_pos hdue, Entry.advised_agrees_iff hloaded (hagrees.2.trans hloaded)]
    have hmetadata : ∃ metadata, m.models model = some metadata ∧ metadata.loaded = true :=
      (any_eq_true _ _).mp hloaded
    simp only [hdue, true_implies, Leaves, hmetadata, true_and, inUse, Bool.or_eq_false_iff,
      and_assoc]
  · rw [if_neg hdue]
    exact iff_of_true hagrees fun hmem => absurd hmem hdue

end Unloading

section Loading

variable {now : Nat} {m t : MistralModelManager} {metadata : ModelMetadata} {model other : String}

/-- The scheduler is told of a model that the manager has. -/
theorem loaded_entry (hmodels : t.models = update m.models metadata.name (some metadata))
    (hscheduler : t.scheduler = m.scheduler.onModelLoaded now metadata) :
    t.entry other = if other = metadata.name then ⟨true, some metadata.sizeBytes, some metadata⟩
      else m.entry other := by
  unfold entry
  rw [hmodels, hscheduler]
  by_cases hother : other = metadata.name
  · subst hother
    simp [onModelLoaded]
  · simp [onModelLoaded, mem_without, hother]

end Loading

end ColossalCode.ModelServer
