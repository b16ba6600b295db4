import ColossalCode.ModelServer.Eviction

/-! What an unload answers, and what it leaves behind where it fails. -/
namespace ColossalCode.ModelServer

/-- The errors of `ModelManagerError` that an unload may answer. -/
inductive UnloadError where
  | notFound (model : String)
  | scheduler (message : String)
  | other (message : String)

namespace MistralModelManager

variable {remove : String → Except String Unit} {allowPinned : Bool} {m : MistralModelManager}
  {model : String}

/-- The answer of the engine, as the manager sees it. -/
def removed (remove : String → Except String Unit) (model : String) : Bool := (remove model).toBool

/-- What `unload_model_internal` returns; `unloadModelInternal` is what it does. -/
def unloadAnswer (remove : String → Except String Unit) (allowPinned : Bool)
    (m : MistralModelManager) (model : String) : Except UnloadError Unit :=
  match m.models model with
  | none => .error (.notFound model)
  | some metadata =>
    if m.pinned model && !allowPinned then .error (.scheduler ("model " ++ model ++ " is pinned"))
    else if m.hasActiveRequests model then
      .error (.scheduler ("model " ++ model ++ " still has active requests"))
    else if metadata.loaded then
      match remove model with
      | .ok () => .ok ()
      | .error message => .error (.other message)
    else .ok ()

/-- Nothing but the engine keeps the model. -/
def OnlyEngineKeeps (remove : String → Except String Unit) (allowPinned : Bool)
    (m : MistralModelManager) (model : String) : Prop :=
  (∃ metadata, m.models model = some metadata ∧ metadata.loaded = true) ∧
    (m.pinned model = true → allowPinned = true) ∧ m.hasActiveRequests model = false ∧
    ∃ message, remove model = .error message

/-- A model that the engine does not let go is no longer recorded as loaded. -/
theorem unloadModelInternal_kept (now : Nat) (advised : Bool)
    (h : OnlyEngineKeeps remove allowPinned m model) :
    (∃ message, unloadAnswer remove allowPinned m model = .error (.other message)) ∧
      unloadModelInternal now (removed remove) allowPinned advised m model ≠ m := by
  obtain ⟨⟨metadata, hmodel, hloaded⟩, hpinned, hactive, message, hremove⟩ := h
  have hfree : (m.pinned model && !allowPinned) = false := by
    cases hset : m.pinned model with
    | false => rfl
    | true => rw [hpinned hset]; rfl
  have hfails : removed remove model = false := by rw [removed, hremove]; rfl
  refine ⟨⟨message, ?_⟩, fun heq => ?_⟩
  · simp only [unloadAnswer, hmodel, hfree, hactive, hloaded, hremove, Bool.false_eq_true,
      if_false, if_true]
  · have hrecord := congrFun (congrArg MistralModelManager.models heq) model
    simp only [unloadModelInternal, hmodel, hfree, hactive, hloaded, hfails, Bool.false_eq_true,
      if_false, if_true, Function.update_self, Option.some.injEq] at hrecord
    rw [← hrecord] at hloaded
    cases hloaded

/-- A failing unload changes nothing if and only if it is not the engine that fails. -/
theorem failed_unload_changes_nothing_iff (now : Nat) (remove : String → Except String Unit)
    (allowPinned advised : Bool) (m : MistralModelManager) (model : String) :
    (∀ error, unloadAnswer remove allowPinned m model = .error error →
      unloadModelInternal now (removed remove) allowPinned advised m model = m) ↔
      ¬ OnlyEngineKeeps remove allowPinned m model := by
  constructor
  · intro h hkept
    obtain ⟨⟨message, hfailed⟩, hchanged⟩ := unloadModelInternal_kept now advised hkept
    exact hchanged (h _ hfailed)
  · intro hkept error hfailed
    unfold unloadAnswer at hfailed
    unfold unloadModelInternal
    cases hmodel : m.models model with
    | none => rfl
    | some metadata =>
      rw [hmodel] at hfailed
      dsimp only at hfailed ⊢
      split
      · rfl
      · rename_i hpinned
        rw [if_neg hpinned] at hfailed
        split
        · rfl
        · rename_i hactive
          rw [if_neg hactive] at hfailed
          split
          · rename_i hloaded
            rw [if_pos hloaded] at hfailed
            split at hfailed
            · cases hfailed
            · rename_i message hremove
              exact absurd ⟨⟨metadata, hmodel, hloaded⟩, by simpa using hpinned,
                by simpa using hactive, message, hremove⟩ hkept
          · rfl

/-- A manager that has just been set up with one model. -/
def single : MistralModelManager :=
  fromComponents 0 1 ⟨60, 1, 1, none⟩ [⟨"qwen", none, none, false, none⟩]

/-- The engine does not remove its last model, which stays recorded as unloaded. -/
theorem record_cleared_before_engine_fails :
    let remove : String → Except String Unit := fun _ => .error "cannot remove the last model"
    Transition.run step single [] = some single ∧
      unloadAnswer remove false single "qwen" = .error (.other "cannot remove the last model") ∧
      ((single.unloadModel 0 (removed remove) "qwen").models "qwen").map (·.loaded) = some false ∧
      (single.models "qwen").map (·.loaded) = some true ∧
      single.unloadModel 0 (removed remove) "qwen" ≠ single := by
  refine ⟨rfl, rfl, rfl, rfl, fun heq => ?_⟩
  have hrecord := congrArg (fun m : MistralModelManager => (m.models "qwen").map (·.loaded)) heq
  revert hrecord
  decide

end MistralModelManager

end ColossalCode.ModelServer
