import ColossalCode.Transition.Run
import Mathlib.Data.List.Induction

/-! Runs of several parties, and what some of them see had the others done nothing. -/
namespace Transition
open List Option

section Interference

variable {σ α β : Type*} (step : σ → α → Option σ) (view : σ → β) (hidden : α → Bool)

/-- What a run shows after each of its actions, it shows without the hidden ones as well. -/
def Undisturbed (s : σ) (as : List α) : Prop :=
  ∀ pre u, pre <+: as → run step s pre = some u →
    ∃ v, run step s (pre.filter fun a => !hidden a) = some v ∧ view u = view v

/-- A hidden action changes nothing that is seen. -/
def Leaves (s : σ) (a : α) : Prop :=
  hidden a = true → ∀ t, step s a = some t → view t = view s

end Interference

section Unwinding

variable {σ α β : Type*} {step : σ → α → Option σ} {view : σ → β} {hidden : α → Bool}
  {ok : σ → α → Prop} {I : σ → Prop} {s s' t : σ} {as : List α}

theorem steps_congr {ok' : σ → α → Prop} (hinv : ∀ s a t, step s a = some t → I s → I t)
    (hok : ∀ s a t, I s → step s a = some t → (ok s a ↔ ok' s a)) (hs : I s) :
    Steps step ok s as t ↔ Steps step ok' s as t := by
  constructor
  · intro h
    induction h with
    | refl s => exact .refl s
    | head ha hu _ ih => exact .head ((hok _ _ _ hs hu).mp ha) hu (ih (hinv _ _ _ hu hs))
  · intro h
    induction h with
    | refl s => exact .refl s
    | head ha hu _ ih => exact .head ((hok _ _ _ hs hu).mpr ha) hu (ih (hinv _ _ _ hu hs))

theorem filter_concat_hidden {a : α} (ha : hidden a = true) (as : List α) :
    (as ++ [a]).filter (fun a => !hidden a) = as.filter fun a => !hidden a := by
  rw [filter_append, filter_cons_of_neg (by simp [ha]), filter_nil, append_nil]

theorem Undisturbed.left {bs : List α} (h : Undisturbed step view hidden s (as ++ bs)) :
    Undisturbed step view hidden s as :=
  fun pre u hpre hu => h pre u (hpre.trans (prefix_append _ _)) hu

/-- In an undisturbed run no hidden action changes what is seen. -/
theorem steps_of_undisturbed (h : Undisturbed step view hidden s as)
    (hrun : run step s as = some t) :
    Steps step (Leaves step view hidden) s as t := by
  induction as using List.reverseRecOn generalizing t with
  | nil =>
    obtain rfl : s = t := some.inj hrun
    exact .refl s
  | append_singleton as a ih =>
    obtain ⟨u, hu, hlast⟩ := run_append_eq_some.mp hrun
    obtain ⟨w, hw, hnil⟩ := run_cons_eq_some.mp hlast
    obtain rfl : w = t := some.inj hnil
    refine (ih h.left hu).snoc (fun ha t' ht' => ?_) hw
    obtain rfl := some.inj (hw.symm.trans ht')
    -- without its hidden actions the run is the same before and after this one
    obtain ⟨v, hv, hbefore⟩ := h as u (prefix_append _ _) hu
    obtain ⟨v', hv', hafter⟩ := h (as ++ [a]) w (prefix_refl _) hrun
    rw [filter_concat_hidden ha, hv] at hv'
    obtain rfl := some.inj hv'
    exact hafter.trans hbefore.symm

/-- Where what is seen decides what the other actions do to it, runs that look alike at their start
look alike at their end, if no hidden action changes what is seen. -/
theorem Steps.seen (h : Steps step (Leaves step view hidden) s as t)
    (hinv : ∀ s a t, step s a = some t → I s → I t)
    (hseen : ∀ s s' a t, hidden a = false → I s → I s' → view s = view s' → step s a = some t →
      ∃ t', step s' a = some t' ∧ view t = view t')
    (hs : I s) (hs' : I s') (heq : view s = view s') :
    ∃ v, run step s' (as.filter fun a => !hidden a) = some v ∧ view t = view v := by
  induction h generalizing s' with
  | refl s => exact ⟨s', rfl, heq⟩
  | @head s u t a as ha hu _ ih =>
    cases hhidden : hidden a with
    | true =>
      rw [filter_cons_of_neg (by simp [hhidden])]
      exact ih (hinv s a u hu hs) hs' ((ha hhidden u hu).trans heq)
    | false =>
      obtain ⟨u', hu', hview⟩ := hseen s s' a u hhidden hs hs' heq hu
      rw [filter_cons_of_pos (by simp [hhidden])]
      obtain ⟨v, hv, hend⟩ := ih (hinv s a u hu hs) (hinv s' a u' hu' hs') hview
      exact ⟨v, run_cons_eq_some.mpr ⟨u', hu', hv⟩, hend⟩

/-- The unwinding rule: a run is undisturbed if and only if none of its hidden actions changes what
is seen. -/
theorem undisturbed_iff_steps (hinv : ∀ s a t, step s a = some t → I s → I t)
    (hseen : ∀ s s' a t, hidden a = false → I s → I s' → view s = view s' → step s a = some t →
      ∃ t', step s' a = some t' ∧ view t = view t')
    (hrun : run step s as = some t) (hs : I s) :
    Undisturbed step view hidden s as ↔ Steps step (Leaves step view hidden) s as t := by
  refine ⟨fun h => steps_of_undisturbed h hrun, fun h pre u hpre hu => ?_⟩
  obtain ⟨rest, rfl⟩ := hpre
  obtain ⟨u', hpre, -⟩ := h.split
  obtain rfl := some.inj (hu.symm.trans hpre.run_eq)
  exact hpre.seen hinv hseen hs hs rfl

/-- The same, where it is known when an action leaves alone what is seen. -/
theorem undisturbed_iff (hinv : ∀ s a t, step s a = some t → I s → I t)
    (hseen : ∀ s s' a t, hidden a = false → I s → I s' → view s = view s' → step s a = some t →
      ∃ t', step s' a = some t' ∧ view t = view t')
    (hok : ∀ s a t, I s → step s a = some t → (Leaves step view hidden s a ↔ ok s a))
    (hrun : run step s as = some t) (hs : I s) :
    Undisturbed step view hidden s as ↔ Steps step ok s as t := by
  rw [undisturbed_iff_steps hinv hseen hrun hs]
  exact steps_congr hinv hok hs

/-- A run with the hidden actions left out keeps up with the whole run, if the allowed steps keep the
two related. -/
theorem Steps.without_hidden {R : σ → σ → Prop} (h : Steps step ok s as t)
    (hhidden : ∀ s a t s', hidden a = true → step s a = some t → R s s' → R t s')
    (hshown : ∀ s a t s', hidden a = false → ok s a → step s a = some t → R s s' →
      ∃ t', step s' a = some t' ∧ R t t')
    (hR : R s s') : ∃ v, run step s' (as.filter fun a => !hidden a) = some v ∧ R t v := by
  induction h generalizing s' with
  | refl s => exact ⟨s', rfl, hR⟩
  | @head s u t a as ha hu _ ih =>
    cases hhide : hidden a with
    | true =>
      rw [filter_cons_of_neg (by simp [hhide])]
      exact ih (hhidden s a u s' hhide hu hR)
    | false =>
      obtain ⟨u', hu', hkept⟩ := hshown s a u s' hhide ha hu hR
      rw [filter_cons_of_pos (by simp [hhide])]
      obtain ⟨v, hv, hend⟩ := ih hkept
      exact ⟨v, run_cons_eq_some.mpr ⟨u', hu', hv⟩, hend⟩

end Unwinding

end Transition
