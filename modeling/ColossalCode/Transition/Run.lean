import Mathlib.Data.List.Basic

/-! Runs of a deterministic labelled transition function, and the rules that lift what one
step preserves to whole runs. -/
namespace Transition
open List Option

variable {σ α : Type*} {step : σ → α → Option σ} {ok ok' : σ → α → Prop} {P : σ → Prop}
  {s t u : σ} {a : α} {as bs : List α}

/-- Execute a list of actions; `none` when one of them is not enabled. -/
def run (step : σ → α → Option σ) : σ → List α → Option σ
  | s, [] => some s
  | s, a :: as => (step s a).bind fun t => run step t as

/-- The runs all of whose steps satisfy `ok` in the state they are taken in. -/
inductive Steps (step : σ → α → Option σ) (ok : σ → α → Prop) : σ → List α → σ → Prop
  | refl (s : σ) : Steps step ok s [] s
  | head {s t u : σ} {a : α} {as : List α} : ok s a → step s a = some t →
      Steps step ok t as u → Steps step ok s (a :: as) u

/-- `P` holds in every state that the run of `as` from `s` goes through. -/
def Throughout (step : σ → α → Option σ) (P : σ → Prop) (s : σ) (as : List α) : Prop :=
  ∀ pre u, pre <+: as → run step s pre = some u → P u

@[simp] theorem run_nil : run step s [] = some s := rfl

theorem run_cons_eq_some : run step s (a :: as) = some u ↔
    ∃ t, step s a = some t ∧ run step t as = some u := by
  simp [run, bind_eq_some_iff]

theorem run_append_eq_some : run step s (as ++ bs) = some u ↔
    ∃ t, run step s as = some t ∧ run step t bs = some u := by
  induction as generalizing s with
  | nil => simp
  | cons a as ih =>
    simp only [cons_append, run_cons_eq_some, ih]
    constructor
    · rintro ⟨v, hv, t, ht, hu⟩
      exact ⟨t, ⟨v, hv, ht⟩, hu⟩
    · rintro ⟨t, ⟨v, hv, ht⟩, hu⟩
      exact ⟨v, hv, t, ht, hu⟩

theorem Steps.run_eq (h : Steps step ok s as t) : run step s as = some t := by
  induction h with
  | refl => rfl
  | head _ hs _ ih => exact run_cons_eq_some.mpr ⟨_, hs, ih⟩

theorem Steps.append (h : Steps step ok s as t) (h' : Steps step ok t bs u) :
    Steps step ok s (as ++ bs) u := by
  induction h with
  | refl => exact h'
  | head ha hs _ ih => exact .head ha hs (ih h')

theorem Steps.snoc (h : Steps step ok s as t) (ha : ok t a) (hs : step t a = some u) :
    Steps step ok s (as ++ [a]) u :=
  h.append (.head ha hs (.refl u))

theorem Steps.split (h : Steps step ok s (as ++ bs) u) :
    ∃ t, Steps step ok s as t ∧ Steps step ok t bs u := by
  induction as generalizing s with
  | nil => exact ⟨s, .refl s, h⟩
  | cons a as ih =>
    cases h with
    | head ha hs hr =>
      obtain ⟨t, has, hbs⟩ := ih hr
      exact ⟨t, .head ha hs has, hbs⟩

variable {Q : α → Prop} {I : σ → Prop}

/-- The actions of a run may be known to have a property. -/
theorem Steps.and_mem (h : Steps step ok s as t) (hQ : ∀ a ∈ as, Q a) :
    Steps step (fun s a => ok s a ∧ Q a) s as t := by
  induction h with
  | refl s => exact .refl s
  | head ha hs _ ih =>
    obtain ⟨hhead, htail⟩ := forall_mem_cons.mp hQ
    exact .head ⟨ha, hhead⟩ hs (ih htail)

theorem steps_of_run (h : run step s as = some t) : Steps step (fun _ _ => True) s as t := by
  induction as generalizing s with
  | nil =>
    obtain rfl : s = t := by simpa using h
    exact .refl s
  | cons a as ih =>
    obtain ⟨v, hv, hr⟩ := run_cons_eq_some.mp h
    exact .head trivial hv (ih hr)

/-- The invariant rule: what every allowed step preserves holds at the end of every allowed run. -/
theorem Steps.invariant (h : Steps step ok s as t)
    (hstep : ∀ s a t, ok s a → step s a = some t → P s → P t) (hs : P s) : P t := by
  induction h with
  | refl => exact hs
  | head ha he _ ih => exact ih (hstep _ _ _ ha he hs)

/-- The same rule for a relation to the state the run started in. -/
theorem Steps.relation {R : σ → σ → Prop} (h : Steps step ok s as t)
    (hrefl : ∀ s, R s s) (htrans : ∀ s t u, R s t → R t u → R s u)
    (hstep : ∀ s a t, ok s a → step s a = some t → R s t) : R s t := by
  induction h with
  | refl => exact hrefl _
  | head ha he _ ih => exact htrans _ _ _ (hstep _ _ _ ha he) ih

theorem run_invariant (h : run step s as = some t)
    (hstep : ∀ s a t, step s a = some t → P s → P t) (hs : P s) : P t :=
  (steps_of_run h).invariant (fun s a t _ => hstep s a t) hs

theorem throughout_cons (hs : step s a = some t) :
    Throughout step P s (a :: as) ↔ P s ∧ Throughout step P t as := by
  constructor
  · intro h
    refine ⟨h [] s nil_prefix rfl, fun pre u hpre hu => h (a :: pre) u ?_ ?_⟩
    · simpa using hpre
    · exact run_cons_eq_some.mpr ⟨t, hs, hu⟩
  · rintro ⟨hP, h⟩ pre u hpre hu
    cases pre with
    | nil =>
      obtain rfl : s = u := by simpa using hu
      exact hP
    | cons b pre =>
      obtain ⟨rfl, htail⟩ := cons_prefix_cons.mp hpre
      obtain ⟨v, hv, hu⟩ := run_cons_eq_some.mp hu
      obtain rfl : t = v := some.inj (hs.symm.trans hv)
      exact h pre u htail hu

theorem throughout_nil : Throughout step P s [] ↔ P s := by
  constructor
  · intro h
    exact h [] s nil_prefix rfl
  · rintro hP pre u hpre hu
    obtain rfl := prefix_nil.mp hpre
    obtain rfl : s = u := by simpa using hu
    exact hP

/-- What an invariant of the allowed steps implies holds throughout an allowed run. -/
theorem Steps.throughout (h : Steps step ok s as t)
    (hstep : ∀ s a t, ok s a → step s a = some t → I s → I t) (hI : ∀ s, I s → P s)
    (hs : I s) : Throughout step P s as := by
  induction h with
  | refl => exact throughout_nil.mpr (hI _ hs)
  | head ha he _ ih => exact (throughout_cons he).mpr ⟨hI _ hs, ih (hstep _ _ _ ha he hs)⟩

/-- An allowed run through states that satisfy `P` is allowed by what `P` says of each step. -/
theorem Steps.mono_throughout (h : Steps step ok s as t) (hP : Throughout step P s as)
    (hok : ∀ s a t, ok s a → step s a = some t → P s → P t → ok' s a) :
    Steps step ok' s as t := by
  induction h with
  | refl => exact .refl _
  | head ha hs _ ih =>
    obtain ⟨hhead, htail⟩ := (throughout_cons hs).mp hP
    exact .head (hok _ _ _ ha hs hhead (htail [] _ nil_prefix rfl)) hs (ih htail)

/-- A run is allowed when each of its steps is, as the states before and after it show. -/
theorem steps_of_throughout (h : run step s as = some t) (hP : Throughout step P s as)
    (hok : ∀ s a t, step s a = some t → P s → P t → ok s a) : Steps step ok s as t :=
  (steps_of_run h).mono_throughout hP fun s a t _ => hok s a t

/-- A property that each step keeps exactly when it is allowed holds throughout the allowed runs
and no others. Of the actions of the run something may be known, and of the states for as long as
the property holds. -/
theorem throughout_iff_steps_while (hQ : ∀ a ∈ as, Q a)
    (hI : ∀ s a t, Q a → step s a = some t → P s → P t → I s → I t)
    (hok : ∀ s a t, Q a → I s → step s a = some t → P s → (P t ↔ ok s a))
    (h : run step s as = some t) (hs : I s) (hP : P s) :
    Throughout step P s as ↔ Steps step ok s as t := by
  induction as generalizing s with
  | nil =>
    obtain rfl : s = t := by simpa using h
    exact iff_of_true (throughout_nil.mpr hP) (.refl s)
  | cons a as ih =>
    obtain ⟨v, hv, hr⟩ := run_cons_eq_some.mp h
    obtain ⟨ha, hrest⟩ := forall_mem_cons.mp hQ
    have hkept : P v ↔ ok s a := hok s a v ha hs hv hP
    rw [throughout_cons hv]
    constructor
    · rintro ⟨-, hthrough⟩
      have hPv : P v := hthrough [] v nil_prefix rfl
      exact .head (hkept.mp hPv) hv ((ih hrest hr (hI s a v ha hv hP hPv hs) hPv).mp hthrough)
    · intro hsteps
      cases hsteps with
      | head hallowed hv' htail =>
        obtain rfl := some.inj (hv.symm.trans hv')
        have hPv : P v := hkept.mpr hallowed
        exact ⟨hP, (ih hrest hr (hI s a v ha hv hP hPv hs) hPv).mpr htail⟩

theorem throughout_iff_steps_mem (hQ : ∀ a ∈ as, Q a)
    (hI : ∀ s a t, Q a → step s a = some t → I s → I t)
    (hok : ∀ s a t, Q a → I s → step s a = some t → P s → (P t ↔ ok s a))
    (h : run step s as = some t) (hs : I s) (hP : P s) :
    Throughout step P s as ↔ Steps step ok s as t :=
  throughout_iff_steps_while hQ (fun s a t ha hstep _ _ => hI s a t ha hstep) hok h hs hP

theorem throughout_iff_steps (hI : ∀ s a t, step s a = some t → I s → I t)
    (hok : ∀ s a t, I s → step s a = some t → P s → (P t ↔ ok s a))
    (h : run step s as = some t) (hs : I s) (hP : P s) :
    Throughout step P s as ↔ Steps step ok s as t :=
  throughout_iff_steps_mem (Q := fun _ => True) (fun _ _ => trivial) (fun s a t _ => hI s a t)
    (fun s a t _ => hok s a t) h hs hP

/-- What holds at the end of a run, and before a step whenever it does after it, holds throughout
the run. -/
theorem throughout_of_end (h : run step s as = some t)
    (hback : ∀ s a t, step s a = some t → P t → P s) (ht : P t) : Throughout step P s as := by
  induction as generalizing s with
  | nil =>
    obtain rfl : s = t := by simpa using h
    exact throughout_nil.mpr ht
  | cons a as ih =>
    obtain ⟨v, hv, hr⟩ := run_cons_eq_some.mp h
    have htail := ih hr
    exact (throughout_cons hv).mpr
      ⟨hback _ _ _ hv (htail [] v nil_prefix rfl), htail⟩

/-- What each step keeps exactly when it is allowed, and no step brings back, holds at the end of the
allowed runs and of no others. -/
theorem end_iff_steps (hI : ∀ s a t, step s a = some t → I s → I t)
    (hok : ∀ s a t, I s → step s a = some t → P s → (P t ↔ ok s a))
    (hback : ∀ s a t, I s → step s a = some t → P t → P s)
    (h : run step s as = some t) (hs : I s) (hP : P s) : P t ↔ Steps step ok s as t := by
  rw [← throughout_iff_steps hI hok h hs hP]
  constructor
  · rintro ht pre u hpre hu
    obtain ⟨rest, rfl⟩ := hpre
    obtain ⟨v, hv, hrest⟩ := run_append_eq_some.mp h
    obtain rfl := some.inj (hu.symm.trans hv)
    by_contra hnot
    have hstart : I u ∧ ¬ P u := ⟨run_invariant hv hI hs, hnot⟩
    have hlost : I t ∧ ¬ P t := run_invariant (P := fun s => I s ∧ ¬ P s) hrest
      (fun s a t hs hlost => ⟨hI s a t hs hlost.1, fun ht => hlost.2 (hback s a t hlost.1 hs ht)⟩)
      hstart
    exact hlost.2 ht
  · exact fun hall => hall as t prefix_rfl h

/-- Execute a list of actions that a test allows. -/
def check (step : σ → α → Option σ) (test : σ → α → Bool) : σ → List α → Option σ
  | s, [] => some s
  | s, a :: as => if test s a then (step s a).bind fun t => check step test t as else none

theorem steps_of_check {test : σ → α → Bool} (h : check step test s as = some t)
    (htest : ∀ s a, test s a = true → ok s a) : Steps step ok s as t := by
  induction as generalizing s with
  | nil =>
    obtain rfl : s = t := by simpa [check] using h
    exact .refl s
  | cons a as ih =>
    by_cases ha : test s a = true
    · obtain ⟨v, hv, hr⟩ : ∃ v, step s a = some v ∧ check step test v as = some t := by
        simpa [check, ha, bind_eq_some_iff] using h
      exact .head (htest _ _ ha) hv (ih hr)
    · simp [check, ha] at h

/-- A run with an observer, who notes what each action does in the state it is taken in. -/
def watch {μ : Type*} (step : σ → α → Option σ) (note : μ → σ → α → μ) :
    σ × μ → α → Option (σ × μ) :=
  fun p a => (step p.1 a).map fun t => (t, note p.2 p.1 a)

section Watch

variable {μ : Type*} {note : μ → σ → α → μ} {p q : σ × μ} {okw : σ × μ → α → Prop}

theorem watch_eq_some : watch step note p a = some q ↔
    step p.1 a = some q.1 ∧ q.2 = note p.2 p.1 a := by
  obtain ⟨t, n⟩ := q
  simp only [watch, map_eq_some_iff, Prod.mk.injEq]
  constructor
  · rintro ⟨u, hu, rfl, rfl⟩
    exact ⟨hu, rfl⟩
  · rintro ⟨ht, rfl⟩
    exact ⟨t, ht, rfl, rfl⟩

theorem Steps.watch (h : Steps step ok s as t) (note : μ → σ → α → μ) (m : μ) :
    ∃ n, Steps (watch step note) (fun p a => ok p.1 a) (s, m) as (t, n) := by
  induction h generalizing m with
  | refl s => exact ⟨m, .refl _⟩
  | head ha hs _ ih =>
    obtain ⟨n, hn⟩ := ih (note m _ _)
    exact ⟨n, .head ha (watch_eq_some.mpr ⟨hs, rfl⟩) hn⟩

theorem Steps.unwatch (h : Steps (Transition.watch step note) okw p as q)
    (hok : ∀ p a, okw p a → ok p.1 a) : Steps step ok p.1 as q.1 := by
  induction h with
  | refl p => exact .refl p.1
  | head ha hs _ ih => exact .head (hok _ _ ha) (watch_eq_some.mp hs).1 ih

end Watch

/-- Some run of allowed steps leads from `s` to `t`. -/
def Leads (step : σ → α → Option σ) (ok : σ → α → Prop) (s t : σ) : Prop :=
  ∃ as, Steps step ok s as t

theorem Leads.refl (s : σ) : Leads step ok s s := ⟨[], .refl s⟩

theorem Leads.trans (h : Leads step ok s t) (h' : Leads step ok t u) : Leads step ok s u := by
  obtain ⟨as, h⟩ := h
  obtain ⟨bs, h'⟩ := h'
  exact ⟨as ++ bs, h.append h'⟩

theorem leads_of_step (ha : ok s a) (hs : step s a = some t) : Leads step ok s t :=
  ⟨[a], .head ha hs (.refl t)⟩

/-- Where each state allows one action at most, of two runs one goes on from the other. -/
theorem Leads.comparable (hdet : ∀ s a b, ok s a → ok s b → a = b) (h : Leads step ok s t)
    (h' : Leads step ok s u) : Leads step ok t u ∨ Leads step ok u t := by
  obtain ⟨as, h⟩ := h
  induction h with
  | refl => exact .inl h'
  | head ha hs hr ih =>
    obtain ⟨bs, h'⟩ := h'
    cases h' with
    | refl => exact .inr ⟨_, .head ha hs hr⟩
    | head hb hs' hr' =>
      obtain rfl := hdet _ _ _ ha hb
      obtain rfl := some.inj (hs.symm.trans hs')
      exact ih ⟨_, hr'⟩

end Transition
