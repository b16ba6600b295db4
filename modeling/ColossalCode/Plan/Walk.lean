import Mathlib.Data.List.Basic

/-! The recursive walk of a plan whose steps may put further plans before or after themselves. -/
namespace Plan

variable {π σ ε : Type*}

/-- What the execution of a step leads to. -/
inductive Outcome (σ : Type*) where
  /-- Walk `child` below the step, then execute `back` in the step's place. -/
  | split (child : List σ) (back : σ)
  /-- Walk `child` below the step, if there is one, then go on with the steps after it. -/
  | advance (child : Option (List σ))
  | again (step : σ)
  /-- Leave the list of steps that this one is in. -/
  | leave

/-- How places are composed, how a step is started, and what its `n`-th execution leads to. -/
structure Rules (π σ : Type*) where
  enter : π → σ → π
  start : σ → σ
  outcome : ℕ → σ → Outcome σ

/-- The executions of a walk, and whether it came to its end. -/
structure Walk (ε : Type*) where
  trace : List ε
  ends : Bool

namespace Walk

def cons (e : ε) (w : Walk ε) : Walk ε := ⟨e :: w.trace, w.ends⟩

/-- Go on with `next`, which is told how many executions there were, once `w` has ended. -/
def andThen (w : Walk ε) (next : ℕ → Walk ε) : Walk ε :=
  if w.ends then ⟨w.trace ++ (next w.trace.length).trace, (next w.trace.length).ends⟩ else w

@[simp] theorem cons_trace (e : ε) (w : Walk ε) : (w.cons e).trace = e :: w.trace := rfl

@[simp] theorem cons_ends (e : ε) (w : Walk ε) : (w.cons e).ends = w.ends := rfl

variable {w : Walk ε}

theorem andThen_of_ends (next : ℕ → Walk ε) (h : w.ends = true) : w.andThen next =
    ⟨w.trace ++ (next w.trace.length).trace, (next w.trace.length).ends⟩ := by
  simp [andThen, h]

theorem andThen_of_not_ends (next : ℕ → Walk ε) (h : w.ends = false) :
    w.andThen next = w := by
  simp [andThen, h]

theorem length_le_andThen (w : Walk ε) (next : ℕ → Walk ε) :
    w.trace.length ≤ (w.andThen next).trace.length := by
  cases h : w.ends with
  | true => simp [andThen_of_ends next h]
  | false => simp [andThen_of_not_ends next h]

theorem andThen_congr {next next' : ℕ → Walk ε}
    (h : w.ends = true → next' w.trace.length = next w.trace.length) :
    w.andThen next' = w.andThen next := by
  cases he : w.ends with
  | true => rw [andThen_of_ends _ he, andThen_of_ends _ he, h he]
  | false => rw [andThen_of_not_ends _ he, andThen_of_not_ends _ he]

end Walk

/-- What comes after an execution, where `go` walks lists of steps: `here` is the place of the
step that was executed, `p` the one its list is at, with `rest` after it. -/
def Outcome.walk (go : π → List σ → ℕ → Walk ε) (here p : π) (rest : List σ) (n : ℕ) :
    Outcome σ → Walk ε
  | .split child back => (go here child n).andThen fun k => go p (back :: rest) (n + k)
  | .advance (some child) => (go here child n).andThen fun k => go p rest (n + k)
  | .advance none => go p rest n
  | .again step => go p (step :: rest) n
  | .leave => ⟨[], true⟩

/-- Walk the steps of a list below the place `p`, after `n` executions. The fuel bounds the depth
of the recursion. -/
def walk (rules : Rules π σ) : ℕ → π → List σ → ℕ → Walk (π × σ)
  | 0, _, _, _ => ⟨[], false⟩
  | _ + 1, _, [], _ => ⟨[], true⟩
  | fuel + 1, p, step :: rest, n =>
    let here := rules.enter p step
    let started := rules.start step
    .cons (here, started) <|
      (rules.outcome n started).walk (walk rules fuel) here p rest (n + 1)

variable {rules : Rules π σ}

theorem walk_cons (fuel : ℕ) (p : π) (step : σ) (rest : List σ) (n : ℕ) :
    walk rules (fuel + 1) p (step :: rest) n =
      .cons (rules.enter p step, rules.start step) ((rules.outcome n (rules.start step)).walk
        (walk rules fuel) (rules.enter p step) p rest (n + 1)) := rfl

variable {fuel n : ℕ} {next : ℕ → Walk ε} {go go' : π → List σ → ℕ → Walk ε} {here p : π}
  {rest steps : List σ} {parts : List (π × List σ)} {rules' : Rules π σ}

theorem Walk.fuel_le_andThen {w : Walk ε} (hw : w.ends = false → fuel ≤ w.trace.length)
    (hnext : ∀ n, (next n).ends = false → fuel ≤ (next n).trace.length)
    (h : (w.andThen next).ends = false) : fuel ≤ (w.andThen next).trace.length := by
  cases he : w.ends with
  | true =>
    rw [andThen_of_ends next he] at h ⊢
    have := hnext _ h
    rw [List.length_append]
    omega
  | false =>
    rw [andThen_of_not_ends next he]
    exact hw he

theorem Outcome.fuel_le_walk
    (hgo : ∀ p steps n, (go p steps n).ends = false → fuel ≤ (go p steps n).trace.length)
    (o : Outcome σ) (h : (o.walk go here p rest n).ends = false) :
    fuel ≤ (o.walk go here p rest n).trace.length := by
  match o, h with
  | .split child back, h => exact Walk.fuel_le_andThen (hgo _ _ _) (fun _ => hgo _ _ _) h
  | .advance (some child), h => exact Walk.fuel_le_andThen (hgo _ _ _) (fun _ => hgo _ _ _) h
  | .advance none, h => exact hgo _ _ _ h
  | .again step, h => exact hgo _ _ _ h

/-- A walk that runs out of fuel has executed a step for each unit of it. -/
theorem fuel_le_length (h : (walk rules fuel p steps n).ends = false) :
    fuel ≤ (walk rules fuel p steps n).trace.length := by
  induction fuel generalizing p steps n with
  | zero => exact Nat.zero_le _
  | succ fuel ih =>
    cases steps with
    | nil => simp [walk] at h
    | cons step rest =>
      rw [walk_cons] at h ⊢
      rw [Walk.cons_trace, List.length_cons]
      apply Nat.succ_le_succ
      exact Outcome.fuel_le_walk (fun _ _ _ => ih) _ h

/-- Walk several lists of steps one after the other. -/
def walkAll (rules : Rules π σ) (fuel : ℕ) : List (π × List σ) → ℕ → Walk (π × σ)
  | [], _ => ⟨[], true⟩
  | (p, steps) :: rest, n =>
    (walk rules fuel p steps n).andThen fun k => walkAll rules fuel rest (n + k)

theorem fuel_le_length_all (h : (walkAll rules fuel parts n).ends = false) :
    fuel ≤ (walkAll rules fuel parts n).trace.length := by
  induction parts generalizing n with
  | nil => simp [walkAll] at h
  | cons part rest ih => exact Walk.fuel_le_andThen (fun h => fuel_le_length h) (fun _ => ih) h

theorem Walk.mem_andThen {e : ε} {w : Walk ε}
    (h : e ∈ (w.andThen next).trace) : e ∈ w.trace ∨ e ∈ (next w.trace.length).trace := by
  cases he : w.ends with
  | true =>
    rw [andThen_of_ends _ he] at h
    exact List.mem_append.mp h
  | false =>
    rw [andThen_of_not_ends _ he] at h
    exact .inl h

theorem Outcome.mem_walk {e : ε} (o : Outcome σ) (h : e ∈ (o.walk go here p rest n).trace) :
    ∃ q steps m, (q = here ∨ q = p) ∧ e ∈ (go q steps m).trace := by
  match o, h with
  | .split child back, h =>
    rcases Walk.mem_andThen h with h | h
    · exact ⟨here, _, _, .inl rfl, h⟩
    · exact ⟨p, _, _, .inr rfl, h⟩
  | .advance (some child), h =>
    rcases Walk.mem_andThen h with h | h
    · exact ⟨here, _, _, .inl rfl, h⟩
    · exact ⟨p, _, _, .inr rfl, h⟩
  | .advance none, h => exact ⟨p, _, _, .inr rfl, h⟩
  | .again step, h => exact ⟨p, _, _, .inr rfl, h⟩

/-- A walk from `p` stays where every step entered from `p` on is. -/
theorem walk_places {inside : π → Prop}
    (hclosed : ∀ q step step', inside (rules.enter q step) →
      inside (rules.enter (rules.enter q step) step'))
    (hp : ∀ step, inside (rules.enter p step)) :
    ∀ e ∈ (walk rules fuel p steps n).trace, inside e.1 := by
  induction fuel generalizing p steps n with
  | zero => simp [walk]
  | succ fuel ih =>
    cases steps with
    | nil => simp [walk]
    | cons step rest =>
      intro e he
      rw [walk_cons, Walk.cons_trace, List.mem_cons] at he
      rcases he with rfl | he
      · exact hp step
      · obtain ⟨q, steps, m, hq, he⟩ := Outcome.mem_walk _ he
        refine ih ?_ e he
        rcases hq with rfl | rfl
        · exact fun step' => hclosed p step step' (hp step)
        · exact hp

/-- The rules with the first `d` executions left out. -/
def Rules.after (rules : Rules π σ) (d : ℕ) : Rules π σ :=
  { rules with outcome := fun n => rules.outcome (n + d) }

theorem Outcome.walk_congr {agree : ℕ → Prop}
    (hgo : ∀ p steps n, (∀ i, n ≤ i → i < n + (go p steps n).trace.length → agree i) →
      go' p steps n = go p steps n) (o : Outcome σ)
    (h : ∀ i, n ≤ i → i < n + (o.walk go here p rest n).trace.length → agree i) :
    o.walk go' here p rest n = o.walk go here p rest n := by
  have hthen : ∀ (child later : List σ),
      (∀ i, n ≤ i → i < n + ((go here child n).andThen fun k =>
        go p later (n + k)).trace.length → agree i) →
      ((go' here child n).andThen fun k => go' p later (n + k)) =
        (go here child n).andThen fun k => go p later (n + k) := by
    intro child later h
    have hle := (go here child n).length_le_andThen fun k => go p later (n + k)
    rw [hgo here child n fun i hi hlt => h i hi (by omega)]
    refine Walk.andThen_congr fun he => hgo _ _ _ fun i hi hlt => h i (by omega) ?_
    rw [Walk.andThen_of_ends _ he, List.length_append]
    omega
  match o, h with
  | .split child back, h => exact hthen child (back :: rest) h
  | .advance (some child), h => exact hthen child rest h
  | .advance none, h => exact hgo _ _ _ h
  | .again step, h => exact hgo _ _ _ h
  | .leave, _ => rfl

/-- A walk depends on the outcomes of its own executions only. -/
theorem walk_congr (henter : rules'.enter = rules.enter) (hstart : rules'.start = rules.start)
    (h : ∀ i, n ≤ i → i < n + (walk rules fuel p steps n).trace.length →
      rules'.outcome i = rules.outcome i) :
    walk rules' fuel p steps n = walk rules fuel p steps n := by
  induction fuel generalizing p steps n with
  | zero => rfl
  | succ fuel ih =>
    cases steps with
    | nil => rfl
    | cons step rest =>
      rw [walk_cons, Walk.cons_trace, List.length_cons] at h
      rw [walk_cons, walk_cons, henter, hstart, h n (Nat.le_refl n) (by omega)]
      congr 1
      have hgo : ∀ p steps n, (∀ i, n ≤ i → i < n + (walk rules fuel p steps n).trace.length →
          rules'.outcome i = rules.outcome i) →
          walk rules' fuel p steps n = walk rules fuel p steps n := fun _ _ _ => ih
      exact Outcome.walk_congr hgo _ fun i hi hlt => h i (by omega) (by omega)

theorem walkAll_congr (henter : rules'.enter = rules.enter) (hstart : rules'.start = rules.start)
    (h : ∀ i, n ≤ i → rules'.outcome i = rules.outcome i) :
    walkAll rules' fuel parts n = walkAll rules fuel parts n := by
  induction parts generalizing n with
  | nil => rfl
  | cons part rest ih =>
    simp only [walkAll]
    rw [walk_congr henter hstart fun i hi _ => h i hi]
    exact Walk.andThen_congr fun _ => ih fun i hi => h i (by omega)

theorem Outcome.walk_shift {d : ℕ}
    (hgo : ∀ p steps n, go p steps (n + d) = go' p steps n) (here p : π) (rest : List σ) (n : ℕ)
    (o : Outcome σ) : o.walk go here p rest (n + d) = o.walk go' here p rest n := by
  have hshift : ∀ p steps k, go p steps (n + d + k) = go' p steps (n + k) := by
    intro p steps k
    rw [Nat.add_right_comm]
    exact hgo p steps (n + k)
  match o with
  | .split child back => simp only [Outcome.walk, hgo, hshift]
  | .advance (some child) => simp only [Outcome.walk, hgo, hshift]
  | .advance none => exact hgo p rest n
  | .again step => exact hgo p (step :: rest) n
  | .leave => rfl

theorem walk_shift (rules : Rules π σ) (fuel : ℕ) (p : π) (steps : List σ) (n d : ℕ) :
    walk rules fuel p steps (n + d) = walk (rules.after d) fuel p steps n := by
  induction fuel generalizing p steps n with
  | zero => rfl
  | succ fuel ih =>
    cases steps with
    | nil => rfl
    | cons step rest =>
      rw [walk_cons, walk_cons]
      have hgo : ∀ p steps n,
          walk rules fuel p steps (n + d) = walk (rules.after d) fuel p steps n := ih
      have hrest := Outcome.walk_shift hgo (rules.enter p step) p rest (n + 1)
        (rules.outcome (n + d) (rules.start step))
      rw [Nat.add_right_comm] at hrest
      rw [hrest]
      rfl

theorem walkAll_shift (rules : Rules π σ) (fuel : ℕ) (parts : List (π × List σ)) (n d : ℕ) :
    walkAll rules fuel parts (n + d) = walkAll (rules.after d) fuel parts n := by
  induction parts generalizing n with
  | nil => rfl
  | cons part rest ih =>
    simp only [walkAll, walk_shift rules fuel part.1 part.2 n d]
    congr 1
    funext k
    rw [Nat.add_right_comm]
    exact ih (n + k)

/-- Where every step is just accepted or fails, each is executed once. -/
theorem walk_once (hfuel : steps.length < fuel)
    (h : ∀ i < steps.length, ∀ step, rules.outcome (n + i) step = .advance none) :
    walk rules fuel p steps n =
      ⟨steps.map fun step => (rules.enter p step, rules.start step), true⟩ := by
  induction steps generalizing fuel n with
  | nil =>
    obtain ⟨fuel, rfl⟩ := Nat.exists_eq_add_one_of_ne_zero (Nat.ne_of_gt hfuel)
    rfl
  | cons step rest ih =>
    obtain ⟨fuel, rfl⟩ := Nat.exists_eq_add_one_of_ne_zero (Nat.ne_of_gt (Nat.zero_lt_of_lt hfuel))
    have hfirst := h 0 (Nat.zero_lt_succ _) (rules.start step)
    have hlater : ∀ i < rest.length, ∀ step, rules.outcome (n + 1 + i) step = .advance none := by
      intro i hi step
      rw [Nat.add_assoc, Nat.add_comm 1 i]
      exact h (i + 1) (by simpa using hi) step
    have hrest : walk rules fuel p rest (n + 1) = ⟨rest.map fun step =>
        (rules.enter p step, rules.start step), true⟩ := ih (by simpa using hfuel) hlater
    simp only [Nat.add_zero] at hfirst
    simp [walk, hfirst, Outcome.walk, hrest, Walk.cons]

end Plan
