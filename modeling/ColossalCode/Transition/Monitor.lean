import Mathlib.Data.List.Infix

/-! Monitors: they read the entries of a record one by one, and a rule says what may be recorded
next after what they have read. -/
namespace Transition

variable {ε μ : Type*} {s : μ} {e : ε} {es fs : List ε}

structure Monitor (ε μ : Type*) where
  next : μ → ε → μ
  rule : μ → ε → Prop

namespace Monitor

variable {m : Monitor ε μ}

/-- What the monitor knows once it has read some entries. -/
def after (m : Monitor ε μ) (s : μ) (es : List ε) : μ := es.foldl m.next s

/-- Every entry obeys the rule when it is read. -/
def Obeys (m : Monitor ε μ) : μ → List ε → Prop
  | _, [] => True
  | s, e :: es => m.rule s e ∧ m.Obeys (m.next s e) es

@[simp] theorem after_nil : m.after s [] = s := rfl

@[simp] theorem after_cons : m.after s (e :: es) = m.after (m.next s e) es := rfl

@[simp] theorem after_append : m.after s (es ++ fs) = m.after (m.after s es) fs :=
  List.foldl_append

@[simp] theorem obeys_nil : m.Obeys s [] := trivial

@[simp] theorem obeys_cons : m.Obeys s (e :: es) ↔ m.rule s e ∧ m.Obeys (m.next s e) es := .rfl

@[simp] theorem obeys_append :
    m.Obeys s (es ++ fs) ↔ m.Obeys s es ∧ m.Obeys (m.after s es) fs := by
  induction es generalizing s with
  | nil => simp
  | cons e es ih => simp [ih, and_assoc]

theorem Obeys.of_isPrefix (h : m.Obeys s fs) (hp : es <+: fs) : m.Obeys s es := by
  obtain ⟨rest, rfl⟩ := hp
  exact (obeys_append.mp h).1

/-- A record that obeys the rule does so at each of its entries. -/
theorem Obeys.rule_at {pre post : List ε} (h : m.Obeys s (pre ++ e :: post)) :
    m.rule (m.after s pre) e := (obeys_append.mp h).2.1

/-- Entries that the monitor has no use for and no rule about. -/
def Ignores (m : Monitor ε μ) (es : List ε) : Prop :=
  ∀ e ∈ es, ∀ s, m.next s e = s ∧ m.rule s e

@[simp] theorem ignores_nil : m.Ignores [] := fun _ he => absurd he List.not_mem_nil

theorem Ignores.cons (h : ∀ s, m.next s e = s ∧ m.rule s e) (h' : m.Ignores es) :
    m.Ignores (e :: es) := List.forall_mem_cons.mpr ⟨h, h'⟩

theorem Ignores.after_eq (h : m.Ignores es) : m.after s es = s := by
  induction es with
  | nil => rfl
  | cons e es ih =>
    obtain ⟨he, hes⟩ := List.forall_mem_cons.mp h
    rw [after_cons, (he s).1]
    exact ih hes

theorem Ignores.obeys (h : m.Ignores es) : m.Obeys s es := by
  induction es with
  | nil => trivial
  | cons e es ih =>
    obtain ⟨he, hes⟩ := List.forall_mem_cons.mp h
    refine ⟨(he s).2, ?_⟩
    rw [(he s).1]
    exact ih hes

theorem Ignores.append (h : m.Ignores es) (h' : m.Ignores fs) : m.Ignores (es ++ fs) :=
  List.forall_mem_append.mpr ⟨h, h'⟩

end Monitor

end Transition
