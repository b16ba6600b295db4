import Mathlib.Data.List.Basic
import Mathlib.Data.List.Infix

/-! The first occurrence of a part in a list, and what of it is known before the list has ended. -/
namespace Chunks
open List Option

variable {α : Type*} {part s t a b c : List α} {i j : ℕ}

variable [BEq α] [LawfulBEq α]

/-- Where the first occurrence of `part` starts. -/
def find (part : List α) : List α → Option ℕ
  | [] => if part.isEmpty then some 0 else none
  | x :: s => if part.isPrefixOf (x :: s) then some 0 else (find part s).map (· + 1)

theorem find_start (h : part <+: s) : find part s = some 0 := by
  cases s with
  | nil => simp [find, prefix_nil.mp h]
  | cons x s => simp [find, h]

theorem find_cons_skip {x : α} (h : ¬ part <+: x :: s) :
    find part (x :: s) = (find part s).map (· + 1) := by
  simp [find, h]

/-- An occurrence is where `find` says, and lies within the list. -/
theorem find_spec (h : find part s = some i) :
    part <+: s.drop i ∧ i + part.length ≤ s.length := by
  induction s generalizing i with
  | nil =>
    obtain ⟨rfl, rfl⟩ : part = [] ∧ 0 = i := by simpa [find] using h
    simp
  | cons x s ih =>
    by_cases hp : part <+: x :: s
    · rw [find_start hp] at h
      obtain rfl := some.inj h
      have hlength := hp.length_le
      exact ⟨hp, by omega⟩
    · rw [find_cons_skip hp, map_eq_some_iff] at h
      obtain ⟨j, hj, rfl⟩ := h
      obtain ⟨hdrop, hlength⟩ := ih hj
      refine ⟨hdrop, ?_⟩
      rw [length_cons]
      omega

/-- What `find` returns is the first occurrence. -/
theorem find_le (h : find part s = some i) (hj : part <+: s.drop j) (hle : j ≤ s.length) :
    i ≤ j := by
  induction s generalizing i j with
  | nil =>
    obtain ⟨-, rfl⟩ : part = [] ∧ 0 = i := by simpa [find] using h
    omega
  | cons x s ih =>
    by_cases hp : part <+: x :: s
    · rw [find_start hp] at h
      obtain rfl := some.inj h
      omega
    · rw [find_cons_skip hp, map_eq_some_iff] at h
      obtain ⟨k, hk, rfl⟩ := h
      cases j with
      | zero => exact absurd hj hp
      | succ j =>
        rw [length_cons] at hle
        have := ih hk hj (by omega)
        omega

theorem find_eq_none (h : find part s = none) : ¬ part <:+: s := by
  induction s with
  | nil =>
    rw [infix_nil]
    simpa [find] using h
  | cons x s ih =>
    by_cases hp : part <+: x :: s
    · simp [find_start hp] at h
    · rw [find_cons_skip hp, map_eq_none_iff] at h
      rw [infix_cons_iff, not_or]
      exact ⟨hp, ih h⟩

/-- An occurrence is found again in a longer list. -/
theorem find_append_of_some (h : find part s = some i) : find part (s ++ t) = some i := by
  induction s generalizing i with
  | nil =>
    obtain ⟨rfl, rfl⟩ : part = [] ∧ 0 = i := by simpa [find] using h
    exact find_start (by simp)
  | cons x s ih =>
    by_cases hp : part <+: x :: s
    · rw [find_start hp] at h
      rw [← h]
      exact find_start (hp.trans (prefix_append _ _))
    · have hlength := (find_spec h).2
      have hlonger : ¬ part <+: x :: (s ++ t) := fun hlong =>
        hp ((isPrefix_append_of_length (by omega)).mp hlong)
      rw [find_cons_skip hp, map_eq_some_iff] at h
      obtain ⟨j, hj, rfl⟩ := h
      rw [cons_append, find_cons_skip hlonger, ih hj]
      rfl

/-- Where nothing was found, an occurrence that comes up later ends later, so it starts in the last
characters, fewer than the part has. -/
theorem find_append_of_none (h : find part (a ++ b) = none) (hb : part.length ≤ b.length + 1) :
    find part (a ++ (b ++ c)) = (find part (b ++ c)).map (· + a.length) := by
  induction a with
  | nil => cases hfound : find part (b ++ c) <;> simp [hfound]
  | cons x a ih =>
    by_cases hp : part <+: x :: (a ++ b)
    · rw [List.cons_append, find_start hp] at h
      simp at h
    · have hlonger : ¬ part <+: x :: (a ++ (b ++ c)) := by
        intro hlong
        rw [← List.append_assoc, ← List.cons_append] at hlong
        refine hp ((isPrefix_append_of_length ?_).mp hlong)
        rw [List.length_cons, List.length_append]
        omega
      rw [List.cons_append, find_cons_skip hp, Option.map_eq_none_iff] at h
      rw [List.cons_append, find_cons_skip hlonger, ih h, Option.map_map]
      rfl

end Chunks

/-! A stream that arrives in chunks, and the rule for what does not depend on where it is cut. -/
namespace Chunks
open List Option

variable {α σ : Type*} {step : σ → List α → σ} {I : List α → σ → Prop} {s : σ} {c : List α}
  {chunks : List (List α)}

/-- The state after a stream has arrived in chunks. -/
def feed (step : σ → List α → σ) (s : σ) (chunks : List (List α)) : σ := chunks.foldl step s

@[simp] theorem feed_nil : feed step s [] = s := rfl

@[simp] theorem feed_cons : feed step s (c :: chunks) = feed step (step s c) chunks := rfl

/-- What ties a state to the stream so far, and is kept by every chunk, ties the last state to the
whole stream. -/
theorem feed_invariant (hstep : ∀ c d s, I c s → I (c ++ d) (step s d)) (hs : I c s)
    (chunks : List (List α)) : I (c ++ chunks.flatten) (feed step s chunks) := by
  induction chunks generalizing c s with
  | nil => simpa using hs
  | cons d chunks ih =>
    have htail := ih (hstep c d s hs)
    rw [flatten_cons, feed_cons, ← append_assoc]
    exact htail

end Chunks
