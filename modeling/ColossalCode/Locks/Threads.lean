import Mathlib.Algebra.BigOperators.Group.Finset.Basic
import Mathlib.Algebra.Order.BigOperators.Group.Finset
import Mathlib.Data.Finset.Max
import Mathlib.Logic.Relation

/-! Threads that take and give back locks no one else may hold, each as its program says; an order
of the locks that all programs keep rules out deadlock. -/
namespace Locks
open Function List

variable {ι L : Type*}

inductive Action (L : Type*) where
  | acquire (l : L)
  | release (l : L)

/-- The locks a thread holds, and what it has still to do. -/
structure Thread (L : Type*) where
  held : List L
  rest : List (Action L)

def start (programs : ι → List (Action L)) : ι → Thread L := fun i => ⟨[], programs i⟩

section Moves

variable [DecidableEq ι] [DecidableEq L]

/-- One thread goes on. It never gets a lock that is held, were it by itself. -/
inductive Moves (s : ι → Thread L) : (ι → Thread L) → Prop
  | acquire {i : ι} {l : L} {rest : List (Action L)} : (s i).rest = .acquire l :: rest →
      (∀ j, l ∉ (s j).held) → Moves s (update s i ⟨l :: (s i).held, rest⟩)
  | release {i : ι} {l : L} {rest : List (Action L)} : (s i).rest = .release l :: rest →
      Moves s (update s i ⟨(s i).held.erase l, rest⟩)

def Reaches : (ι → Thread L) → (ι → Thread L) → Prop := Relation.ReflTransGen Moves

end Moves

/-- The thread `i` cannot go on before `j` gives back a lock. -/
def WaitsFor (s : ι → Thread L) (i j : ι) : Prop :=
  ∃ l rest, (s i).rest = .acquire l :: rest ∧ l ∈ (s j).held

/-- No threads ever wait for each other in a circle. -/
def DeadlockFree [DecidableEq ι] [DecidableEq L] (s : ι → Thread L) : Prop :=
  ∀ t, Reaches s t → ∀ i, ¬ Relation.TransGen (WaitsFor t) i i

/-- Whatever has happened, all threads can be brought to their end. -/
def CanFinish [DecidableEq ι] [DecidableEq L] (s : ι → Thread L) : Prop :=
  ∀ t, Reaches s t → ∃ u, Reaches t u ∧ ∀ i, (u i).rest = []

section Ordered

variable [DecidableEq L] {r : L → Nat} {held : List L} {l : L} {p q rest : List (Action L)}

/-- Each lock that is taken ranks above those that are held, and in the end none is held. -/
def Ordered (r : L → Nat) : List L → List (Action L) → Prop
  | held, [] => held = []
  | held, .acquire l :: rest => (∀ k ∈ held, r k < r l) ∧ Ordered r (l :: held) rest
  | held, .release l :: rest => Ordered r (held.erase l) rest

/-- A part of a program that gives back what it takes, in order. -/
def Part (r : L → Nat) (held : List L) (p : List (Action L)) : Prop :=
  ∀ rest, Ordered r held rest → Ordered r held (p ++ rest)

theorem Part.ordered (h : Part r [] p) : Ordered r [] p := by
  have hwhole := h [] rfl
  rwa [append_nil] at hwhole

theorem part_nil : Part r held [] := fun _ h => h

theorem Part.append (hp : Part r held p) (hq : Part r held q) : Part r held (p ++ q) := by
  intro rest h
  rw [append_assoc]
  exact hp _ (hq _ h)

theorem part_flatMap {α : Type*} {f : α → List (Action L)} {as : List α}
    (h : ∀ a ∈ as, Part r held (f a)) : Part r held (as.flatMap f) := by
  induction as with
  | nil => exact part_nil
  | cons a as ih =>
    rw [flatMap_cons]
    exact (h a mem_cons_self).append (ih fun b hb => h b (mem_cons_of_mem _ hb))

/-- The lock `l` is never asked for by the one who holds it. -/
def NeverReenters (l : L) : List L → List (Action L) → Prop
  | _, [] => True
  | held, .acquire k :: rest => (k = l → l ∉ held) ∧ NeverReenters l (k :: held) rest
  | held, .release k :: rest => NeverReenters l (held.erase k) rest

instance decidableNeverReenters (l : L) :
    (held : List L) → (p : List (Action L)) → Decidable (NeverReenters l held p)
  | _, [] => .isTrue trivial
  | held, .acquire k :: rest =>
    have := decidableNeverReenters l (k :: held) rest
    inferInstanceAs (Decidable ((k = l → l ∉ held) ∧ NeverReenters l (k :: held) rest))
  | held, .release k :: rest => decidableNeverReenters l (held.erase k) rest

theorem neverReenters_releases (l : L) (held ks : List L) :
    NeverReenters l held (ks.map .release) := by
  induction ks generalizing held with
  | nil => trivial
  | cons k ks ih => exact ih (held.erase k)

/-- What is done while a lock is held. -/
def within (l : L) (p : List (Action L)) : List (Action L) := .acquire l :: (p ++ [.release l])

theorem Part.within (hl : ∀ k ∈ held, r k < r l) (hp : Part r (l :: held) p) :
    Part r held (within l p) := by
  intro rest h
  have hrest : Ordered r (l :: held) (.release l :: rest) := by
    rw [Ordered, erase_cons_head]
    exact h
  have hwhole : Locks.within l p ++ rest = .acquire l :: (p ++ .release l :: rest) := by
    simp [Locks.within]
  rw [hwhole]
  exact ⟨hl, hp _ hrest⟩

end Ordered

/-- What all threads together have still to do. -/
def remaining [Fintype ι] (s : ι → Thread L) : Nat := ∑ i, (s i).rest.length

/-- Every thread keeps the order. -/
def AllOrdered [DecidableEq L] (r : L → Nat) (s : ι → Thread L) : Prop :=
  ∀ i, Ordered r (s i).held (s i).rest

section Waiting

variable [DecidableEq L] {r : L → Nat} {s : ι → Thread L}

theorem start_ordered {programs : ι → List (Action L)} (h : ∀ i, Ordered r [] (programs i)) :
    AllOrdered r (start programs) := h

/-- Along a chain of waiting threads the locks they wait for rank higher and higher. -/
theorem AllOrdered.chain (h : AllOrdered r s) {i j : ι} (hij : Relation.TransGen (WaitsFor s) i j)
    {l : L} {rest : List (Action L)} (hi : (s i).rest = .acquire l :: rest) :
    ∃ l' ∈ (s j).held, r l ≤ r l' := by
  induction hij with
  | single hwait =>
    obtain ⟨l', rest', heq, hheld⟩ := hwait
    obtain ⟨hl, -⟩ := List.cons.inj (hi.symm.trans heq)
    cases hl
    exact ⟨l, hheld, le_rfl⟩
  | @tail j k _ hwait ih =>
    obtain ⟨lj, hlj, hle⟩ := ih
    obtain ⟨l', rest', hj, hheld⟩ := hwait
    have hordered := h j
    rw [hj] at hordered
    exact ⟨l', hheld, hle.trans (hordered.1 lj hlj).le⟩

theorem AllOrdered.no_circle (h : AllOrdered r s) (i : ι) :
    ¬ Relation.TransGen (WaitsFor s) i i := by
  intro hcircle
  obtain ⟨j, ⟨l, rest, hi, -⟩, -⟩ := Relation.TransGen.head'_iff.mp hcircle
  obtain ⟨l', hl', hle⟩ := h.chain hcircle hi
  have hordered := h i
  rw [hi] at hordered
  exact absurd (hordered.1 l' hl') (Nat.not_lt.mpr hle)

/-- A thread that holds a lock is not at its end. -/
theorem AllOrdered.holder (h : AllOrdered r s) {j : ι} {l : L} (hl : l ∈ (s j).held) :
    (s j).rest ≠ [] := by
  intro hrest
  have hordered := h j
  rw [hrest, Ordered] at hordered
  rw [hordered] at hl
  exact not_mem_nil hl

end Waiting

section Order

variable [DecidableEq ι] [DecidableEq L] {r : L → Nat} {s t : ι → Thread L}

theorem AllOrdered.moves (h : AllOrdered r s) (hst : Moves s t) : AllOrdered r t := by
  intro j
  cases hst with
  | @acquire i l rest hi _ =>
    by_cases hj : j = i
    · subst hj
      have hnext := h j
      rw [hi] at hnext
      rw [update_self]
      exact hnext.2
    · rw [update_of_ne hj]
      exact h j
  | @release i l rest hi =>
    by_cases hj : j = i
    · subst hj
      have hnext := h j
      rw [hi] at hnext
      rw [update_self]
      exact hnext
    · rw [update_of_ne hj]
      exact h j

theorem AllOrdered.reaches (h : AllOrdered r s) (hst : Reaches s t) : AllOrdered r t := by
  induction hst with
  | refl => exact h
  | tail _ hmove ih => exact ih.moves hmove

theorem AllOrdered.deadlockFree (h : AllOrdered r s) : DeadlockFree s :=
  fun _ hst => (h.reaches hst).no_circle

/-- The rank of the lock a thread is about to take. -/
def nextRank (r : L → Nat) (thread : Thread L) : Nat :=
  match thread.rest with
  | .acquire l :: _ => r l
  | _ => 0

variable [Fintype ι]

omit [DecidableEq L] in
theorem remaining_update {i : ι} {thread : Thread L}
    (h : thread.rest.length < (s i).rest.length) :
    remaining (update s i thread) < remaining s := by
  refine Finset.sum_lt_sum (fun j _ => ?_) ⟨i, Finset.mem_univ i, ?_⟩
  · by_cases hj : j = i
    · subst hj
      rw [update_self]
      exact h.le
    · rw [update_of_ne hj]
  · rw [update_self]
    exact h

/-- The thread that is about to take the highest lock can go on. -/
theorem AllOrdered.progress (h : AllOrdered r s) {i : ι} (hi : (s i).rest ≠ []) :
    ∃ t, Moves s t ∧ remaining t < remaining s := by
  by_cases hrelease : ∃ j l rest, (s j).rest = .release l :: rest
  · obtain ⟨j, l, rest, hj⟩ := hrelease
    exact ⟨_, .release hj, remaining_update (by simp [hj])⟩
  have hacquire : ∀ j, (s j).rest ≠ [] → ∃ l rest, (s j).rest = .acquire l :: rest := by
    intro j hj
    cases hrest : (s j).rest with
    | nil => exact absurd hrest hj
    | cons action rest =>
      cases action with
      | acquire l => exact ⟨l, rest, rfl⟩
      | release l => exact absurd ⟨j, l, rest, hrest⟩ hrelease
  obtain ⟨j, hj, hmax⟩ := (Finset.univ.filter fun j => (s j).rest ≠ []).exists_max_image
    (fun j => nextRank r (s j)) ⟨i, by simp [hi]⟩
  obtain ⟨l, rest, hl⟩ := hacquire j (by simpa using hj)
  refine ⟨_, .acquire hl fun k hk => ?_, remaining_update (by simp [hl])⟩
  have hkrest := h.holder hk
  obtain ⟨l', rest', hl'⟩ := hacquire k hkrest
  have hle := hmax k (by simp [hkrest])
  have hordered := h k
  rw [hl'] at hordered
  have hlt := hordered.1 l hk
  simp only [nextRank, hl, hl'] at hle
  omega

theorem AllOrdered.finish (h : AllOrdered r s) : ∃ t, Reaches s t ∧ ∀ i, (t i).rest = [] := by
  induction hn : remaining s using Nat.strong_induction_on generalizing s with
  | _ n ih =>
    by_cases hend : ∀ i, (s i).rest = []
    · exact ⟨s, .refl, hend⟩
    · obtain ⟨i, hi⟩ := not_forall.mp hend
      obtain ⟨t, hst, hlt⟩ := h.progress hi
      obtain ⟨u, htu, hu⟩ := ih _ (hn ▸ hlt) (h.moves hst) rfl
      exact ⟨u, .head hst htu, hu⟩

theorem AllOrdered.canFinish (h : AllOrdered r s) : CanFinish s :=
  fun _ hst => (h.reaches hst).finish

end Order

end Locks

/-! How threads come to wait for each other in a circle. -/
namespace Locks
open Function List

variable {ι L : Type*} [DecidableEq L] {p q rest rest' : List (Action L)} {taken held : List L}

/-- The locks held after a part of a program. -/
def heldAfter : List L → List (Action L) → List L
  | held, [] => held
  | held, .acquire l :: p => heldAfter (l :: held) p
  | held, .release l :: p => heldAfter (held.erase l) p

/-- A part of a program that nothing stops where others hold the locks `taken`. -/
def Free (taken : List L) : List L → List (Action L) → Prop
  | _, [] => True
  | held, .acquire l :: p => l ∉ held ∧ l ∉ taken ∧ Free taken (l :: held) p
  | held, .release l :: p => Free taken (held.erase l) p

variable [DecidableEq ι] {s : ι → Thread L} {i j : ι}

theorem reaches_part (taken : List L) (hi : (s i).rest = p ++ rest)
    (hothers : ∀ j, j ≠ i → ∀ l ∈ (s j).held, l ∈ taken) (hp : Free taken (s i).held p) :
    Reaches s (update s i ⟨heldAfter (s i).held p, rest⟩) := by
  induction p generalizing s with
  | nil =>
    have hsame : update s i ⟨(s i).held, rest⟩ = s := by
      rw [update_eq_self_iff, ← nil_append rest, ← hi]
    rw [heldAfter, hsame]
    exact .refl
  | cons action p ih =>
    rw [cons_append] at hi
    have hnext : ∀ held', (∀ j, j ≠ i → ∀ l ∈ (update s i ⟨held', p ++ rest⟩ j).held,
        l ∈ taken) := by
      intro held' j hj
      rw [update_of_ne hj]
      exact hothers j hj
    cases action with
    | acquire l =>
      obtain ⟨hself, htaken, hfree⟩ := hp
      have hmove := Moves.acquire hi fun j => by
        by_cases hj : j = i
        · exact hj ▸ hself
        · exact fun hl => htaken (hothers j hj l hl)
      have hrest := ih (s := update s i ⟨l :: (s i).held, p ++ rest⟩) (by simp)
        (hnext _) (by simpa using hfree)
      rw [update_self, update_idem] at hrest
      exact .head hmove hrest
    | release l =>
      have hmove := Moves.release hi
      have hrest := ih (s := update s i ⟨(s i).held.erase l, p ++ rest⟩) (by simp)
        (hnext _) (by rw [update_self]; exact hp)
      rw [update_self, update_idem] at hrest
      exact .head hmove hrest

variable {programs : ι → List (Action L)} {a b : L}

/-- A thread that asks for a lock it holds. -/
theorem circle_of_one (hi : programs i = p ++ .acquire a :: rest) (hp : Free [] [] p)
    (ha : a ∈ heldAfter [] p) : ¬ DeadlockFree (start programs) := by
  intro hfree
  have hreach := reaches_part (s := start programs) [] hi (fun _ _ l hl => hl) hp
  refine hfree _ hreach i (.single ⟨a, rest, ?_, ?_⟩)
  · rw [update_self]
  · rw [update_self]
    exact ha

/-- Two threads that each ask for a lock the other holds. -/
theorem circle_of_two (hij : i ≠ j) (hi : programs i = p ++ .acquire b :: rest)
    (hj : programs j = q ++ .acquire a :: rest') (hp : Free [] [] p)
    (hq : Free (heldAfter [] p) [] q) (ha : a ∈ heldAfter [] p) (hb : b ∈ heldAfter [] q) :
    ¬ DeadlockFree (start programs) := by
  intro hfree
  have hfirst := reaches_part (s := start programs) [] hi (fun _ _ l hl => hl) hp
  have hrest : (update (start programs) i ⟨heldAfter [] p, .acquire b :: rest⟩ j).rest =
      q ++ .acquire a :: rest' := by
    rw [update_of_ne hij.symm]
    exact hj
  have hsecond := reaches_part (heldAfter [] p) hrest ?_ ?_
  · have hwait : WaitsFor (update (update (start programs) i
        ⟨heldAfter [] p, .acquire b :: rest⟩) j ⟨heldAfter [] q, .acquire a :: rest'⟩) i j := by
      refine ⟨b, rest, ?_, ?_⟩
      · rw [update_of_ne hij, update_self]
      · rw [update_self]
        exact hb
    have hback : WaitsFor (update (update (start programs) i
        ⟨heldAfter [] p, .acquire b :: rest⟩) j ⟨heldAfter [] q, .acquire a :: rest'⟩) j i := by
      refine ⟨a, rest', ?_, ?_⟩
      · rw [update_self]
      · rw [update_of_ne hij, update_self]
        exact ha
    rw [update_of_ne hij.symm] at hsecond
    exact hfree _ (hfirst.trans hsecond) i (.head hwait (.single hback))
  · intro k hk l hl
    by_cases hki : k = i
    · subst hki
      rwa [update_self] at hl
    · rw [update_of_ne hki] at hl
      exact absurd hl not_mem_nil
  · rw [update_of_ne hij.symm]
    exact hq

end Locks
