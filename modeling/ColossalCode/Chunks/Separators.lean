import ColossalCode.Chunks.Feed

/-! Framers take frames from a buffer that grows; what they take does not depend on what comes
later. -/
namespace Chunks
open List Option

variable {α β γ : Type*} {s t rest : List α} {frame : β} {n : ℕ}

/-- Takes the first frame from a buffer that holds all of it, and leaves what comes after. -/
@[ext] structure Framer (α β : Type*) where
  next : List α → Option (β × List α)
  shrinks : ∀ {s frame rest}, next s = some (frame, rest) → rest.length < s.length
  stable : ∀ {s frame rest} (t : List α), next s = some (frame, rest) →
    next (s ++ t) = some (frame, rest ++ t)

namespace Framer

variable (F : Framer α β)

/-- Frames are taken in at most `n` rounds. -/
def drainIn : ℕ → List α → List β × List α
  | 0, s => ([], s)
  | n + 1, s =>
    match F.next s with
    | none => ([], s)
    | some (frame, rest) => (frame :: (drainIn n rest).1, (drainIn n rest).2)

/-- Frames are taken until there is none. -/
def drain (s : List α) : List β × List α := F.drainIn s.length s

theorem next_nil : F.next [] = none := by
  cases h : F.next [] with
  | none => rfl
  | some taken => exact absurd (F.shrinks h) (Nat.not_lt_zero _)

/-- More rounds than the buffer has elements change nothing. -/
theorem drainIn_enough (h : s.length ≤ n) : F.drainIn n s = F.drain s := by
  suffices ∀ n m (s : List α), s.length ≤ n → s.length ≤ m → F.drainIn n s = F.drainIn m s from
    this n s.length s h (Nat.le_refl _)
  intro n
  induction n with
  | zero =>
    intro m s hn hm
    obtain rfl := length_eq_zero_iff.mp (Nat.le_zero.mp hn)
    cases m with
    | zero => rfl
    | succ m => simp [drainIn, next_nil]
  | succ n ih =>
    intro m s hn hm
    cases m with
    | zero =>
      obtain rfl := length_eq_zero_iff.mp (Nat.le_zero.mp hm)
      simp [drainIn, next_nil]
    | succ m =>
      unfold drainIn
      cases h : F.next s with
      | none => rfl
      | some taken =>
        have hlength := F.shrinks h
        simp only
        rw [ih m taken.2 (by omega) (by omega)]

theorem drain_none (h : F.next s = none) : F.drain s = ([], s) := by
  cases s with
  | nil => rfl
  | cons x s => simp [drain, drainIn, h]

theorem drain_some (h : F.next s = some (frame, rest)) :
    F.drain s = (frame :: (F.drain rest).1, (F.drain rest).2) := by
  have hlength := F.shrinks h
  cases s with
  | nil => exact absurd hlength (Nat.not_lt_zero _)
  | cons x s =>
    rw [length_cons] at hlength
    unfold drain
    rw [length_cons, drainIn, h]
    simp only
    rw [F.drainIn_enough (Nat.le_of_lt_succ hlength)]
    rfl

/-- A buffer is drained by draining its start first. -/
theorem drain_append (s t : List α) :
    F.drain (s ++ t) =
      ((F.drain s).1 ++ (F.drain ((F.drain s).2 ++ t)).1, (F.drain ((F.drain s).2 ++ t)).2) := by
  induction hn : s.length using Nat.strongRecOn generalizing s with
  | _ n ih =>
    cases h : F.next s with
    | none => simp [F.drain_none h]
    | some taken =>
      obtain ⟨frame, rest⟩ := taken
      rw [F.drain_some h, F.drain_some (F.stable t h), ih _ (hn ▸ F.shrinks h) rest rfl]
      simp

/-- What a function makes of each frame. -/
def map (f : β → γ) : Framer α γ where
  next s := (F.next s).map fun taken => (f taken.1, taken.2)
  shrinks h := by
    obtain ⟨taken, htaken, heq⟩ := map_eq_some_iff.mp h
    cases heq
    exact F.shrinks htaken
  stable t h := by
    obtain ⟨taken, htaken, heq⟩ := map_eq_some_iff.mp h
    cases heq
    rw [F.stable t htaken]
    rfl

theorem drain_map (f : β → γ) (s : List α) :
    (F.map f).drain s = ((F.drain s).1.map f, (F.drain s).2) := by
  induction hn : s.length using Nat.strongRecOn generalizing s with
  | _ n ih =>
    cases h : F.next s with
    | none =>
      have hmap : (F.map f).next s = none := by simp [map, h]
      rw [F.drain_none h, (F.map f).drain_none hmap]
      rfl
    | some taken =>
      have hmap : (F.map f).next s = some (f taken.1, taken.2) := by simp [map, h]
      rw [F.drain_some h, (F.map f).drain_some hmap, ih _ (hn ▸ F.shrinks h) taken.2 rfl]
      rfl

/-- A chunk is added to the buffer, and the buffer is drained. -/
def receive (state : List β × List α) (chunk : List α) : List β × List α :=
  (state.1 ++ (F.drain (state.2 ++ chunk)).1, (F.drain (state.2 ++ chunk)).2)

/-- The frames of a stream do not depend on where it is cut. -/
theorem feed_receive (chunks : List (List α)) :
    feed F.receive ([], []) chunks = F.drain chunks.flatten := by
  have hstep : ∀ s t state, state = F.drain s → F.receive state t = F.drain (s ++ t) := by
    intro s t state hstate
    rw [hstate, receive, ← F.drain_append]
  have hinit : ([], []) = F.drain [] := (F.drain_none F.next_nil).symm
  exact feed_invariant (I := fun s state => state = F.drain s) hstep hinit chunks

end Framer

end Chunks

/-! Frames that end with a separator. -/
namespace Chunks
open List Option

variable {α : Type*} {separators : List (List α)} {s rest front p : List α} {x : α}

/-- Separators none of which lies in another one short of its end: the one that starts first ends
first. -/
structure Separators (α : Type*) where
  all : List (List α)
  nonempty : ∀ p ∈ all, p ≠ []
  apart : ∀ p ∈ all, ∀ q ∈ all, ¬ q <:+: p.dropLast

/-- A separator that starts where another one starts, or later, does not end before it. -/
theorem Separators.length_le (seps : Separators α) {k : ℕ} {q : List α} (hp : p ∈ seps.all)
    (hq : q ∈ seps.all) (hs : p <+: s)
    (hlater : q <+: s.drop k) : p.length ≤ k + q.length := by
  by_contra hlt
  refine seps.apart p hp q hq ?_
  have hlast : p.dropLast <+: s := (List.dropLast_prefix p).trans hs
  have hfront : q <+: p.dropLast.drop k := by
    refine prefix_of_prefix_length_le hlater (hlast.drop k) ?_
    rw [length_drop, length_dropLast]
    omega
  exact hfront.isInfix.trans (drop_suffix k _).isInfix

variable [DecidableEq α]

/-- The separator that the buffer starts with. -/
def startsAt (separators : List (List α)) (s : List α) : Option (List α) :=
  separators.find? (·.isPrefixOf s)

/-- What stands before the first separator, that separator, and what comes after it. -/
def splitAtFirst (separators : List (List α)) : List α → Option ((List α × List α) × List α)
  | [] => none
  | x :: s =>
    match startsAt separators (x :: s) with
    | some p => some (([], p), (x :: s).drop p.length)
    | none => (splitAtFirst separators s).map fun found => ((x :: found.1.1, found.1.2), found.2)

theorem startsAt_spec (h : startsAt separators s = some p) : p ∈ separators ∧ p <+: s := by
  have hstart := find?_some h
  exact ⟨mem_of_find?_eq_some h, List.isPrefixOf_iff_prefix.mp hstart⟩

theorem splitAtFirst_here (h : startsAt separators (x :: s) = some p) :
    splitAtFirst separators (x :: s) = some (([], p), (x :: s).drop p.length) := by
  rw [splitAtFirst, h]

theorem splitAtFirst_later (h : startsAt separators (x :: s) = none) :
    splitAtFirst separators (x :: s) =
      (splitAtFirst separators s).map fun found => ((x :: found.1.1, found.1.2), found.2) := by
  rw [splitAtFirst, h]

/-- What is split off is put together again. -/
theorem splitAtFirst_spec (h : splitAtFirst separators s = some ((front, p), rest)) :
    p ∈ separators ∧ s = front ++ (p ++ rest) := by
  induction s generalizing front with
  | nil => cases h
  | cons x s ih =>
    cases hstart : startsAt separators (x :: s) with
    | some q =>
      rw [splitAtFirst_here hstart] at h
      cases h
      obtain ⟨hmem, hq⟩ := startsAt_spec hstart
      refine ⟨hmem, ?_⟩
      rw [nil_append]
      exact prefix_append_drop hq
    | none =>
      rw [splitAtFirst_later hstart, map_eq_some_iff] at h
      obtain ⟨⟨⟨front', q⟩, rest'⟩, hfound, heq⟩ := h
      cases heq
      obtain ⟨hmem, hs⟩ := ih hfound
      exact ⟨hmem, by rw [cons_append, ← hs]⟩

namespace Separators

variable (seps : Separators α)

theorem startsAt_iff : startsAt seps.all s = some p ↔ p ∈ seps.all ∧ p <+: s := by
  refine ⟨startsAt_spec, fun ⟨hmem, hp⟩ => ?_⟩
  cases hstart : startsAt seps.all s with
  | none =>
    have hnone := find?_eq_none.mp hstart p hmem
    exact absurd hp (by simpa using hnone)
  | some q =>
    obtain ⟨hq, hqs⟩ := startsAt_spec hstart
    have hpq := seps.length_le (k := 0) hmem hq hp hqs
    have hqp := seps.length_le (k := 0) hq hmem hqs hp
    have hpart := prefix_of_prefix_length_le hp hqs (by omega)
    rw [hpart.eq_of_length (by omega)]

theorem startsAt_eq_none : startsAt seps.all s = none ↔ ∀ p ∈ seps.all, ¬ p <+: s := by
  simp [startsAt]

/-- A separator that was found is found again in a longer buffer. -/
theorem splitAtFirst_append (t : List α)
    (h : splitAtFirst seps.all s = some ((front, p), rest)) :
    splitAtFirst seps.all (s ++ t) = some ((front, p), rest ++ t) := by
  induction s generalizing front with
  | nil => cases h
  | cons x s ih =>
    cases hstart : startsAt seps.all (x :: s) with
    | some q =>
      obtain ⟨hmem, hq⟩ := seps.startsAt_iff.mp hstart
      have hlonger : startsAt seps.all (x :: (s ++ t)) = some q :=
        seps.startsAt_iff.mpr ⟨hmem, hq.trans (prefix_append (x :: s) t)⟩
      rw [splitAtFirst_here hstart] at h
      cases h
      rw [cons_append, splitAtFirst_here hlonger, ← cons_append,
        drop_append_of_le_length hq.length_le]
    | none =>
      rw [splitAtFirst_later hstart, map_eq_some_iff] at h
      obtain ⟨⟨⟨front', q⟩, rest'⟩, hfound, heq⟩ := h
      cases heq
      obtain ⟨hmem, hs⟩ := splitAtFirst_spec hfound
      have hlonger : startsAt seps.all (x :: (s ++ t)) = none := by
        rw [seps.startsAt_eq_none] at hstart ⊢
        intro r hr hrs
        refine hstart r hr (prefix_of_prefix_length_le hrs (prefix_append (x :: s) t) ?_)
        have hlater : q <+: (x :: (s ++ t)).drop (front'.length + 1) := by
          rw [drop_succ_cons, hs, append_assoc, drop_left, append_assoc]
          exact prefix_append _ _
        have hle := seps.length_le hr hmem hrs hlater
        have hlength := congrArg List.length hs
        rw [length_append, length_append] at hlength
        rw [length_cons]
        omega
      rw [cons_append, splitAtFirst_later hlonger, ih hfound]
      rfl

theorem splitAtFirst_length (h : splitAtFirst seps.all s = some ((front, p), rest)) :
    rest.length < s.length := by
  obtain ⟨hmem, hs⟩ := splitAtFirst_spec h
  have hlength := congrArg List.length hs
  have hpos := length_pos_iff.mpr (seps.nonempty _ hmem)
  rw [length_append, length_append] at hlength
  omega

/-- The frames that end with a separator, each with its separator. -/
def framer : Framer α (List α × List α) where
  next := splitAtFirst seps.all
  shrinks := seps.splitAtFirst_length
  stable t h := seps.splitAtFirst_append t h

/-- Frames, separators and what is left make up the stream. -/
theorem drain_join (s : List α) :
    ((seps.framer.drain s).1.flatMap fun frame => frame.1 ++ frame.2) ++ (seps.framer.drain s).2 =
      s := by
  induction hn : s.length using Nat.strongRecOn generalizing s with
  | _ n ih =>
    cases h : seps.framer.next s with
    | none => rw [seps.framer.drain_none h, flatMap_nil, nil_append]
    | some taken =>
      obtain ⟨⟨front, p⟩, rest⟩ := taken
      have hs := (splitAtFirst_spec h).2
      have hrest := ih rest.length (hn ▸ seps.framer.shrinks h) rest rfl
      rw [seps.framer.drain_some h, flatMap_cons, append_assoc, hrest, append_assoc]
      exact hs.symm

end Separators

end Chunks
