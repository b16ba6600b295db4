import Mathlib.Data.List.Basic

/-! Keyed brackets: each note carries a key and a value; one value opens a key, the others close
it. -/
namespace Transition

variable {κ α : Type*} [DecidableEq κ] {opening a : α} {as : List α} {k q : κ}
  {keys keys' : List κ} {notes notes' : List (κ × α)}

/-- Each opening value is followed by one closing value. -/
inductive Bracketed (opening : α) : List α → Prop
  | nil : Bracketed opening []
  | cons {a : α} {rest : List α} (ha : a ≠ opening) (hrest : Bracketed opening rest) :
      Bracketed opening (opening :: a :: rest)

theorem Bracketed.close (h : Bracketed opening as) (ha : a ≠ opening) :
    Bracketed opening (as ++ [opening, a]) := by
  induction h with
  | nil => exact .cons ha .nil
  | cons hb _ ih => exact .cons hb ih

/-- The values noted with a key. -/
def notesOf (k : κ) (notes : List (κ × α)) : List α :=
  notes.filterMap fun note => if note.1 = k then some note.2 else none

@[simp] theorem notesOf_nil : notesOf k ([] : List (κ × α)) = [] := rfl

@[simp] theorem notesOf_append : notesOf k (notes ++ notes') = notesOf k notes ++
    notesOf k notes' :=
  List.filterMap_append

@[simp] theorem notesOf_self : notesOf q [(q, a)] = [a] := by simp [notesOf]

theorem notesOf_of_ne (h : q ≠ k) : notesOf k [(q, a)] = [] := by simp [notesOf, h]

theorem notesOf_eq_nil (h : ∀ note ∈ notes, note.1 ≠ k) : notesOf k notes = [] := by
  rw [notesOf, List.filterMap_eq_nil_iff]
  intro note hnote
  simp [h note hnote]

/-- The keys in `keys` are open, and all others are closed. -/
def Open (opening : α) (keys : List κ) (notes : List (κ × α)) : Prop :=
  ∀ k, (k ∈ keys → ∃ as, notesOf k notes = as ++ [opening] ∧ Bracketed opening as) ∧
    (k ∉ keys → Bracketed opening (notesOf k notes))

theorem open_nil : Open opening ([] : List κ) [] := by
  intro k
  exact ⟨fun hk => absurd hk List.not_mem_nil, fun _ => .nil⟩

theorem Open.bracketed (h : Open opening [] notes) (k : κ) : Bracketed opening (notesOf k notes) :=
  (h k).2 List.not_mem_nil

/-- A closed key is opened. -/
theorem Open.opens (h : Open opening keys notes) (hq : q ∉ keys)
    (hkeys : ∀ k, k ∈ keys' ↔ k = q ∨ k ∈ keys) :
    Open opening keys' (notes ++ [(q, opening)]) := by
  intro k
  rw [hkeys, notesOf_append]
  by_cases hk : k = q
  · subst hk
    refine ⟨fun _ => ⟨notesOf k notes, by simp, (h k).2 hq⟩, fun hnot => ?_⟩
    exact absurd (.inl rfl) hnot
  · rw [notesOf_of_ne (Ne.symm hk), List.append_nil]
    simpa [hk] using h k

/-- An open key is closed. -/
theorem Open.closes (h : Open opening keys notes) (ha : a ≠ opening) (hq : q ∈ keys)
    (hkeys : ∀ k, k ∈ keys' ↔ k ≠ q ∧ k ∈ keys) : Open opening keys' (notes ++ [(q, a)]) := by
  intro k
  rw [hkeys, notesOf_append]
  by_cases hk : k = q
  · subst hk
    obtain ⟨as, has, hbracketed⟩ := (h k).1 hq
    refine ⟨fun hmem => absurd rfl hmem.1, fun _ => ?_⟩
    rw [has, notesOf_self, List.append_assoc]
    exact hbracketed.close ha
  · rw [notesOf_of_ne (Ne.symm hk), List.append_nil]
    simpa [hk] using h k

end Transition
