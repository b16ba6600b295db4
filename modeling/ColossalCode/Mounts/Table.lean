import Mathlib.Data.List.Infix

/-! Tables of mounts over paths. A later mount covers the earlier ones at its target and below. -/
namespace Mounts
open List Option

structure Mount (α κ : Type*) where
  target : List α
  kind : κ
  deriving DecidableEq

variable {α κ : Type*}

/-- The kind of the mount that a path is in. -/
def lookup [DecidableEq α] (path : List α) : List (Mount α κ) → Option κ
  | [] => none
  | mount :: later =>
    (lookup path later).or (if mount.target <+: path then some mount.kind else none)

/-- A mount of another kind covers the path, and none of the kind covers it again. -/
def Exposed (good : κ → Prop) (table : List (Mount α κ)) (path : List α) : Prop :=
  ∃ before mount after, table = before ++ mount :: after ∧ mount.target <+: path ∧
    ¬ good mount.kind ∧ ∀ later ∈ after, good later.kind → ¬ later.target <+: path

variable {good : κ → Prop} {table later : List (Mount α κ)} {mount : Mount α κ} {path : List α}

theorem exposed_cons_iff : Exposed good (mount :: later) path ↔
    Exposed good later path ∨ mount.target <+: path ∧ ¬ good mount.kind ∧
      ∀ m ∈ later, good m.kind → ¬ m.target <+: path := by
  constructor
  · rintro ⟨before, m, after, htable, hcovers, hbad, hafter⟩
    cases before with
    | nil =>
      cases htable
      exact .inr ⟨hcovers, hbad, hafter⟩
    | cons first before =>
      cases htable
      exact .inl ⟨before, m, after, rfl, hcovers, hbad, hafter⟩
  · rintro (⟨before, m, after, rfl, hcovers, hbad, hafter⟩ | ⟨hcovers, hbad, hafter⟩)
    · exact ⟨mount :: before, m, after, rfl, hcovers, hbad, hafter⟩
    · exact ⟨[], mount, later, rfl, hcovers, hbad, hafter⟩

/-- What is mounted first no longer matters where a good mount follows. -/
theorem exposed_append_iff (h : ∃ m ∈ later, good m.kind ∧ m.target <+: path) :
    Exposed good (table ++ later) path ↔ Exposed good later path := by
  induction table with
  | nil => rfl
  | cons first table ih =>
    rw [cons_append, exposed_cons_iff, ih, or_iff_left]
    rintro ⟨-, -, hnone⟩
    obtain ⟨m, hm, hgood, hcovers⟩ := h
    exact hnone m (mem_append_right table hm) hgood hcovers

variable [DecidableEq α]

theorem lookup_cons : lookup path (mount :: later) =
    (lookup path later).or (if mount.target <+: path then some mount.kind else none) := rfl

theorem lookup_eq_none_iff : lookup path table = none ↔
    ∀ mount ∈ table, ¬ mount.target <+: path := by
  induction table with
  | nil => simp [lookup]
  | cons first table ih =>
    rw [lookup_cons, or_eq_none_iff, ih, forall_mem_cons, and_comm]
    simp

theorem exists_of_lookup {kind : κ} (h : lookup path table = some kind) :
    ∃ mount ∈ table, mount.target <+: path ∧ mount.kind = kind := by
  induction table with
  | nil => cases h
  | cons first table ih =>
    rw [lookup_cons] at h
    rcases or_eq_some_iff.mp h with hlater | ⟨-, hfirst⟩
    · obtain ⟨mount, hmount, hcovers⟩ := ih hlater
      exact ⟨mount, mem_cons_of_mem first hmount, hcovers⟩
    · split at hfirst
      · rename_i hcovers
        cases hfirst
        exact ⟨first, mem_cons_self, hcovers, rfl⟩
      · cases hfirst

/-- A path is in a good mount exactly when it is in one, and no other mount exposes it. -/
theorem lookup_good_iff : (∃ kind, lookup path table = some kind ∧ good kind) ↔
    (∃ mount ∈ table, mount.target <+: path) ∧ ¬ Exposed good table path := by
  induction table with
  | nil =>
    constructor
    · rintro ⟨kind, hkind, -⟩
      cases hkind
    · rintro ⟨⟨mount, hmount, -⟩, -⟩
      cases hmount
  | cons first table ih =>
    rw [lookup_cons, exposed_cons_iff]
    cases hlater : lookup path table with
    | none =>
      have hnone := lookup_eq_none_iff.mp hlater
      have hclear : ¬ Exposed good table path := by
        rintro ⟨before, mount, after, rfl, hcovers, -⟩
        exact hnone mount (by simp) hcovers
      by_cases hcovers : first.target <+: path
      · have hhere : ∃ mount ∈ first :: table, mount.target <+: path :=
          ⟨first, mem_cons_self, hcovers⟩
        have hlate : ∀ m ∈ table, good m.kind → ¬ m.target <+: path := fun m hm _ => hnone m hm
        rw [if_pos hcovers, none_or, and_iff_right hhere, not_or, and_iff_right hclear]
        constructor
        · rintro ⟨kind, hkind, hgood⟩ ⟨-, hbad, -⟩
          cases hkind
          exact hbad hgood
        · intro h
          exact ⟨first.kind, rfl, by_contra fun hbad => h ⟨hcovers, hbad, hlate⟩⟩
      · have hnowhere : ¬ ∃ mount ∈ first :: table, mount.target <+: path := by
          rintro ⟨mount, hmount, hmounted⟩
          rcases mem_cons.mp hmount with rfl | hmem
          · exact hcovers hmounted
          · exact hnone mount hmem hmounted
        rw [if_neg hcovers, none_or]
        constructor
        · rintro ⟨kind, hkind, -⟩
          cases hkind
        · rintro ⟨hthere, -⟩
          exact absurd hthere hnowhere
    | some kind =>
      obtain ⟨mount, hmount, hcovers, hkind⟩ := exists_of_lookup hlater
      have hhere : ∃ mount ∈ table, mount.target <+: path := ⟨mount, hmount, hcovers⟩
      have hthere : ∃ mount ∈ first :: table, mount.target <+: path :=
        ⟨mount, mem_cons_of_mem first hmount, hcovers⟩
      rw [hlater] at ih
      rw [some_or, ih, and_iff_right hhere, and_iff_right hthere, not_or, iff_self_and]
      rintro hclear ⟨-, -, hlate⟩
      have hgood : good kind := by
        obtain ⟨found, hfound, hgood⟩ := ih.mpr ⟨hhere, hclear⟩
        cases hfound
        exact hgood
      exact hlate mount hmount (hkind ▸ hgood) hcovers

end Mounts
