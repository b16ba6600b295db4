import ColossalCode.Sessionizer.Policy

/-! Tables of sessions and the table of what is noted about them: when they belong together. -/
namespace ColossalCode.Sessionizer
open List

/-- The ids in the tables; the process of a session with the mark has ended. -/
structure Tables where
  exec : List (String × Bool)
  shell : List (String × Bool)
  managed : List String
  metadata : List String

namespace Tables

variable {t : Tables} {id : String}

def ids (t : Tables) : List String := t.exec.map Prod.fst ++ t.shell.map Prod.fst ++ t.managed

/-- The sessions whose process runs. -/
def liveIds (t : Tables) : List String :=
  (t.exec.filter (!·.2)).map Prod.fst ++ (t.shell.filter (!·.2)).map Prod.fst ++ t.managed

/-- No two sessions have one id, and the sessions with metadata are the live ones. -/
structure Consistent (t : Tables) : Prop where
  distinct : t.ids.Nodup
  noted : ∀ id, id ∈ t.metadata ↔ id ∈ t.liveIds

def openExec (id : String) (t : Tables) : Tables := { t with exec := t.exec ++ [(id, false)] }

def openShell (id : String) (t : Tables) : Tables := { t with shell := t.shell ++ [(id, false)] }

def openManaged (id : String) (t : Tables) : Tables := { t with managed := t.managed ++ [id] }

def note (id : String) (t : Tables) : Tables :=
  { t with metadata := id :: t.metadata.filter (· != id) }

/-- The first session with the id is removed, from the first table that has one. -/
def close (id : String) (t : Tables) : Tables :=
  if id ∈ t.exec.map Prod.fst then { t with exec := t.exec.eraseP (·.1 == id) }
  else if id ∈ t.shell.map Prod.fst then { t with shell := t.shell.eraseP (·.1 == id) }
  else { t with managed := t.managed.eraseP (· == id) }

def mark (id : String) (table : List (String × Bool)) : List (String × Bool) :=
  table.map fun entry => if entry.1 = id then (id, true) else entry

/-- The process of a session ends. -/
def exit (id : String) (t : Tables) : Tables :=
  { t with exec := mark id t.exec, shell := mark id t.shell }

/-- A session of any kind that is noted when it is opened. -/
structure Opens (opening : Tables → Tables) (id : String) : Prop where
  ids_perm : ∀ t, (opening t).ids.Perm (id :: t.ids)
  live_perm : ∀ t, (opening t).liveIds.Perm (id :: t.liveIds)
  metadata_eq : ∀ t, (opening t).metadata = t.metadata

theorem openExec_opens (id : String) : Opens (openExec id) id where
  ids_perm t := by
    simp only [ids, openExec, map_append, map_cons, map_nil, append_assoc]
    exact perm_middle
  live_perm t := by
    simp only [liveIds, openExec, filter_append, map_append, append_assoc]
    exact perm_middle
  metadata_eq _ := rfl

theorem openShell_opens (id : String) : Opens (openShell id) id where
  ids_perm t := by
    have hmiddle : (t.exec.map Prod.fst ++ t.shell.map Prod.fst ++ id :: t.managed).Perm
        (id :: (t.exec.map Prod.fst ++ t.shell.map Prod.fst ++ t.managed)) := perm_middle
    simpa [ids, openShell] using hmiddle
  live_perm t := by
    have hmiddle : ((t.exec.filter (!·.2)).map Prod.fst ++ (t.shell.filter (!·.2)).map Prod.fst ++
        id :: t.managed).Perm (id :: ((t.exec.filter (!·.2)).map Prod.fst ++
          (t.shell.filter (!·.2)).map Prod.fst ++ t.managed)) := perm_middle
    simpa [liveIds, openShell] using hmiddle
  metadata_eq _ := rfl

theorem openManaged_opens (id : String) : Opens (openManaged id) id where
  ids_perm t := by
    rw [ids, openManaged, ← append_assoc]
    exact perm_append_singleton _ _
  live_perm t := by
    rw [liveIds, openManaged, ← append_assoc]
    exact perm_append_singleton _ _
  metadata_eq _ := rfl

theorem live_mem_ids (h : id ∈ t.liveIds) : id ∈ t.ids := by
  unfold liveIds at h
  unfold ids
  simp only [mem_append, mem_map, mem_filter] at h ⊢
  rcases h with (⟨entry, ⟨hmem, -⟩, heq⟩ | ⟨entry, ⟨hmem, -⟩, heq⟩) | hmem
  · exact .inl (.inl ⟨entry, hmem, heq⟩)
  · exact .inl (.inr ⟨entry, hmem, heq⟩)
  · exact .inr hmem

theorem note_ids (id : String) (t : Tables) : (t.note id).ids = t.ids := rfl

variable {opening : Tables → Tables} {table : List (String × Bool)}

/-- Opened and noted, a session belongs with the others if its id is new. -/
theorem note_consistent_iff (h : Opens opening id)
    (ht : t.Consistent) : ((opening t).note id).Consistent ↔ id ∉ t.ids := by
  have hids : ((opening t).note id).ids.Perm (id :: t.ids) := h.ids_perm t
  have hlive : ((opening t).note id).liveIds.Perm (id :: t.liveIds) := h.live_perm t
  constructor
  · intro hconsistent
    exact (nodup_cons.mp (hids.nodup_iff.mp hconsistent.distinct)).1
  · intro hid
    refine ⟨hids.nodup_iff.mpr (nodup_cons.mpr ⟨hid, ht.distinct⟩), ?_⟩
    intro other
    rw [hlive.mem_iff, mem_cons, ← ht.noted]
    simp only [note, h.metadata_eq, mem_cons, mem_filter, bne_iff_ne, ne_eq]
    by_cases hother : other = id <;> simp [hother]

/-- A session that is not noted never belongs with the others. -/
theorem opened_inconsistent (h : Opens opening id)
    (ht : t.Consistent) : ¬ (opening t).Consistent := by
  intro hconsistent
  have hlive : id ∈ (opening t).liveIds := (h.live_perm t).mem_iff.mpr mem_cons_self
  have hnoted := (hconsistent.noted id).mpr hlive
  rw [h.metadata_eq, ht.noted] at hnoted
  have hnodup := (h.ids_perm t).nodup_iff.mp hconsistent.distinct
  exact (nodup_cons.mp hnodup).1 (live_mem_ids hnoted)

theorem mem_liveIds :
    id ∈ t.liveIds ↔ ((id, false) ∈ t.exec ∨ (id, false) ∈ t.shell) ∨ id ∈ t.managed := by
  simp [liveIds, or_assoc]

theorem mem_eraseP (h : (table.map Prod.fst).Nodup) {entry : String × Bool} :
    entry ∈ table.eraseP (·.1 == id) ↔ entry ∈ table ∧ entry.1 ≠ id := by
  have hfilter : table.eraseP (·.1 == id) = table.filter (·.1 != id) := by
    induction table with
    | nil => rfl
    | cons first table ih =>
      obtain ⟨hfirst, hrest⟩ := nodup_cons.mp h
      by_cases hid : first.1 = id
      · rw [eraseP_cons_of_pos (by simpa using hid), filter_cons_of_neg (by simpa using hid),
          eq_comm, filter_eq_self]
        intro other hmem
        exact bne_iff_ne.mpr fun heq => hfirst (heq.trans hid.symm ▸ mem_map_of_mem hmem)
      · rw [eraseP_cons_of_neg (by simpa using hid), filter_cons_of_pos (by simpa using hid),
          ih hrest]
  simp [hfilter]

/-- What is left after a session is gone. -/
theorem mem_close_live (h : t.ids.Nodup) {other : String} :
    other ∈ (t.close id).liveIds ↔ other ≠ id ∧ other ∈ t.liveIds := by
  obtain ⟨htables, hmanaged, hdisjoint⟩ := nodup_append.mp h
  obtain ⟨hexec, hshell, hapart⟩ := nodup_append.mp htables
  have hexecMem : (other, false) ∈ t.exec → other ∈ t.exec.map Prod.fst := mem_map_of_mem
  have hshellMem : (other, false) ∈ t.shell → other ∈ t.shell.map Prod.fst := mem_map_of_mem
  rw [mem_liveIds, mem_liveIds]
  unfold close
  split_ifs with hinExec hinShell
  · have hshellNe : (other, false) ∈ t.shell → other ≠ id := fun hmem heq =>
      hapart id hinExec other (hshellMem hmem) heq.symm
    have hmanagedNe : other ∈ t.managed → other ≠ id := fun hmem heq =>
      hdisjoint id (mem_append_left _ hinExec) other hmem heq.symm
    rw [mem_eraseP hexec, and_or_left, and_or_left, and_iff_right_of_imp hshellNe,
      and_iff_right_of_imp hmanagedNe, and_comm]
  · have hexecNe : (other, false) ∈ t.exec → other ≠ id := fun hmem heq =>
      hinExec (heq ▸ hexecMem hmem)
    have hmanagedNe : other ∈ t.managed → other ≠ id := fun hmem heq =>
      hdisjoint id (mem_append_right _ hinShell) other hmem heq.symm
    rw [mem_eraseP hshell, and_or_left, and_or_left, and_iff_right_of_imp hexecNe,
      and_iff_right_of_imp hmanagedNe, and_comm]
  · have hexecNe : (other, false) ∈ t.exec → other ≠ id := fun hmem heq =>
      hinExec (heq ▸ hexecMem hmem)
    have hshellNe : (other, false) ∈ t.shell → other ≠ id := fun hmem heq =>
      hinShell (heq ▸ hshellMem hmem)
    rw [← erase_eq_eraseP', hmanaged.mem_erase_iff, and_or_left, and_or_left,
      and_iff_right_of_imp hexecNe, and_iff_right_of_imp hshellNe]

theorem close_ids (t : Tables) (id : String) : (t.close id).ids.Sublist t.ids := by
  unfold close
  split
  · exact ((eraseP_sublist.map _).append_right _).append_right _
  · split
    · exact ((eraseP_sublist.map _).append_left _).append_right _
    · exact eraseP_sublist.append_left _

theorem close_metadata (t : Tables) (id : String) : (t.close id).metadata = t.metadata := by
  unfold close
  split
  · rfl
  · split <;> rfl

/-- A session that is removed leaves its metadata behind. -/
theorem close_consistent_iff (ht : t.Consistent) : (t.close id).Consistent ↔ id ∉ t.liveIds := by
  constructor
  · intro h hlive
    have hnoted := (ht.noted id).mpr hlive
    rw [← close_metadata t id, h.noted, mem_close_live ht.distinct] at hnoted
    exact hnoted.1 rfl
  · intro hlive
    refine ⟨(close_ids t id).nodup ht.distinct, fun other => ?_⟩
    rw [close_metadata, ht.noted, mem_close_live ht.distinct]
    refine ⟨fun hother => ⟨?_, hother⟩, And.right⟩
    rintro rfl
    exact hlive hother

theorem mark_fst (id : String) (table : List (String × Bool)) :
    (mark id table).map Prod.fst = table.map Prod.fst := by
  rw [mark, map_map]
  refine map_congr_left fun entry _ => ?_
  rw [Function.comp_apply]
  split
  · rename_i hid
    exact hid.symm
  · rfl

theorem mem_mark {other : String} :
    (other, false) ∈ mark id table ↔ other ≠ id ∧ (other, false) ∈ table := by
  unfold mark
  rw [mem_map]
  constructor
  · rintro ⟨entry, hmem, heq⟩
    split at heq
    · cases heq
    · rename_i hid
      rw [heq] at hid hmem
      exact ⟨hid, hmem⟩
  · rintro ⟨hid, hmem⟩
    exact ⟨(other, false), hmem, if_neg hid⟩

/-- A process that ends leaves its session and its metadata behind. -/
theorem exit_consistent_iff (ht : t.Consistent) :
    (t.exit id).Consistent ↔ id ∉ t.liveIds ∨ id ∈ t.managed := by
  have hids : (t.exit id).ids = t.ids := by
    rw [ids, exit, mark_fst, mark_fst, ids]
  have hlive : ∀ other, other ∈ (t.exit id).liveIds ↔
      (other ≠ id ∧ other ∈ t.liveIds) ∨ other ∈ t.managed := by
    intro other
    rw [mem_liveIds, mem_liveIds, exit, mem_mark, mem_mark]
    constructor
    · rintro ((⟨hother, hmem⟩ | ⟨hother, hmem⟩) | hmem)
      · exact .inl ⟨hother, .inl (.inl hmem)⟩
      · exact .inl ⟨hother, .inl (.inr hmem)⟩
      · exact .inr hmem
    · rintro (⟨hother, (hmem | hmem) | hmem⟩ | hmem)
      · exact .inl (.inl ⟨hother, hmem⟩)
      · exact .inl (.inr ⟨hother, hmem⟩)
      · exact .inr hmem
      · exact .inr hmem
  constructor
  · intro h
    by_contra hnot
    rw [not_or, not_not] at hnot
    have hnoted := (h.noted id).mp ((ht.noted id).mpr hnot.1)
    rw [hlive] at hnoted
    exact hnoted.elim (fun h => h.1 rfl) hnot.2
  · intro hid
    refine ⟨hids ▸ ht.distinct, fun other => ?_⟩
    have hmanaged : other ∈ t.managed → other ∈ t.liveIds := fun h => mem_liveIds.mpr (.inr h)
    rw [show (t.exit id).metadata = t.metadata from rfl, ht.noted, hlive]
    constructor
    · intro hother
      by_cases heq : other = id
      · subst heq
        exact .inr (hid.resolve_left (not_not.mpr hother))
      · exact .inl ⟨heq, hother⟩
    · rintro (⟨-, hother⟩ | hother)
      · exact hother
      · exact hmanaged hother

end Tables

end ColossalCode.Sessionizer
