import ColossalCode.Semantic.Watcher
import ColossalCode.Transition.Run
import Mathlib.Data.List.Nodup

/-! When the index mirrors the files. -/
namespace ColossalCode.Semantic
open Function List Option

open Transition

namespace State

/-- The points of a file. -/
def points (s : State) (path : String) : List Point :=
  s.index.filter fun point => point.fileName == path

def chunks (s : State) (path : String) : List Chunk := (s.points path).map (·.chunk)

end State

/-- An event of the file waits. -/
def Waits (s : State) (path : String) : Prop := ∃ kind, (kind, path) ∈ s.queue

/-- An event of the file waits or is being handled. -/
def Pending (s : State) (path : String) : Prop := Waits s path ∨ s.phase.path = some path

section Mirrors

variable (chunker : String → String → Except String (List Chunk)) (overflowChecks : Bool)

/-- The index has the chunks of each file, once each, as they were when the file was last indexed,
and as they are now unless an event of the file is pending; events go on to be handled. -/
structure Mirrors (s : State) : Prop where
  alive : s.alive = true
  settled : ∀ path, ¬ Pending s path →
    (s.chunks path).Perm (chunksOf chunker path (s.files path))
  made : ∀ path, s.phase ≠ .rechunking path →
    (s.chunks path).Perm (chunksOf chunker path (s.indexed path))

/-- Another event of the file waits, or its chunks are those it was indexed with. -/
def Current (s : State) (path : String) : Prop :=
  Waits s path ∨ (chunksOf chunker path (s.indexed path)).Perm
    (chunksOf chunker path (s.files path))

/-- A file that is removed has no chunks any more, and an event is dropped only if the chunks are
those that the file was indexed with. -/
def Timely (s : State) (path : String) : EventKind → Prop
  | .remove => chunksOf chunker path (s.files path) = []
  | .create | .modify => s.debounced path = true →
    (chunksOf chunker path (s.indexed path)).Perm (chunksOf chunker path (s.files path))

/-- The last event of a file is not dropped, nor is one that finds the text that was read last,
unless its chunks are as they were indexed; it is handled without a panic, and before its chunks are
added the file has none. -/
def Upholds (s : State) : Action → Prop
  | .take => ∀ kind path queue, s.queue = (kind, path) :: queue →
      (∃ kind', (kind', path) ∈ queue) ∨ Timely chunker s path kind
  | .index => ∀ path, s.phase = .indexing path → s.files path = none → Current chunker s path
  | .update _ => ∀ path, s.phase = .updating path →
      match s.files path with
      | none => Current chunker s path
      | some newContent =>
        match calculateChangeRange ((s.fileContentCache path).getD "") newContent with
        | none => Current chunker s path
        | some (startByte, endByte) => sliceable newContent startByte endByte = true ∧
            (overflowChecks = true → startByte ≠ 0)
  | .chunk => ∀ path, s.phase = .chunking path ∨ s.phase = .rechunking path →
      match chunkFile chunker path (s.files path) with
      | .ok _ => s.points path = []
      | .error _ => s.phase = .chunking path → Current chunker s path
  | _ => True

end Mirrors

/-- No two points have the same id. -/
structure Kept (s : State) : Prop where
  nodup : (s.index.map (·.id)).Nodup
  fresh : ∀ point ∈ s.index, ∀ i, point.id = .uuid i → i < s.nextUuid

section Runs

variable {chunker : String → String → Except String (List Chunk)} {overflowChecks : Bool}
  {s t : State} {path other : String} {found : List Point}

theorem Kept.sublist (hk : Kept s) (hindex : t.index.Sublist s.index)
    (hnext : t.nextUuid = s.nextUuid) : Kept t where
  nodup := (hindex.map _).nodup hk.nodup
  fresh point hpoint i hid := hnext ▸ hk.fresh point (hindex.subset hpoint) i hid

variable {id : Nat → PointId} {startByte endByte : Nat}

theorem mem_numbered {i : Nat} {entries : List (String × Chunk)} {point : Point}
    (h : point ∈ numbered id i entries) : ∃ j, i ≤ j ∧ j < i + entries.length ∧
      point.id = id j := by
  induction entries generalizing i with
  | nil => cases h
  | cons entry entries ih =>
    rw [length_cons]
    rcases mem_cons.mp h with rfl | h
    · exact ⟨i, Nat.le_refl _, by omega, rfl⟩
    · obtain ⟨j, hle, hlt, hid⟩ := ih h
      exact ⟨j, by omega, by omega, hid⟩

theorem nodup_numbered (hid : Function.Injective id) (i : Nat)
    (entries : List (String × Chunk)) : ((numbered id i entries).map (·.id)).Nodup := by
  induction entries generalizing i with
  | nil => exact nodup_nil
  | cons entry entries ih =>
    refine nodup_cons.mpr ⟨fun hmem => ?_, ih (i + 1)⟩
    obtain ⟨point, hpoint, heq⟩ := mem_map.mp hmem
    obtain ⟨j, hle, -, hj⟩ := mem_numbered hpoint
    have hij := hid (hj.symm.trans heq)
    omega

theorem chunks_numbered (id : Nat → PointId) (i : Nat) (entries : List (String × Chunk))
    (path : String) :
    ((numbered id i entries).filter fun point => point.fileName == path).map (·.chunk) =
      (entries.filter fun entry => entry.1 == path).map (·.2) := by
  induction entries generalizing i with
  | nil => rfl
  | cons entry entries ih =>
    obtain ⟨fileName, chunk⟩ := entry
    rw [numbered]
    by_cases h : fileName = path
    · rw [filter_cons_of_pos (by simp [h]),
        filter_cons_of_pos (by simp [h]), map_cons,
        map_cons, ih]
    · rw [filter_cons_of_neg (by simp [h]), filter_cons_of_neg (by simp [h]), ih]

theorem Kept.addChunks (hk : Kept s) (path : String) (chunks : List Chunk) :
    Kept (s.addChunks path chunks) := by
  refine ⟨?_, fun point hpoint i hid => ?_⟩
  · rw [State.addChunks, map_append]
    refine nodup_append.mpr ⟨hk.nodup, nodup_numbered (fun _ _ => PointId.uuid.inj) _ _, ?_⟩
    intro id hold id' hnew heq
    obtain ⟨point, hpoint, rfl⟩ := mem_map.mp hold
    obtain ⟨point', hpoint', rfl⟩ := mem_map.mp hnew
    obtain ⟨j, hle, -, hj⟩ := mem_numbered hpoint'
    exact Nat.not_lt.mpr hle (hk.fresh point hpoint j (heq.trans hj))
  · rcases mem_append.mp hpoint with hpoint | hpoint
    · exact Nat.lt_of_lt_of_le (hk.fresh point hpoint i hid) (Nat.le_add_right _ _)
    · obtain ⟨j, -, hlt, hj⟩ := mem_numbered hpoint
      rw [length_map] at hlt
      exact PointId.uuid.inj (hid.symm.trans hj) ▸ hlt

theorem chunks_removeFile (path other : String) : (s.removeFileFromIndex path).chunks other =
    if other = path then [] else s.chunks other := by
  have hpoints : (s.removeFileFromIndex path).points other =
      s.index.filter fun point => point.fileName == other && point.fileName != path := by
    rw [State.points, State.removeFileFromIndex, List.filter_filter]
  rw [State.chunks, hpoints]
  by_cases h : other = path
  · rw [if_pos h, List.map_eq_nil_iff, List.filter_eq_nil_iff]
    intro point _ hpoint
    rw [Bool.and_eq_true, beq_iff_eq, bne_iff_ne] at hpoint
    exact hpoint.2 (hpoint.1.trans h)
  · have hsame : (s.index.filter fun point => point.fileName == other && point.fileName != path) =
        s.index.filter fun point => point.fileName == other := by
      refine List.filter_congr fun point _ => ?_
      by_cases hname : point.fileName = other
      · simp [hname, h]
      · simp [hname]
    rw [if_neg h, hsame]
    rfl

theorem chunks_addChunks (path other : String) (chunks : List Chunk) :
    (s.addChunks path chunks).chunks other =
      if other = path then s.chunks path ++ chunks else s.chunks other := by
  have hchunks : (s.addChunks path chunks).chunks other = s.chunks other ++
      ((chunks.map fun chunk => (path, chunk)).filter fun entry => entry.1 == other).map (·.2) := by
    rw [State.chunks, State.points, State.addChunks, List.filter_append, List.map_append,
      chunks_numbered]
    rfl
  rw [hchunks]
  by_cases h : other = path
  · subst h
    rw [if_pos rfl, List.filter_eq_self.mpr (by simp), List.map_map]
    exact congrArg _ (List.map_id _)
  · rw [if_neg h, List.filter_eq_nil_iff.mpr (by simp [Ne.symm h]), List.map_nil, List.append_nil]

/-- The points that are deleted: those found that have their id in the payload. -/
theorem deleted_iff {point : Point} (hk : Kept s)
    (hfound : s.Finds path startByte endByte found) (hpoint : point ∈ s.index) :
    (found.filterMap (·.pointId)).contains point.id = true ↔
      point ∈ found ∧ ∃ i, point.id = .uuid i := by
  rw [contains_iff_mem, mem_filterMap]
  constructor
  · rintro ⟨point', hpoint', hid⟩
    obtain ⟨hindex, -⟩ := mem_filter.mp (hfound.2.1 point' hpoint')
    unfold Point.pointId at hid
    split at hid
    · cases hid
    · rename_i i hi
      have hpid := some.inj hid
      obtain rfl := inj_on_of_nodup_map hk.nodup hindex hpoint (hi.trans hpid)
      exact ⟨hpoint', i, hi⟩
  · rintro ⟨hmem, i, hi⟩
    refine ⟨point, hmem, ?_⟩
    rw [Point.pointId, hi]

/-- The deletion of points of a file leaves those of the others. -/
theorem chunks_deletePoints (hk : Kept s)
    (hfound : s.Finds path startByte endByte found) (h : other ≠ path) :
    (s.deletePoints (found.filterMap (·.pointId))).chunks other = s.chunks other := by
  have hsame : ∀ point ∈ s.index, point.fileName = other →
      (found.filterMap (·.pointId)).contains point.id = false := by
    intro point hpoint hname
    by_contra hcontains
    rw [Bool.not_eq_false] at hcontains
    obtain ⟨hmem, -⟩ := (deleted_iff hk hfound hpoint).mp hcontains
    obtain ⟨-, hmatch⟩ := List.mem_filter.mp (hfound.2.1 point hmem)
    rw [Bool.and_eq_true, beq_iff_eq] at hmatch
    exact h (hname.symm.trans hmatch.1)
  rw [State.chunks, State.chunks, State.points, State.points, State.deletePoints,
    List.filter_filter]
  refine congrArg _ (List.filter_congr fun point hpoint => ?_)
  by_cases hname : point.fileName = other
  · rw [hsame point hpoint hname, Bool.not_false, Bool.and_true]
  · simp [hname]

/-- What is to be shown of a step that concerns one file. -/
structure Frames (s t : State) (path : String) : Prop where
  chunks : ∀ other, other ≠ path → t.chunks other = s.chunks other
  indexed : ∀ other, other ≠ path → t.indexed other = s.indexed other
  files : t.files = s.files
  waits : ∀ other, other ≠ path → Waits s other → Waits t other
  before : ∀ other, s.phase.path = some other → other = path
  after : ∀ other, t.phase.path = some other → other = path

theorem rechunking_path (h : s.phase = .rechunking path) : s.phase.path = some path := by
  rw [h]
  rfl

/-- The index mirrors the other files as before, so that it is enough to look at this one. -/
theorem mirrors_after_iff (hs : Mirrors chunker s) (h : Frames s t path) (halive : t.alive = true) :
    Mirrors chunker t ↔
      (¬ Pending t path → (t.chunks path).Perm (chunksOf chunker path (s.files path))) ∧
      (t.phase ≠ .rechunking path → (t.chunks path).Perm
        (chunksOf chunker path (t.indexed path))) := by
  constructor
  · intro ht
    exact ⟨h.files ▸ ht.settled path, ht.made path⟩
  · rintro ⟨hsettled, hmade⟩
    refine ⟨halive, fun other hpending => ?_, fun other hphase => ?_⟩
    · by_cases hother : other = path
      · subst hother
        exact h.files ▸ hsettled hpending
      · rw [h.chunks other hother, h.files]
        refine hs.settled other fun hbefore => hpending ?_
        rcases hbefore with hwaits | hphase
        · exact .inl (h.waits other hother hwaits)
        · exact absurd (h.before other hphase) hother
    · by_cases hother : other = path
      · subst hother
        exact hmade hphase
      · rw [h.chunks other hother, h.indexed other hother]
        exact hs.made other fun hphase => hother (h.before other (rechunking_path hphase))

/-- A step that goes on with the file, or leaves its entries as they are. -/
theorem mirrors_same_iff (hs : Mirrors chunker s) (h : Frames s t path) (halive : t.alive = true)
    (hchunks : t.chunks path = s.chunks path) (hindexed : t.indexed path = s.indexed path)
    (hphase : s.phase ≠ .rechunking path) :
    Mirrors chunker t ↔ (¬ Pending t path →
      (chunksOf chunker path (s.indexed path)).Perm (chunksOf chunker path (s.files path))) := by
  have hmade := hs.made path hphase
  rw [mirrors_after_iff hs h halive, hchunks, hindexed]
  constructor
  · exact fun hboth hpending => hmade.symm.trans (hboth.1 hpending)
  · exact fun hcurrent => ⟨fun hpending => hmade.trans (hcurrent hpending), fun _ => hmade⟩

/-- The entries of a file are dropped. -/
theorem mirrors_removed_iff (hs : Mirrors chunker s) (h : Frames s t path) (halive : t.alive = true)
    (hchunks : t.chunks path = []) (hindexed : t.indexed path = none) :
    Mirrors chunker t ↔ (¬ Pending t path → chunksOf chunker path (s.files path) = []) := by
  rw [mirrors_after_iff hs h halive, hchunks, hindexed]
  constructor
  · exact fun hboth hpending => (hboth.1 hpending).symm.eq_nil
  · exact fun hnone => ⟨fun hpending => hnone hpending ▸ .refl _, fun _ => .refl _⟩

/-- The chunks of a file are added to what it has. -/
theorem mirrors_added_iff {chunks : List Chunk} (hs : Mirrors chunker s) (h : Frames s t path)
    (halive : t.alive = true) (hfile : chunkFile chunker path (s.files path) = .ok chunks)
    (hchunks : t.chunks path = s.chunks path ++ chunks) (hindexed : t.indexed path = s.files path)
    (hphase : t.phase = .idle) : Mirrors chunker t ↔ s.points path = [] := by
  have hof : chunksOf chunker path (s.files path) = chunks := by
    rw [chunksOf, hfile]
  have hempty : (s.chunks path ++ chunks).Perm chunks ↔ s.points path = [] := by
    constructor
    · intro hperm
      have hlength := hperm.length_eq
      rw [length_append, State.chunks, length_map] at hlength
      exact length_eq_zero_iff.mp (by omega)
    · intro hnone
      rw [State.chunks, hnone]
      exact .refl _
  rw [mirrors_after_iff hs h halive, hchunks, hindexed, hof]
  constructor
  · exact fun hboth => hempty.mp (hboth.2 (by rw [hphase]; exact Phase.noConfusion))
  · exact fun hnone => ⟨fun _ => hempty.mpr hnone, fun _ => hempty.mpr hnone⟩

theorem waits_of_subset (hqueue : ∀ event ∈ s.queue, event ∈ t.queue) (h : Waits s path) :
    Waits t path := by
  obtain ⟨kind, hkind⟩ := h
  exact ⟨kind, hqueue _ hkind⟩

/-- The handling of a file has ended, and has left its entries as they are. -/
theorem mirrors_left_iff (hs : Mirrors chunker s) (h : Frames s t path) (hqueue : t.queue = s.queue)
    (hindex : t.index = s.index) (hindexed : t.indexed = s.indexed) (halive : t.alive = s.alive)
    (hafter : t.phase = .idle) (hphase : s.phase ≠ .rechunking path) :
    Mirrors chunker t ↔ Current chunker s path := by
  have hchunks : t.chunks path = s.chunks path := by
    rw [State.chunks, State.points, hindex]
    rfl
  have hpending : Pending t path ↔ Waits s path := by
    rw [Pending, Waits, hqueue, hafter]
    exact or_iff_left fun h => (by cases h)
  rw [mirrors_same_iff hs h (halive.trans hs.alive) hchunks (hindexed ▸ rfl) hphase, hpending]
  exact Classical.or_iff_not_imp_left.symm

/-- While a file is handled, nothing changes for the others. -/
theorem frames_of_phase (hphase : s.phase.path = some path)
    (hafter : t.phase.path = none ∨ t.phase.path = some path) (hqueue : t.queue = s.queue)
    (hfiles : t.files = s.files) (hchunks : ∀ other, other ≠ path → t.chunks other = s.chunks other)
    (hindexed : ∀ other, other ≠ path → t.indexed other = s.indexed other) : Frames s t path where
  chunks := hchunks
  indexed := hindexed
  files := hfiles
  waits _ _ := waits_of_subset fun _ hevent => hqueue ▸ hevent
  before _ h := some.inj (h.symm.trans hphase)
  after other h := by
    rcases hafter with hafter | hafter
    · rw [hafter] at h
      cases h
    · exact some.inj (h.symm.trans hafter)

theorem notify_mirrors (hs : Mirrors chunker s) (events : List (EventKind × String)) :
    Mirrors chunker (s.notify events) := by
  refine ⟨hs.alive, fun path hpending => hs.settled path fun h => hpending ?_, hs.made⟩
  rcases h with hwaits | hphase
  · exact .inl (waits_of_subset (fun _ hevent => mem_append_left _ hevent) hwaits)
  · exact .inr hphase

/-- A file changes, and an event of it waits. -/
theorem setFile_mirrors (hs : Mirrors chunker s) {content : Option String}
    (hwaits : Waits s path) : Mirrors chunker (s.setFile path content) := by
  refine ⟨hs.alive, fun other hpending => ?_, hs.made⟩
  by_cases h : other = path
  · subst h
    exact absurd (.inl hwaits) hpending
  · have hfile : (s.setFile path content).files other = s.files other := update_of_ne h _ _
    rw [hfile]
    exact hs.settled other hpending

theorem apply_mirrors (hs : Mirrors chunker s) (c : Change) : Mirrors chunker (s.apply c) := by
  cases c with
  | create path content | modify path content | remove path =>
    exact setFile_mirrors (notify_mirrors hs _) ⟨_, mem_append_right _ mem_cons_self⟩
  | rename source target =>
    have hnotified := notify_mirrors hs [(.modify, source), (.modify, target)]
    have htarget : Mirrors chunker
        ((s.notify [(.modify, source), (.modify, target)]).setFile target (s.files source)) :=
      setFile_mirrors hnotified
        ⟨.modify, mem_append_right _ (mem_cons_of_mem _ mem_cons_self)⟩
    exact setFile_mirrors htarget ⟨.modify, mem_append_right _ mem_cons_self⟩

theorem index_step (hphase : s.phase = .indexing path) (hk : Kept s) :
    Kept (index s path) ∧
      (Mirrors chunker s → (Mirrors chunker (index s path) ↔
        Upholds chunker overflowChecks s .index)) := by
  have hpath : s.phase.path = some path := by
    rw [hphase]
    rfl
  have hne : s.phase ≠ .rechunking path := by
    rw [hphase]
    exact Phase.noConfusion
  have huphold : Upholds chunker overflowChecks s .index ↔
      (s.files path = none → Current chunker s path) := by
    constructor
    · exact fun h => h path hphase
    · intro h other hother
      obtain rfl := Phase.indexing.inj (hphase.symm.trans hother)
      exact h
  rw [huphold]
  unfold index
  split
  · rename_i hnone
    refine ⟨⟨hk.nodup, hk.fresh⟩, fun hs => ?_⟩
    have hframes : Frames s { s with phase := .idle } path :=
      frames_of_phase hpath (.inl rfl) rfl rfl (fun _ _ => rfl) (fun _ _ => rfl)
    rw [mirrors_left_iff hs hframes rfl rfl rfl rfl rfl hne, forall_prop_of_true hnone]
  · rename_i content hcontent
    refine ⟨⟨hk.nodup, hk.fresh⟩, fun hs => ?_⟩
    have hframes : Frames s { s.cache path (some content) with phase := .chunking path } path :=
      frames_of_phase hpath (.inr rfl) rfl rfl (fun _ _ => rfl) (fun _ _ => rfl)
    rw [mirrors_same_iff hs hframes hs.alive rfl rfl hne]
    refine iff_of_true (fun hpending => absurd (.inr rfl) hpending) fun hnone => ?_
    rw [hcontent] at hnone
    cases hnone

theorem chunk_step (hk : Kept s) (ht : chunk chunker s s.phase = some t) :
    Kept t ∧ (Mirrors chunker s → (Mirrors chunker t ↔
      Upholds chunker overflowChecks s .chunk)) := by
  have huphold : ∀ {path}, (s.phase = .chunking path ∨ s.phase = .rechunking path) →
      (Upholds chunker overflowChecks s .chunk ↔
        match chunkFile chunker path (s.files path) with
        | .ok _ => s.points path = []
        | .error _ => s.phase = .chunking path → Current chunker s path) := by
    intro path hphase
    constructor
    · exact fun h => h path hphase
    · intro h other hother
      have hsame : other = path := by
        rcases hphase with hphase | hphase <;> rcases hother with hother | hother <;>
          rw [hphase] at hother <;> cases hother <;> rfl
      subst hsame
      exact h
  have hadd : ∀ {path chunks}, s.phase.path = some path →
      chunkFile chunker path (s.files path) = .ok chunks → Mirrors chunker s →
        (Mirrors chunker { s.addChunks path chunks with phase := .idle } ↔ s.points path = []) := by
    intro path chunks hpath hfile hs
    have hframes : Frames s { s.addChunks path chunks with phase := .idle } path := by
      refine frames_of_phase hpath (.inl rfl) rfl rfl
        (fun other hother => ?_) fun other hother => ?_
      · exact (chunks_addChunks path other chunks).trans (if_neg hother)
      · exact update_of_ne hother _ _
    refine mirrors_added_iff hs hframes hs.alive hfile ?_ (update_self ..) rfl
    exact (chunks_addChunks path path chunks).trans (if_pos rfl)
  cases hphase : s.phase with
  | idle | indexing | updating =>
    rw [hphase] at ht
    cases ht
  | chunking path =>
    rw [hphase, chunk] at ht
    rw [huphold (.inl hphase)]
    have hpath : s.phase.path = some path := by
      rw [hphase]
      rfl
    cases hfile : chunkFile chunker path (s.files path) with
    | ok chunks =>
      rw [hfile] at ht
      cases ht
      have hkept := hk.addChunks path chunks
      exact ⟨⟨hkept.nodup, hkept.fresh⟩, hadd hpath hfile⟩
    | error error =>
      rw [hfile] at ht
      cases ht
      refine ⟨⟨hk.nodup, hk.fresh⟩, fun hs => ?_⟩
      have hframes : Frames s { s with phase := .idle } path :=
        frames_of_phase hpath (.inl rfl) rfl rfl (fun _ _ => rfl) (fun _ _ => rfl)
      have hne : s.phase ≠ .rechunking path := by
        rw [hphase]
        exact Phase.noConfusion
      refine (mirrors_left_iff hs hframes rfl rfl rfl rfl rfl hne).trans ?_
      exact ⟨fun hcurrent _ => hcurrent, fun hcurrent => hcurrent hphase⟩
  | rechunking path =>
    rw [hphase, chunk] at ht
    rw [huphold (.inr hphase)]
    have hpath := rechunking_path hphase
    cases hfile : chunkFile chunker path (s.files path) with
    | ok chunks =>
      rw [hfile] at ht
      cases ht
      have hkept := hk.addChunks path chunks
      exact ⟨⟨hkept.nodup, hkept.fresh⟩, hadd hpath hfile⟩
    | error error =>
      rw [hfile] at ht
      cases ht
      have hkept := hk.sublist (t := s.removeFileFromIndex path) filter_sublist rfl
      refine ⟨⟨hkept.nodup, hkept.fresh⟩, fun hs => ?_⟩
      have hframes : Frames s { s.removeFileFromIndex path with phase := .indexing path } path := by
        refine frames_of_phase hpath (.inr rfl) rfl rfl
          (fun other hother => ?_) fun other hother => ?_
        · exact (chunks_removeFile path other).trans (if_neg hother)
        · exact update_of_ne hother _ _
      rw [mirrors_removed_iff hs hframes hs.alive ((chunks_removeFile path path).trans (if_pos rfl))
        (update_self ..)]
      refine iff_of_true (fun hpending => absurd (.inr rfl) hpending) fun hother => ?_
      rw [hphase] at hother
      cases hother

theorem update_step (hphase : s.phase = .updating path) (hk : Kept s)
    (ht : update overflowChecks s path found = some t) :
    Kept t ∧ (Mirrors chunker s →
      (Mirrors chunker t ↔ Upholds chunker overflowChecks s (.update found))) := by
  have hpath : s.phase.path = some path := by
    rw [hphase]
    rfl
  have hne : s.phase ≠ .rechunking path := by
    rw [hphase]
    exact Phase.noConfusion
  have huphold : Upholds chunker overflowChecks s (.update found) ↔
      match s.files path with
      | none => Current chunker s path
      | some newContent =>
        match calculateChangeRange ((s.fileContentCache path).getD "") newContent with
        | none => Current chunker s path
        | some (startByte, endByte) => sliceable newContent startByte endByte = true ∧
            (overflowChecks = true → startByte ≠ 0) := by
    constructor
    · exact fun h => h path hphase
    · intro h other hother
      obtain rfl := Phase.updating.inj (hphase.symm.trans hother)
      exact h
  rw [huphold]
  unfold update at ht
  cases hcontent : s.files path with
  | none =>
    rw [hcontent] at ht
    cases ht
    refine ⟨⟨hk.nodup, hk.fresh⟩, fun hs => ?_⟩
    have hframes : Frames s { s with phase := .idle } path :=
      frames_of_phase hpath (.inl rfl) rfl rfl (fun _ _ => rfl) (fun _ _ => rfl)
    exact mirrors_left_iff hs hframes rfl rfl rfl rfl rfl hne
  | some newContent =>
    rw [hcontent] at ht
    dsimp only at ht ⊢
    cases hrange : calculateChangeRange ((s.fileContentCache path).getD "") newContent with
    | none =>
      rw [hrange] at ht
      cases ht
      refine ⟨⟨hk.nodup, hk.fresh⟩, fun hs => ?_⟩
      have hframes : Frames s { s.cache path (some newContent) with phase := .idle } path :=
        frames_of_phase hpath (.inl rfl) rfl rfl (fun _ _ => rfl) (fun _ _ => rfl)
      exact mirrors_left_iff hs hframes rfl rfl rfl rfl rfl hne
    | some range =>
      obtain ⟨startByte, endByte⟩ := range
      rw [hrange] at ht
      dsimp only at ht ⊢
      split at ht
      · rename_i hpanic
        cases ht
        refine ⟨⟨hk.nodup, hk.fresh⟩, fun _ => iff_of_false (fun hmirrors => ?_) fun hsafe => ?_⟩
        · cases hmirrors.alive
        · rw [Bool.or_eq_true, Bool.not_eq_true', Bool.and_eq_true, beq_iff_eq] at hpanic
          rcases hpanic with hslice | ⟨hchecks, hzero⟩
          · rw [hsafe.1] at hslice
            cases hslice
          · exact hsafe.2 hchecks hzero
      · rename_i hsafe
        split at ht
        · rename_i hfinds
          cases ht
          have hfinds : s.Finds path startByte endByte found := hfinds
          have hkept : Kept (s.deletePoints (found.filterMap (·.pointId))) :=
            hk.sublist filter_sublist rfl
          refine ⟨⟨hkept.nodup, hkept.fresh⟩, fun hs => ?_⟩
          have hframes : Frames s { (s.cache path (some newContent)).deletePoints
              (found.filterMap (·.pointId)) with phase := .rechunking path } path := by
            refine frames_of_phase hpath (.inr rfl) rfl rfl (fun other hother => ?_) fun _ _ => rfl
            have hcached : Kept (s.cache path (some newContent)) := ⟨hk.nodup, hk.fresh⟩
            exact chunks_deletePoints hcached hfinds hother
          refine (mirrors_after_iff hs hframes hs.alive).trans (iff_of_true ⟨?_, ?_⟩ ?_)
          · exact fun hpending => absurd (.inr rfl) hpending
          · exact fun hother => absurd rfl hother
          · rw [Bool.or_eq_true, Bool.not_eq_true', Bool.and_eq_true, beq_iff_eq, not_or] at hsafe
            exact ⟨by simpa using hsafe.1, fun hchecks hzero => hsafe.2 ⟨hchecks, hzero⟩⟩
        · cases ht

/-- Of a file that is not supported there are no chunks. -/
theorem chunksOf_unsupported (h : isSupported path = false) (content : Option String) :
    chunksOf chunker path content = [] := by
  cases content with
  | none => rfl
  | some content =>
    rw [chunksOf, chunkFile, h]
    rfl

theorem take_step {kind : EventKind} {queue : List (EventKind × String)}
    (hqueue : s.queue = (kind, path) :: queue) (hidle : s.phase = .idle) (hk : Kept s) :
    Kept (take { s with queue } kind path) ∧ (Mirrors chunker s →
      (Mirrors chunker (take { s with queue } kind path) ↔
        Upholds chunker overflowChecks s .take)) := by
  have huphold : Upholds chunker overflowChecks s .take ↔
      (∃ kind', (kind', path) ∈ queue) ∨ Timely chunker s path kind := by
    constructor
    · exact fun h => h kind path queue hqueue
    · intro h kind' path' queue' hother
      obtain ⟨heq, rfl⟩ := List.cons.inj (hqueue.symm.trans hother)
      obtain ⟨rfl, rfl⟩ := Prod.mk.inj heq
      exact h
  have hne : s.phase ≠ .rechunking path := by
    rw [hidle]
    exact Phase.noConfusion
  -- what a step leaves alone that takes the event and changes this file at most
  have hframes : ∀ {t : State}, t.queue = queue → t.files = s.files →
      (t.phase.path = none ∨ t.phase.path = some path) →
      (∀ other, other ≠ path → t.chunks other = s.chunks other) →
      (∀ other, other ≠ path → t.indexed other = s.indexed other) → Frames s t path := by
    intro t hrest hfiles hafter hchunks hindexed
    refine ⟨hchunks, hindexed, hfiles, fun other hother hwaits => ?_, fun other h => ?_,
      fun other h => ?_⟩
    · obtain ⟨kind', hmem⟩ := hwaits
      rw [hqueue] at hmem
      rcases mem_cons.mp hmem with heq | hmem
      · exact absurd (Prod.mk.inj heq).2 hother
      · exact ⟨kind', hrest ▸ hmem⟩
    · rw [hidle] at h
      cases h
    · rcases hafter with hafter | hafter
      · rw [hafter] at h
        cases h
      · exact some.inj (h.symm.trans hafter)
  have hended : ∀ (t : State) {P : Prop}, t.queue = queue → t.phase = .idle →
      ((¬ Pending t path → P) ↔ (∃ kind', (kind', path) ∈ queue) ∨ P) := by
    intro t P hrest hafter
    have hpending : Pending t path ↔ ∃ kind', (kind', path) ∈ queue := by
      rw [Pending, Waits, hrest, hafter]
      exact or_iff_left fun h => (by cases h)
    rw [hpending]
    exact Classical.or_iff_not_imp_left.symm
  have hbegun : ∀ phase : Phase, phase.path = some path → Mirrors chunker s →
      Mirrors chunker { State.stamp { s with queue } path with phase } := by
    intro phase hphase hs
    have hframe : Frames s { State.stamp { s with queue } path with phase } path :=
      hframes rfl rfl (.inr hphase) (fun _ _ => rfl) fun _ _ => rfl
    refine (mirrors_same_iff hs hframe hs.alive rfl rfl hne).mpr fun hpending => ?_
    exact absurd (.inr hphase) hpending
  rw [huphold]
  unfold take
  split
  · cases kind with
    | remove =>
      have hkept := hk.sublist (t := s.removeFileFromIndex path) filter_sublist rfl
      refine ⟨⟨hkept.nodup, hkept.fresh⟩, fun hs => ?_⟩
      have hframe : Frames s (State.removeFileFromIndex { s with queue } path) path := by
        refine hframes rfl rfl (.inl (hidle ▸ rfl)) (fun other hother => ?_) fun other hother => ?_
        · exact (chunks_removeFile path other).trans (if_neg hother)
        · exact update_of_ne hother _ _
      refine (mirrors_removed_iff hs hframe hs.alive
        ((chunks_removeFile path path).trans (if_pos rfl))
        (update_self ..)).trans ?_
      exact hended _ rfl hidle
    | create | modify =>
      dsimp only
      split
      · rename_i hdebounced
        refine ⟨⟨hk.nodup, hk.fresh⟩, fun hs => ?_⟩
        have hframe : Frames s (State.stamp { s with queue } path) path :=
          hframes rfl rfl (.inl (hidle ▸ rfl)) (fun _ _ => rfl) fun _ _ => rfl
        have hcurrent := hended (State.stamp { s with queue } path)
          (P := (chunksOf chunker path (s.indexed path)).Perm
            (chunksOf chunker path (s.files path)))
          rfl hidle
        refine (mirrors_same_iff hs hframe hs.alive rfl rfl hne).trans (hcurrent.trans ?_)
        exact or_congr_right ⟨fun h _ => h, fun h => h hdebounced⟩
      · rename_i hdebounced
        refine ⟨⟨hk.nodup, hk.fresh⟩, fun hs => iff_of_true (hbegun _ rfl hs) (.inr fun h => ?_)⟩
        exact absurd h hdebounced
  · rename_i hunsupported
    rw [Bool.not_eq_true] at hunsupported
    refine ⟨⟨hk.nodup, hk.fresh⟩, fun hs => ?_⟩
    have hframe : Frames s { s with queue } path :=
      hframes rfl rfl (.inl (hidle ▸ rfl)) (fun _ _ => rfl) fun _ _ => rfl
    rw [mirrors_same_iff hs hframe hs.alive rfl rfl hne]
    simp only [chunksOf_unsupported hunsupported]
    refine iff_of_true (fun _ => .refl _) (.inr ?_)
    cases kind with
    | remove => exact chunksOf_unsupported hunsupported _
    | create | modify =>
      intro _
      rw [chunksOf_unsupported hunsupported, chunksOf_unsupported hunsupported]

/-- A step keeps the index a mirror exactly where it upholds it. -/
theorem step_mirrors_iff {a : Action} (hk : Kept s)
    (ht : step chunker overflowChecks s a = some t) :
    Kept t ∧ (Mirrors chunker s → (Mirrors chunker t ↔ Upholds chunker overflowChecks s a)) := by
  have hfree : Kept t → (Mirrors chunker s → Mirrors chunker t) →
    Upholds chunker overflowChecks s a →
      Kept t ∧ (Mirrors chunker s → (Mirrors chunker t ↔ Upholds chunker overflowChecks s a)) :=
    fun hkept hmirrors huphold => ⟨hkept, fun hs => iff_of_true (hmirrors hs) huphold⟩
  cases a with
  | tick milliseconds =>
    cases ht
    exact hfree ⟨hk.nodup, hk.fresh⟩ (fun hs => ⟨hs.alive, hs.settled, hs.made⟩) trivial
  | change c =>
    cases ht
    refine hfree ?_ (fun hs => apply_mirrors hs c) trivial
    cases c with
    | create | modify | remove | rename => exact ⟨hk.nodup, hk.fresh⟩
  | report kind path =>
    cases ht
    exact hfree ⟨hk.nodup, hk.fresh⟩ (fun hs => notify_mirrors hs _) trivial
  | take =>
    unfold step at ht
    dsimp only at ht
    split at ht
    · rename_i kind path queue hqueue hidle
      split at ht
      · cases ht
        exact take_step hqueue hidle hk
      · cases ht
    · cases ht
  | index =>
    unfold step at ht
    dsimp only at ht
    split at ht
    · rename_i path hphase
      cases ht
      exact index_step hphase hk
    · cases ht
  | update found =>
    unfold step at ht
    dsimp only at ht
    split at ht
    · rename_i path hphase
      exact update_step hphase hk ht
    · cases ht
  | chunk => exact chunk_step hk ht

/-- Of files with names of their own, those of one name. -/
theorem flatMap_of_name {files : List (String × String)} (hnodup : (files.map (·.1)).Nodup)
    (path : String) (g : String × String → List Chunk) :
    ((files.flatMap fun file => (g file).map fun chunk => (file.1, chunk)).filter
      fun entry => entry.1 == path).map (·.2) =
        ((files.find? fun file => file.1 == path).map g).getD [] := by
  have hself : ∀ file : String × String, (((g file).map fun chunk => (file.1, chunk)).filter
      fun entry => entry.1 == path).map (·.2) = if file.1 = path then g file else [] := by
    intro file
    by_cases h : file.1 = path
    · rw [if_pos h, List.filter_eq_self.mpr (by simp [h]), List.map_map]
      exact List.map_id _
    · rw [if_neg h, List.filter_eq_nil_iff.mpr (by simp [h]), List.map_nil]
  induction files with
  | nil => rfl
  | cons file files ih =>
    obtain ⟨hnew, hrest⟩ := List.nodup_cons.mp hnodup
    rw [List.flatMap_cons, List.filter_append, List.map_append, hself, ih hrest]
    by_cases h : file.1 = path
    · have hnone : (files.find? fun file => file.1 == path) = none := by
        refine List.find?_eq_none.mpr fun other hother hname => hnew ?_
        exact List.mem_map.mpr ⟨other, hother, (beq_iff_eq.mp hname).trans h.symm⟩
      rw [if_pos h, hnone, List.find?_cons_of_pos (by simp [h])]
      exact List.append_nil _
    · rw [if_neg h, List.find?_cons_of_neg (by simp [h])]
      rfl

section Start

variable {files : List (String × String)}

theorem start_chunks (hnodup : (files.map (·.1)).Nodup) (path : String) :
    (State.start chunker files).chunks path =
      chunksOf chunker path ((State.start chunker files).indexed path) := by
  have hkept : ((files.filter fun file => !isIgnored file.1).map (·.1)).Nodup :=
    (filter_sublist.map _).nodup hnodup
  have hchunks : (State.start chunker files).chunks path =
      (((files.filter fun file => !isIgnored file.1).find? fun file => file.1 == path).map
        fun file => chunksOf chunker file.1 (some file.2)).getD [] := by
    rw [← flatMap_of_name hkept path, State.chunks, State.points]
    exact chunks_numbered _ _ _ _
  have hindexed : (State.start chunker files).indexed path =
      ((files.filter fun file => !isIgnored file.1).find? fun file => file.1 == path).map
        (·.2) := by
    rw [find?_filter, State.start]
    refine congrArg (Option.map _) (congrArg (fun p => files.find? p) (funext fun file => ?_))
    by_cases h : file.1 = path <;> simp [h]
  rw [hchunks, hindexed]
  cases hfile : (files.filter fun file => !isIgnored file.1).find? fun file => file.1 == path with
  | none => rfl
  | some file =>
    obtain rfl := beq_iff_eq.mp
        (find?_some (p := fun file : String × String => file.1 == path) hfile)
    rfl

/-- What the ingestion has left out has no chunks. -/
theorem start_mirrors (hnodup : (files.map (·.1)).Nodup)
    (hignored : ∀ file ∈ files, isIgnored file.1 = true →
      chunksOf chunker file.1 (some file.2) = []) :
    Mirrors chunker (State.start chunker files) := by
  refine ⟨rfl, fun path _ => ?_, fun path _ => start_chunks hnodup path ▸ .refl _⟩
  rw [start_chunks hnodup path]
  by_cases h : isIgnored path = true
  · have hindexed : (State.start chunker files).indexed path = none := by
      rw [State.start, map_eq_none_iff, find?_eq_none]
      intro file _ hfile
      rw [h, Bool.not_true, Bool.and_false] at hfile
      cases hfile
    rw [hindexed]
    cases hfile : files.find? fun file => file.1 == path with
    | none =>
      have hnone : (State.start chunker files).files path = none := by
        simp only [State.start, hfile, map_none]
      rw [hnone]
    | some file =>
      obtain rfl := beq_iff_eq.mp
        (find?_some (p := fun file : String × String => file.1 == path) hfile)
      have hsome : (State.start chunker files).files file.1 = some file.2 := by
        simp only [State.start, hfile, map_some]
      rw [hsome, hignored file (mem_of_find?_eq_some hfile) h]
      exact .refl _
  · have hsame : (State.start chunker files).indexed path =
      (State.start chunker files).files path := by
      rw [Bool.not_eq_true] at h
      simp only [State.start, h, Bool.not_false, Bool.and_true]
    rw [hsame]

theorem start_kept : Kept (State.start chunker files) where
  nodup := nodup_numbered (fun _ _ => PointId.num.inj) _ _
  fresh point hpoint i hid := by
    obtain ⟨j, -, -, hj⟩ := mem_numbered hpoint
    cases hj.symm.trans hid

end Start

/-- Whatever happens to the files, and whatever the chunker makes of them, the index mirrors the
files in every state of a run if and only if every step of the run upholds it. -/
theorem index_mirrors_iff {files : List (String × String)} (hnodup : (files.map (·.1)).Nodup)
    (hignored : ∀ file ∈ files, isIgnored file.1 = true →
      chunksOf chunker file.1 (some file.2) = [])
    {actions : List Action}
    (hrun : run (step chunker overflowChecks) (State.start chunker files) actions = some t) :
    Throughout (step chunker overflowChecks) (Mirrors chunker) (State.start chunker files) actions ↔
      Steps (step chunker overflowChecks) (Upholds chunker overflowChecks)
        (State.start chunker files) actions t :=
  throughout_iff_steps (fun _ _ _ ht hk => (step_mirrors_iff hk ht).1)
    (fun _ _ _ hk ht hs => (step_mirrors_iff hk ht).2 hs) hrun start_kept
    (start_mirrors hnodup hignored)

end Runs

/-- One chunk for an assignment. -/
def assignment (_path content : String) : Except String (List Chunk) :=
  .ok [⟨"expression_group", 0, (bytes content).length, content⟩]

/-- A chunk for each of two functions, of ten bytes each. -/
def twoFunctions (_path content : String) : Except String (List Chunk) :=
  .ok [⟨"function_definition", 0, 10, String.ofList (content.toList.take 10)⟩,
    ⟨"function_definition", 11, 21, String.ofList (content.toList.drop 11)⟩]

/-- A file is written and indexed. -/
def written (content : String) : List Action :=
  [.change (.create "a.py" content), .take, .index, .chunk]

/-- A file is written, changed when the delay is over, and removed. -/
def rewritten : List Action :=
  written "x = 1" ++ [.tick 1000, .change (.modify "a.py" "x = 2"), .take,
    .update [⟨.uuid 0, "a.py", ⟨"expression_group", 0, 5, "x = 1"⟩⟩], .chunk,
    .change (.remove "a.py"), .take]

def Upheld (s : State) (actions : List Action) : Prop :=
  ∃ t, Steps (step assignment true) (Upholds assignment true) s actions t

theorem goes {s u : State} {a : Action} {actions : List Action} (ha : Upholds assignment true s a)
    (hu : step assignment true s a = some u) (hrest : Upheld u actions) :
    Upheld s (a :: actions) := by
  obtain ⟨t, hrest⟩ := hrest
  exact ⟨t, .head ha hu hrest⟩

theorem index_mirrors_rewritten : ∃ t,
    run (step assignment true) (State.start assignment []) rewritten = some t ∧
    Throughout (step assignment true) (Mirrors assignment)
      (State.start assignment []) rewritten := by
  have hupheld : Upheld (State.start assignment []) rewritten := by
    refine goes trivial rfl (goes (fun kind path queue hqueue => ?_) rfl
      (goes (fun path hphase => ?_) rfl
      (goes (fun path hphase => ?_) rfl (goes trivial rfl (goes trivial rfl
        (goes (fun kind path queue hqueue => ?_) rfl (goes (fun path hphase => ?_) rfl
          (goes (fun path hphase => ?_) rfl (goes trivial rfl
            (goes (fun kind path queue hqueue => ?_) rfl ⟨_, .refl _⟩))))))))))
    · cases hqueue
      exact .inr fun h => (by cases h)
    · cases hphase
      intro h
      cases h
    · rcases hphase with hphase | hphase
      · cases hphase
        rfl
      · cases hphase
    · cases hqueue
      exact .inr fun h => (by cases h)
    · cases hphase
      exact ⟨rfl, fun _ h => (by cases h)⟩
    · rcases hphase with hphase | hphase
      · cases hphase
      · cases hphase
        rfl
    · cases hqueue
      exact .inr rfl
  obtain ⟨t, hsteps⟩ := hupheld
  have hnodup : (([] : List (String × String)).map (·.1)).Nodup := nodup_nil
  exact ⟨t, hsteps.run_eq, (index_mirrors_iff hnodup (fun _ h => (by cases h)) hsteps.run_eq).mpr
    hsteps⟩

theorem not_pending {s : State} {path : String} (hqueue : s.queue = []) (hphase : s.phase = .idle) :
    ¬ Pending s path := by
  rintro (⟨kind, hkind⟩ | h)
  · rw [hqueue] at hkind
    cases hkind
  · rw [hphase] at h
    cases h

/-- A file of the ingestion is doubled when it changes, or ends the watcher; a change within the
delay is lost; a chunk that a change does not reach is doubled; and a renamed file stays. -/
theorem index_differs :
    (∃ t, run (step assignment false) (State.start assignment [("a.py", "x = 1")])
        [.change (.modify "a.py" "x = 2"), .take, .update [], .chunk] = some t ∧
      ¬ Mirrors assignment t) ∧
    (∃ t, run (step assignment true) (State.start assignment [("a.py", "x = 1")])
        [.change (.modify "a.py" "x = 2"), .take, .update []] = some t ∧ ¬ Mirrors assignment t) ∧
    (∃ t, run (step assignment true) (State.start assignment [])
        (written "x = 1" ++ [.tick 10, .change (.modify "a.py" "x = 2"), .take]) = some t ∧
      ¬ Mirrors assignment t) ∧
    (∃ t, run (step twoFunctions true) (State.start twoFunctions [])
        (written "def f(): 1\ndef g(): 2" ++ [.tick 1000,
          .change (.modify "a.py" "def f(): 1\ndef g(): 3"), .take,
          .update [⟨.uuid 1, "a.py", ⟨"function_definition", 11, 21, "def g(): 2"⟩⟩],
            .chunk]) = some t ∧
      ¬ Mirrors twoFunctions t) ∧
    ∃ t, run (step assignment false) (State.start assignment [])
        (written "x = 1" ++ [.tick 1000, .change (.rename "a.py" "b.py"), .take, .update [], .take,
          .update [], .chunk]) = some t ∧ ¬ Mirrors assignment t := by
  refine ⟨⟨_, rfl, fun h => ?_⟩, ⟨_, rfl, fun h => ?_⟩, ⟨_, rfl, fun h => ?_⟩,
    ⟨_, rfl, fun h => ?_⟩,
    ⟨_, rfl, fun h => ?_⟩⟩
  · have hlength := (h.settled "a.py" (not_pending rfl rfl)).length_eq
    exact absurd hlength (by decide)
  · cases h.alive
  · have hsame := perm_singleton.mp (h.settled "a.py" (not_pending rfl rfl))
    exact absurd hsame (by decide)
  · have hlength := (h.settled "a.py" (not_pending rfl rfl)).length_eq
    exact absurd hlength (by decide)
  · have hlength := (h.settled "a.py" (not_pending rfl rfl)).length_eq
    exact absurd hlength (by decide)

end ColossalCode.Semantic
