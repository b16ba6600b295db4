import ColossalCode.Semantic.Watcher

/-! The range of a change: what two contents have in common before and after it, and what is done
with it. -/
namespace ColossalCode.Semantic
open List

/-- The two lists do not begin with the same element. -/
def Apart {α : Type} (first second : List α) : Prop :=
  ∀ c, first.head? = some c → second.head? ≠ some c

/-- What is common to two contents at the start and after that at the end, and what is not. -/
structure Parts (old new before oldPart newPart after : List UInt8) : Prop where
  old_eq : old = before ++ oldPart ++ after
  new_eq : new = before ++ newPart ++ after
  starts : Apart (oldPart ++ after) (newPart ++ after)
  ends : Apart oldPart.reverse newPart.reverse

variable {old new before oldPart newPart after u v : List UInt8}

theorem exists_common_start {α : Type} (old new : List α) :
    ∃ before u v, old = before ++ u ∧ new = before ++ v ∧ Apart u v := by
  induction old generalizing new with
  | nil => exact ⟨[], [], new, rfl, rfl, by simp [Apart]⟩
  | cons c old ih =>
    cases new with
    | nil => exact ⟨[], c :: old, [], rfl, rfl, by simp [Apart]⟩
    | cons d new =>
      by_cases hcd : c = d
      · subst hcd
        obtain ⟨before, u, v, rfl, rfl, hapart⟩ := ih new
        exact ⟨c :: before, u, v, rfl, rfl, hapart⟩
      · exact ⟨[], c :: old, d :: new, rfl, rfl, by simp [Apart, Ne.symm hcd]⟩

theorem exists_parts (old new : List UInt8) :
    ∃ before oldPart newPart after, Parts old new before oldPart newPart after := by
  obtain ⟨before, u, v, rfl, rfl, hstarts⟩ := exists_common_start old new
  obtain ⟨after, a, b, hu, hv, hends⟩ := exists_common_start u.reverse v.reverse
  have hu' : u = a.reverse ++ after.reverse := by
    rw [← reverse_append, ← hu, reverse_reverse]
  have hv' : v = b.reverse ++ after.reverse := by
    rw [← reverse_append, ← hv, reverse_reverse]
  subst hu' hv'
  exact ⟨before, a.reverse, b.reverse, after.reverse, by simp, by simp, hstarts, by simpa using hends⟩

theorem firstDiff_append (h : Apart u v) : firstDiff (before ++ u) (before ++ v) = before.length := by
  induction before with
  | nil =>
    cases u with
    | nil => rfl
    | cons c u =>
      cases v with
      | nil => rfl
      | cons d v =>
        have hne : c ≠ d := fun hcd => h c rfl (by rw [hcd]; rfl)
        simp [firstDiff, hne]
  | cons c before ih => simp [firstDiff, ih]

theorem getElem?_after (front : List UInt8) (n : Nat) :
    (front ++ after)[front.length + n]? = after[n]? := by
  rw [List.getElem?_append_right (by omega), Nat.add_sub_cancel_left]

/-- From behind, the loop goes over what the contents have in common. -/
theorem lastDiff_after (h : Parts old new before oldPart newPart after) {n : Nat}
    (hn : n ≤ after.length) :
    lastDiff old new before.length (before.length + oldPart.length + n)
        (before.length + newPart.length + n) =
      lastDiff old new before.length (before.length + oldPart.length)
        (before.length + newPart.length) := by
  induction n with
  | zero => rfl
  | succ n ih =>
    have hsame : old[before.length + oldPart.length + n]? =
        new[before.length + newPart.length + n]? := by
      rw [h.old_eq, h.new_eq, ← length_append, ← length_append, getElem?_after,
        getElem?_after]
    rw [← ih (by omega), ← Nat.add_assoc, ← Nat.add_assoc, lastDiff, if_pos (by omega),
      if_neg (not_not_intro hsame)]

theorem lastDiff_stop {start endOld endNew : Nat} (h : endOld ≤ start ∨ endNew ≤ start) :
    lastDiff old new start endOld endNew = (endOld, endNew) := by
  cases endOld with
  | zero => rfl
  | succ endOld =>
    cases endNew with
    | zero => rfl
    | succ endNew => rw [lastDiff, if_neg (by omega)]

theorem Parts.lengths (h : Parts old new before oldPart newPart after) :
    old.length = before.length + oldPart.length + after.length ∧
      new.length = before.length + newPart.length + after.length := by
  constructor
  · rw [h.old_eq, length_append, length_append]
  · rw [h.new_eq, length_append, length_append]

theorem lastDiff_parts (h : Parts old new before oldPart newPart after) :
    lastDiff old new before.length old.length new.length =
      (before.length + oldPart.length, before.length + newPart.length) := by
  obtain ⟨hold, hnew⟩ := h.lengths
  rw [hold, hnew, lastDiff_after h (Nat.le_refl _)]
  rcases eq_nil_or_concat oldPart with rfl | ⟨olds, c, rfl⟩
  · exact lastDiff_stop (.inl (by simp))
  · rcases eq_nil_or_concat newPart with rfl | ⟨news, d, rfl⟩
    · exact lastDiff_stop (.inr (by simp))
    · have hne : c ≠ d := by
        rintro rfl
        exact h.ends c (by simp) (by simp)
      have hlastOld : old[before.length + olds.length]? = some c := by
        simp [h.old_eq]
      have hlastNew : new[before.length + news.length]? = some d := by
        simp [h.new_eq]
      simp only [concat_eq_append, length_append, length_singleton, ← Nat.add_assoc]
      rw [lastDiff, if_pos (by omega), hlastOld, hlastNew, if_pos (by simpa using hne)]

/-- Contents without differing parts are the same. -/
theorem Parts.after_eq_nil (h : Parts old new before [] [] after) : after = [] := by
  cases after with
  | nil => rfl
  | cons c after => exact absurd rfl (h.starts c rfl)

variable {oldContent newContent : String}

/-- The range is that of the differing parts, or goes to the end where one of them is empty. -/
theorem calculateChangeRange_parts
    (h : Parts (bytes oldContent) (bytes newContent) before oldPart newPart after) :
    calculateChangeRange oldContent newContent =
      if oldPart = [] ∧ newPart = [] then none
      else if oldPart = [] ∨ newPart = [] then
        some (before.length, max (bytes oldContent).length (bytes newContent).length)
      else some (before.length, before.length + max oldPart.length newPart.length) := by
  have hfirst : firstDiff (bytes oldContent) (bytes newContent) = before.length := by
    rw [h.old_eq, h.new_eq, append_assoc, append_assoc, firstDiff_append h.starts]
  obtain ⟨hold, hnew⟩ := h.lengths
  have hsame : (before.length = (bytes oldContent).length ∧
      before.length = (bytes newContent).length) ↔ oldPart = [] ∧ newPart = [] := by
    rw [hold, hnew, ← length_eq_zero_iff (l := oldPart), ← length_eq_zero_iff (l := newPart)]
    constructor
    · omega
    · rintro ⟨hempty, hempty'⟩
      rw [length_eq_zero_iff] at hempty hempty'
      subst hempty hempty'
      rw [h.after_eq_nil]
      exact ⟨rfl, rfl⟩
  have hends : (before.length + oldPart.length = before.length ∨
      before.length + newPart.length = before.length) ↔ oldPart = [] ∨ newPart = [] := by
    rw [← length_eq_zero_iff (l := oldPart), ← length_eq_zero_iff (l := newPart)]
    omega
  have hmax : max (before.length + oldPart.length) (before.length + newPart.length) =
      before.length + max oldPart.length newPart.length := by omega
  unfold calculateChangeRange
  dsimp only
  rw [hfirst, lastDiff_parts h]
  simp only [hsame, hends, hmax]

theorem bytes_inj :
    bytes oldContent = bytes newContent ↔ oldContent = newContent := by
  constructor
  · intro h
    have hread := congrArg Text.fromUtf8Lossy h
    rw [bytes, bytes, Text.fromUtf8Lossy_utf8, Text.fromUtf8Lossy_utf8] at hread
    exact String.toList_inj.mp hread
  · intro h
    rw [h]

/-- `find_affected_chunks`, where an underflow of `start_byte - 1` is an error. -/
def findAffectedChunks (startByte endByte : Nat) (chunks : List Chunk) : Option (List Chunk) :=
  if startByte = 0 then none else some (chunks.filter (·.affected startByte endByte))

/-- The contents are the same before the range and after it; the range ends in the longer one. -/
def Covers (old new : List UInt8) (startByte endByte : Nat) : Prop :=
  ∃ before oldPart newPart after, old = before ++ oldPart ++ after ∧
    new = before ++ newPart ++ after ∧ startByte = before.length ∧
    endByte = before.length + max oldPart.length newPart.length

structure Safe (oldContent newContent : String) : Prop where
  unchanged : calculateChangeRange oldContent newContent = none ↔ oldContent = newContent
  covers : ∀ startByte endByte,
    calculateChangeRange oldContent newContent = some (startByte, endByte) →
      Covers (bytes oldContent) (bytes newContent) startByte endByte
  slices : ∀ startByte endByte,
    calculateChangeRange oldContent newContent = some (startByte, endByte) →
      sliceable newContent startByte endByte = true
  searches : ∀ startByte endByte chunks,
    calculateChangeRange oldContent newContent = some (startByte, endByte) →
      (findAffectedChunks startByte endByte chunks).isSome = true

/-- The contents have a common start that ends between characters of the new one, and the end of
the longer differing part is between characters of it too. -/
def Aligned (new before oldPart newPart : List UInt8) : Prop :=
  before ≠ [] ∧ isCharBoundary new before.length = true ∧
    (oldPart ≠ [] → newPart ≠ [] → isCharBoundary new
      (min (before.length + max oldPart.length newPart.length) new.length) = true)

theorem Parts.unchanged_iff (h : Parts old new before oldPart newPart after) :
    old = new ↔ oldPart = [] ∧ newPart = [] := by
  constructor
  · intro heq
    rw [h.old_eq, h.new_eq, append_assoc, append_assoc, append_cancel_left_eq] at heq
    have hstarts := h.starts
    rw [heq] at hstarts
    have hempty : newPart ++ after = [] := by
      cases hnew : newPart ++ after with
      | nil => rfl
      | cons c rest =>
        rw [hnew] at hstarts
        exact absurd rfl (hstarts c rfl)
    rw [hempty] at heq
    exact ⟨(append_eq_nil_iff.mp heq).1, (append_eq_nil_iff.mp hempty).1⟩
  · rintro ⟨rfl, rfl⟩
    rw [h.old_eq, h.new_eq]

theorem isCharBoundary_length (content : List UInt8) :
    isCharBoundary content content.length = true := by
  simp [isCharBoundary]

section Changed

variable {startByte endByte : Nat}

theorem Parts.covers (h : Parts (bytes oldContent) (bytes newContent) before oldPart newPart after)
    (hrange : calculateChangeRange oldContent newContent = some (startByte, endByte)) :
    Covers (bytes oldContent) (bytes newContent) startByte endByte := by
  obtain ⟨hold, hnew⟩ := h.lengths
  rw [calculateChangeRange_parts h] at hrange
  split at hrange
  · cases hrange
  · split at hrange
    · cases hrange
      refine ⟨before, oldPart ++ after, newPart ++ after, [], ?_, ?_, rfl, ?_⟩
      · rw [h.old_eq, append_nil, append_assoc]
      · rw [h.new_eq, append_nil, append_assoc]
      · rw [hold, hnew, length_append, length_append]
        omega
    · cases hrange
      exact ⟨before, oldPart, newPart, after, h.old_eq, h.new_eq, rfl, rfl⟩

theorem Parts.slices_iff (h : Parts (bytes oldContent) (bytes newContent) before oldPart newPart after)
    (hrange : calculateChangeRange oldContent newContent = some (startByte, endByte)) :
    sliceable newContent startByte endByte = true ↔
      isCharBoundary (bytes newContent) before.length = true ∧
        (oldPart ≠ [] → newPart ≠ [] → isCharBoundary (bytes newContent)
          (min (before.length + max oldPart.length newPart.length)
            (bytes newContent).length) = true) := by
  obtain ⟨hold, hnew⟩ := h.lengths
  rw [calculateChangeRange_parts h] at hrange
  split at hrange
  · cases hrange
  · split at hrange
    · rename_i hone
      cases hrange
      have hend : min (max (bytes oldContent).length (bytes newContent).length)
          (bytes newContent).length = (bytes newContent).length := by omega
      have hvacuous : oldPart ≠ [] → ¬ newPart ≠ [] := fun hold hnew => by
        rcases hone with hempty | hempty
        · exact hold hempty
        · exact hnew hempty
      have hle : before.length ≤ (bytes newContent).length := by omega
      simp only [sliceable, hend, isCharBoundary_length, Bool.and_true, Bool.and_eq_true,
        decide_eq_true_eq, hle, and_true]
      exact ⟨fun hstart => ⟨hstart, fun hold hnew => absurd hnew (hvacuous hold)⟩, And.left⟩
    · rename_i hboth
      cases hrange
      rw [not_or] at hboth
      have hle : before.length ≤ min (before.length + max oldPart.length newPart.length)
          (bytes newContent).length := by omega
      simp only [sliceable, Bool.and_eq_true, decide_eq_true_eq, hle, and_true]
      exact and_congr_right' ⟨fun hend _ _ => hend, fun hend => hend hboth.1 hboth.2⟩

theorem Parts.safe_iff (h : Parts (bytes oldContent) (bytes newContent) before oldPart newPart after)
    (hne : oldContent ≠ newContent) :
    Safe oldContent newContent ↔ Aligned (bytes newContent) before oldPart newPart := by
  have hdiffer : ¬ (oldPart = [] ∧ newPart = []) := by
    rwa [← h.unchanged_iff, bytes_inj]
  obtain ⟨endByte, hrange⟩ : ∃ endByte,
      calculateChangeRange oldContent newContent = some (before.length, endByte) := by
    rw [calculateChangeRange_parts h, if_neg hdiffer]
    split <;> exact ⟨_, rfl⟩
  constructor
  · intro hsafe
    obtain ⟨hstart, hend⟩ := (h.slices_iff hrange).mp (hsafe.slices _ _ hrange)
    refine ⟨?_, hstart, hend⟩
    rintro rfl
    have hsearch : (findAffectedChunks 0 endByte []).isSome = true := hsafe.searches _ _ [] hrange
    cases hsearch
  · rintro ⟨hbefore, hstart, hend⟩
    refine ⟨?_, fun _ _ => h.covers, fun _ _ hrange => (h.slices_iff hrange).mpr ⟨hstart, hend⟩, ?_⟩
    · rw [hrange]
      exact iff_of_false (by simp) hne
    · intro startByte endByte chunks hrange'
      obtain ⟨rfl, rfl⟩ := Prod.mk.inj (Option.some.inj (hrange.symm.trans hrange'))
      rw [findAffectedChunks, if_neg (by simpa using hbefore)]
      rfl

end Changed

/-- The range of a change is safe if the contents have a common start, and the places where they
begin to differ and where the longer differing part ends do not cut a character of the new one. -/
theorem change_range_safe_iff (oldContent newContent : String) :
    Safe oldContent newContent ↔ oldContent = newContent ∨
      ∃ before oldPart newPart after,
        Parts (bytes oldContent) (bytes newContent) before oldPart newPart after ∧
          Aligned (bytes newContent) before oldPart newPart := by
  obtain ⟨before, oldPart, newPart, after, hparts⟩ := exists_parts (bytes oldContent) (bytes newContent)
  by_cases hsame : oldContent = newContent
  · refine iff_of_true ?_ (.inl hsame)
    have hempty := hparts.unchanged_iff.mp (bytes_inj.mpr hsame)
    have hrange : calculateChangeRange oldContent newContent = none := by
      rw [calculateChangeRange_parts hparts, if_pos hempty]
    exact ⟨iff_of_true hrange hsame, by simp [hrange], by simp [hrange], by simp [hrange]⟩
  · rw [or_iff_right hsame]
    constructor
    · intro hsafe
      exact ⟨before, oldPart, newPart, after, hparts, (hparts.safe_iff hsame).mp hsafe⟩
    · rintro ⟨before, oldPart, newPart, after, hparts, haligned⟩
      exact (hparts.safe_iff hsame).mpr haligned

/-- The start of a file is changed, and a character is changed in its second byte. -/
theorem change_at_start_underflows :
    (calculateChangeRange "a" "b" = some (0, 1) ∧ findAffectedChunks 0 1 [] = none ∧
      ¬ Safe "a" "b") ∧
      calculateChangeRange "xé" "xè" = some (2, 3) ∧ sliceable "xè" 2 3 = false := by
  refine ⟨⟨by decide, rfl, fun h => ?_⟩, by decide, by decide⟩
  have hsearch := h.searches 0 1 [] (by decide)
  cases hsearch

end ColossalCode.Semantic
