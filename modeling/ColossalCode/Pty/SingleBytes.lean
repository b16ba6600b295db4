import Mathlib.Data.List.Chain
import ColossalCode.Backend.Utf8

/-! Text whose bytes are characters of their own: the text that can be cut anywhere. -/
namespace Text
open List Option

variable {bytes rest : List UInt8} {b c : UInt8} {u : Unfinished}

/-- A byte decoded with nothing around it. -/
def byteChar (b : UInt8) : Char := if b.toNat < 0x80 then Char.ofNat b.toNat else replacement

theorem fromUtf8Lossy_byte (b : UInt8) : fromUtf8Lossy [b] = [byteChar b] := by
  unfold fromUtf8Lossy
  rw [decodeLossy, decodeStart, byteChar]
  split
  · rfl
  · cases lead b.toNat with
    | none => rfl
    | some u => rfl

/-- Decoding makes no more characters than there are bytes; what has begun counts as one. -/
theorem length_decodeLossy (u : Option Unfinished) (bytes : List UInt8) :
    (decodeLossy u bytes).length ≤ bytes.length + u.toList.length := by
  have hstart : ∀ b : UInt8, (decodeStart b).1.length + (decodeStart b).2.toList.length = 1 := by
    intro b
    unfold decodeStart
    split
    · rfl
    · cases lead b.toNat with
      | none => rfl
      | some u => rfl
  induction bytes generalizing u with
  | nil => cases u <;> simp [decodeLossy]
  | cons b bytes ih =>
    have hb := hstart b
    have hrest := ih (decodeStart b).2
    cases u with
    | none =>
      rw [decodeLossy, length_append, length_cons]
      simp only [toList_none, length_nil]
      omega
    | some u =>
      rw [decodeLossy]
      simp only [toList_some, length_cons, length_nil]
      split
      · have hdone := ih none
        simp only [toList_none, length_nil] at hdone
        split
        · rw [length_cons]
          omega
        · have hmore := ih (some ⟨u.bits * 64 + (b.toNat - 0x80), u.needs - 1, 0x80,
            0xBF, by decide⟩)
          simp only [toList_some, length_cons, length_nil] at hmore
          omega
      · rw [length_cons, length_append]
        omega

/-- The bytes below 0x80 are all found again. -/
theorem ascii_sublist (u : Option Unfinished) (bytes : List UInt8) :
    ((bytes.filter fun b => b.toNat < 0x80).map byteChar).Sublist (decodeLossy u bytes) := by
  induction bytes generalizing u with
  | nil => exact nil_sublist _
  | cons b bytes ih =>
    by_cases hb : b.toNat < 0x80
    · have hsplit := decodeLossy_ascii (u := u) hb [] bytes
      rw [nil_append] at hsplit
      have hchar : byteChar b = Char.ofNat b.toNat := if_pos hb
      rw [filter_cons_of_pos (by simpa using hb), map_cons, hsplit, hchar]
      exact ((ih none).cons_cons _).trans (sublist_append_right _ _)
    · rw [filter_cons_of_neg (by simpa using hb)]
      have htail : ∀ v, ((bytes.filter fun b => b.toNat < 0x80).map byteChar).Sublist
          ((decodeStart b).1 ++ decodeLossy v bytes) := fun v =>
        (ih v).trans (sublist_append_right _ _)
      cases u with
      | none => exact htail _
      | some u =>
        rw [decodeLossy]
        split
        · dsimp only
          split
          · exact (ih none).trans (sublist_cons_self _ _)
          · exact ih _
        · exact (htail _).trans (sublist_cons_self _ _)

/-- Whether `c` goes on with the character that `b` has begun. -/
def joins (b c : UInt8) : Bool :=
  match (decodeStart b).2 with
  | none => false
  | some u => u.low ≤ c.toNat && c.toNat ≤ u.high

/-- No byte goes on with the character of the one before. -/
def Apart (bytes : List UInt8) : Prop := bytes.IsChain fun b c => joins b c = false

/-- A byte is a character, or it begins one. -/
theorem decodeStart_cases (b : UInt8) :
    (decodeStart b = ([byteChar b], none) ∧ ∀ c, joins b c = false) ∨
      ∃ u : Unfinished, decodeStart b = ([], some u) ∧ byteChar b = replacement ∧
        ∀ c, joins b c = (u.low ≤ c.toNat && c.toNat ≤ u.high) := by
  unfold joins
  by_cases hb : b.toNat < 0x80
  · left
    have hstart : decodeStart b = ([byteChar b], none) := by
      rw [decodeStart, byteChar, if_pos hb, if_pos hb]
    rw [hstart]
    exact ⟨rfl, fun _ => rfl⟩
  · have hchar : byteChar b = replacement := if_neg hb
    cases hlead : lead b.toNat with
    | none =>
      have hstart : decodeStart b = ([replacement], none) := by
        rw [decodeStart, if_neg hb, hlead]
      left
      rw [hstart, hchar]
      exact ⟨rfl, fun _ => rfl⟩
    | some u =>
      have hstart : decodeStart b = ([], some u) := by
        rw [decodeStart, if_neg hb, hlead]
      right
      rw [hstart]
      exact ⟨u, rfl, hchar, fun _ => rfl⟩

theorem decodeLossy_cut (hc : (u.low ≤ c.toNat && c.toNat ≤ u.high) = false) :
    decodeLossy (some u) (c :: bytes) = replacement :: decodeLossy none (c :: bytes) := by
  simp only [decodeLossy, hc, Bool.false_eq_true, if_false]

theorem decodeLossy_apart (h : Apart bytes) :
    decodeLossy none bytes = bytes.map byteChar ∧
      ∀ u : Unfinished, (∀ c ∈ bytes.head?, (u.low ≤ c.toNat && c.toNat ≤ u.high) = false) →
        decodeLossy (some u) bytes = replacement :: bytes.map byteChar := by
  induction bytes with
  | nil => exact ⟨rfl, fun _ _ => rfl⟩
  | cons b bytes ih =>
    obtain ⟨hhead, hbytes⟩ := isChain_cons.mp h
    obtain ⟨hnone, hsome⟩ := ih hbytes
    have hb : decodeLossy none (b :: bytes) = (b :: bytes).map byteChar := by
      rw [decodeLossy, map_cons]
      rcases decodeStart_cases b with ⟨hstart, -⟩ | ⟨u, hstart, hchar, hjoins⟩
      · rw [hstart, hnone]
        rfl
      · rw [hstart, hchar, hsome u]
        · rfl
        · intro c hc
          rw [← hjoins c]
          exact hhead c hc
    refine ⟨hb, ?_⟩
    intro u hu
    rw [decodeLossy_cut (hu b rfl), hb]

theorem fromUtf8Lossy_apart (h : Apart bytes) : fromUtf8Lossy bytes = bytes.map byteChar :=
  (decodeLossy_apart h).1

/-- As many characters as bytes: none of them has been joined to another. -/
theorem apart_of_length (h : (fromUtf8Lossy bytes).length = bytes.length) : Apart bytes := by
  induction bytes with
  | nil => exact isChain_nil
  | cons b bytes ih =>
    unfold fromUtf8Lossy at h ih
    rw [decodeLossy, length_append, length_cons] at h
    apply isChain_cons.mpr
    rcases decodeStart_cases b with ⟨hstart, hjoins⟩ | ⟨u, hstart, hchar, hjoins⟩
    · rw [hstart] at h
      dsimp only [length_singleton] at h
      exact ⟨fun c _ => hjoins c, ih (by omega)⟩
    · rw [hstart] at h
      dsimp only [length_nil] at h
      cases bytes with
      | nil => exact ⟨fun c hc => absurd hc (not_mem_none c), isChain_nil⟩
      | cons c bytes =>
        -- a byte that went on with the character would have cost one
        have hout : (u.low ≤ c.toNat && c.toNat ≤ u.high) = false := by
          by_contra hin
          rw [Bool.not_eq_false] at hin
          rw [decodeLossy, if_pos hin, length_cons] at h
          have hdone := length_decodeLossy none bytes
          simp only [toList_none, length_nil] at hdone
          dsimp only at h
          split at h
          · rw [length_cons] at h
            omega
          · have hmore := length_decodeLossy
              (some ⟨u.bits * 64 + (c.toNat - 0x80), u.needs - 1, 0x80, 0xBF, by decide⟩) bytes
            simp only [toList_some, length_cons, length_nil] at hmore
            omega
        rw [decodeLossy_cut hout, length_cons] at h
        refine ⟨?_, ih (by omega)⟩
        intro d hd
        obtain rfl := mem_some.mp hd
        rw [hjoins, hout]

theorem length_fromUtf8Lossy (bytes : List UInt8) :
    (fromUtf8Lossy bytes).length ≤ bytes.length := length_decodeLossy none bytes

theorem decodeLossy_some_ne_nil (u : Unfinished) (bytes : List UInt8) :
    decodeLossy (some u) bytes ≠ [] := by
  induction bytes generalizing u with
  | nil => exact cons_ne_nil _ _
  | cons b bytes ih =>
    rw [decodeLossy]
    split
    · dsimp only
      split
      · exact cons_ne_nil _ _
      · exact ih _
    · exact cons_ne_nil _ _

theorem fromUtf8Lossy_ne_nil (h : bytes ≠ []) : fromUtf8Lossy bytes ≠ [] := by
  obtain ⟨b, rest, rfl⟩ := exists_cons_of_ne_nil h
  rw [fromUtf8Lossy, decodeLossy]
  rcases decodeStart_cases b with ⟨hstart, -⟩ | ⟨u, hstart, -, -⟩
  · rw [hstart]
    exact cons_ne_nil _ _
  · rw [hstart]
    exact decodeLossy_some_ne_nil u rest

section Ascii

theorem mem_fromUtf8Lossy (hb : b.toNat < 0x80) (hmem : b ∈ bytes) :
    byteChar b ∈ fromUtf8Lossy bytes := by
  apply (ascii_sublist none bytes).subset
  apply List.mem_map_of_mem
  apply List.mem_filter.mpr
  exact ⟨hmem, by simpa using hb⟩

/-- A byte below 0x80 in a text that has been written is a character of it. -/
theorem mem_of_mem_utf8 {text : List Char} (hb : b.toNat < 0x80) (hmem : b ∈ utf8 text) :
    byteChar b ∈ text := by
  have h := mem_fromUtf8Lossy hb hmem
  rwa [fromUtf8Lossy_utf8] at h

theorem apart_ascii (h : ∀ b ∈ bytes, b.toNat < 0x80) : Apart bytes := by
  have hjoins : ∀ b ∈ bytes, ∀ c, joins b c = false := by
    intro b hb c
    unfold joins decodeStart
    rw [if_pos (h b hb)]
  induction bytes with
  | nil => exact isChain_nil
  | cons b bytes ih =>
    apply isChain_cons.mpr
    refine ⟨fun c _ => hjoins b mem_cons_self c, ih ?_ ?_⟩
    · intro c hc
      exact h c (mem_cons_of_mem b hc)
    · intro c hc
      exact hjoins c (mem_cons_of_mem b hc)

theorem toNat_byteChar (hb : b.toNat < 0x80) : (byteChar b).toNat = b.toNat := by
  have hall : ∀ n < 0x80, (Char.ofNat n).toNat = n := by decide
  have hchar : byteChar b = Char.ofNat b.toNat := if_pos hb
  rw [hchar, hall _ hb]

theorem utf8_byteChar (hb : b.toNat < 0x80) : String.utf8EncodeChar (byteChar b) = [b] := by
  have hall : ∀ n < 0x80, String.utf8EncodeChar (Char.ofNat n) = [UInt8.ofNat n] := by decide
  have hchar : byteChar b = Char.ofNat b.toNat := if_pos hb
  rw [hchar, hall _ hb, UInt8.ofNat_toNat]

theorem utf8_ascii (h : ∀ b ∈ bytes, b.toNat < 0x80) : utf8 (bytes.map byteChar) = bytes := by
  induction bytes with
  | nil => rfl
  | cons b bytes ih =>
    have hb := utf8_byteChar (h b mem_cons_self)
    have hbytes := ih fun c hc => h c (mem_cons_of_mem b hc)
    show String.utf8EncodeChar (byteChar b) ++ utf8 (bytes.map byteChar) = b :: bytes
    rw [hb, hbytes]
    rfl

end Ascii

end Text
