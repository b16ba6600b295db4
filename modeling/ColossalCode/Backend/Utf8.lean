import ColossalCode.Protocol.Text

/-! Text from bytes, and its lines. -/
namespace Text
open List

/-- A character under way: its bits so far, how many bytes it needs, and the range of the next
one. -/
structure Unfinished where
  bits : Nat
  needs : Nat
  low : Nat
  high : Nat
  tail : 0x80 ≤ low

def replacement : Char := Char.ofNat 0xFFFD

/-- What a byte from 0x80 on starts. -/
def lead (b : Nat) : Option Unfinished :=
  if 0xC2 ≤ b && b ≤ 0xDF then some ⟨b - 0xC0, 1, 0x80, 0xBF, by decide⟩
  else if b = 0xE0 then some ⟨0x0, 2, 0xA0, 0xBF, by decide⟩
  else if b = 0xED then some ⟨0xD, 2, 0x80, 0x9F, by decide⟩
  else if 0xE1 ≤ b && b ≤ 0xEF then some ⟨b - 0xE0, 2, 0x80, 0xBF, by decide⟩
  else if b = 0xF0 then some ⟨0x0, 3, 0x90, 0xBF, by decide⟩
  else if 0xF1 ≤ b && b ≤ 0xF3 then some ⟨b - 0xF0, 3, 0x80, 0xBF, by decide⟩
  else if b = 0xF4 then some ⟨0x4, 3, 0x80, 0x8F, by decide⟩
  else none

/-- A byte where a character may start. -/
def decodeStart (b : UInt8) : List Char × Option Unfinished :=
  if b.toNat < 0x80 then ([Char.ofNat b.toNat], none)
  else
    match lead b.toNat with
    | some u => ([], some u)
    | none => ([replacement], none)

/-- Each longest start of a character that does not go on is one replacement character. -/
def decodeLossy : Option Unfinished → List UInt8 → List Char
  | none, [] => []
  | some _, [] => [replacement]
  | none, b :: bytes => (decodeStart b).1 ++ decodeLossy (decodeStart b).2 bytes
  | some u, b :: bytes =>
    if u.low ≤ b.toNat && b.toNat ≤ u.high then
      let bits := u.bits * 64 + (b.toNat - 0x80)
      if u.needs = 1 then Char.ofNat bits :: decodeLossy none bytes
      else decodeLossy (some ⟨bits, u.needs - 1, 0x80, 0xBF, by decide⟩) bytes
    else replacement :: ((decodeStart b).1 ++ decodeLossy (decodeStart b).2 bytes)

/-- `String::from_utf8_lossy`. -/
def fromUtf8Lossy (bytes : List UInt8) : List Char := decodeLossy none bytes

/-- The `\r` of a line end. -/
def stripCr (line : List Char) : List Char :=
  if line.getLast? = some '\r' then line.dropLast else line

/-- The lines of a text whose first line has begun with `line`; the `\r` before the end of the text
belongs to its last line. -/
def linesFrom (line : List Char) : List Char → List (List Char)
  | [] => if line.isEmpty then [] else [line]
  | c :: text =>
    if c = '\n' then stripCr line :: linesFrom [] text else linesFrom (line ++ [c]) text

/-- `str::lines`. -/
def lines (text : List Char) : List (List Char) := linesFrom [] text

/-- A byte below 0x80 is a character of its own wherever it stands. -/
theorem decodeLossy_ascii {u : Option Unfinished} {b : UInt8} (hb : b.toNat < 0x80)
    (front rest : List UInt8) :
    decodeLossy u (front ++ b :: rest) =
      decodeLossy u front ++ Char.ofNat b.toNat :: decodeLossy none rest := by
  induction front generalizing u with
  | nil =>
    cases u with
    | none => simp [decodeLossy, decodeStart, hb]
    | some u =>
      have hlow := u.tail
      have hout : ¬ u.low ≤ b.toNat := by omega
      simp [decodeLossy, decodeStart, hb, hout]
  | cons c front ih =>
    cases u with
    | none => simp only [cons_append, decodeLossy, ih, append_assoc]
    | some u =>
      simp only [cons_append, decodeLossy, ih]
      split
      · split
        · rfl
        · rfl
      · simp

theorem fromUtf8Lossy_ascii {b : UInt8} (hb : b.toNat < 0x80) (front rest : List UInt8) :
    fromUtf8Lossy (front ++ b :: rest) =
      fromUtf8Lossy front ++ Char.ofNat b.toNat :: fromUtf8Lossy rest :=
  decodeLossy_ascii hb front rest

theorem linesFrom_append (line front rest : List Char) :
    linesFrom line (front ++ '\n' :: rest) =
      linesFrom line (front ++ ['\n']) ++ linesFrom [] rest := by
  induction front generalizing line with
  | nil => simp [linesFrom]
  | cons c front ih =>
    simp only [cons_append, linesFrom]
    split
    · rw [ih, cons_append]
    · exact ih _

@[simp] theorem stripCr_cr (line : List Char) : stripCr (line ++ ['\r']) = line := by
  simp [stripCr]

/-- A line end adds at most an empty line. -/
theorem linesFrom_crlf (line text : List Char) :
    linesFrom line (text ++ ['\r', '\n']) = linesFrom line text ∨
      linesFrom line (text ++ ['\r', '\n']) = linesFrom line text ++ [[]] := by
  induction text generalizing line with
  | nil =>
    have hcr : linesFrom line ['\r', '\n'] = [line] := by
      simp [linesFrom]
    rw [nil_append, hcr]
    by_cases hline : line = [] <;> simp [linesFrom, hline]
  | cons c text ih =>
    simp only [cons_append, linesFrom]
    split
    · rcases ih [] with h | h <;> simp [h]
    · exact ih _

example : fromUtf8Lossy [0x61, 0xE2, 0x82, 0xAC, 0xE2, 0x82, 0x41] =
    ['a', '€', replacement, 'A'] := by decide

end Text

/-! Text that has been written as UTF-8 is read back. -/
namespace Text
open List

/-- `str::as_bytes`. -/
def utf8 (text : List Char) : List UInt8 := text.flatMap String.utf8EncodeChar

section Next

variable {bits low high : Nat} {tail : 0x80 ≤ low} {b : UInt8}

/-- The last byte of a character. -/
theorem decodeLossy_last (hlow : low ≤ b.toNat) (hhigh : b.toNat ≤ high) (bytes : List UInt8) :
    decodeLossy (some ⟨bits, 1, low, high, tail⟩) (b :: bytes) =
      Char.ofNat (bits * 64 + (b.toNat - 0x80)) :: decodeLossy none bytes := by
  rw [decodeLossy, if_pos (by simp [hlow, hhigh]), if_pos rfl]

/-- A byte that goes on with a character. -/
theorem decodeLossy_more {needs : Nat} (hlow : low ≤ b.toNat) (hhigh : b.toNat ≤ high)
    (bytes : List UInt8) :
    decodeLossy (some ⟨bits, needs + 2, low, high, tail⟩) (b :: bytes) =
      decodeLossy (some ⟨bits * 64 + (b.toNat - 0x80), needs + 1, 0x80,
        0xBF, by decide⟩) bytes := by
  rw [decodeLossy, if_pos (by simp [hlow, hhigh]), if_neg (by simp)]
  rfl

end Next

/-- A byte that starts a character. -/
theorem decodeLossy_lead {b : UInt8} {u : Unfinished} (hb : 0x80 ≤ b.toNat)
    (hlead : lead b.toNat = some u) (bytes : List UInt8) :
    decodeLossy none (b :: bytes) = decodeLossy (some u) bytes := by
  have hstart : decodeStart b = ([], some u) := by
    rw [decodeStart, if_neg (by omega), hlead]
  rw [decodeLossy, hstart]
  rfl

theorem lead_two {b : Nat} (hlow : 0xC2 ≤ b) (hhigh : b ≤ 0xDF) :
    lead b = some ⟨b - 0xC0, 1, 0x80, 0xBF, by decide⟩ := by
  rw [lead, if_pos (by simp [hlow, hhigh])]

theorem lead_three {b : Nat} (hlow : 0xE0 ≤ b) (hhigh : b ≤ 0xEF) :
    ∃ low high tail, lead b = some ⟨b - 0xE0, 2, low, high, tail⟩ ∧
      (low = if b = 0xE0 then 0xA0 else 0x80) ∧ high = if b = 0xED then 0x9F else 0xBF := by
  unfold lead
  rw [if_neg (by simp; omega)]
  by_cases hfirst : b = 0xE0
  · subst hfirst
    exact ⟨_, _, _, rfl, rfl, rfl⟩
  · rw [if_neg hfirst, if_neg hfirst]
    by_cases hsurrogate : b = 0xED
    · subst hsurrogate
      exact ⟨_, _, _, rfl, rfl, rfl⟩
    · rw [if_neg hsurrogate, if_neg hsurrogate, if_pos (by simp; omega)]
      exact ⟨_, _, _, rfl, rfl, rfl⟩

theorem lead_four {b : Nat} (hlow : 0xF0 ≤ b) (hhigh : b ≤ 0xF4) :
    ∃ low high tail, lead b = some ⟨b - 0xF0, 3, low, high, tail⟩ ∧
      (low = if b = 0xF0 then 0x90 else 0x80) ∧ high = if b = 0xF4 then 0x8F else 0xBF := by
  unfold lead
  rw [if_neg (by simp; omega), if_neg (by omega), if_neg (by omega), if_neg (by simp; omega)]
  by_cases hfirst : b = 0xF0
  · subst hfirst
    exact ⟨_, _, _, rfl, rfl, rfl⟩
  · rw [if_neg hfirst, if_neg hfirst]
    by_cases hlast : b = 0xF4
    · subst hlast
      exact ⟨_, _, _, rfl, rfl, rfl⟩
    · rw [if_pos (by simp; omega), if_neg hlast]
      exact ⟨_, _, _, rfl, rfl, rfl⟩

theorem toNat_ofNat {n : Nat} (h : n < 256) : (UInt8.ofNat n).toNat = n := by
  rw [UInt8.toNat_ofNat']
  exact Nat.mod_eq_of_lt h

/-- A character that has been written is read back. -/
theorem decodeLossy_char (c : Char) (rest : List UInt8) :
    decodeLossy none (String.utf8EncodeChar c ++ rest) = c :: decodeLossy none rest := by
  have hvalid : c.val.toNat < 0xD800 ∨ 0xDFFF < c.val.toNat ∧ c.val.toNat < 0x110000 := c.valid
  have hchar : Char.ofNat c.val.toNat = c := Char.ofNat_toNat c
  unfold String.utf8EncodeChar
  generalize c.val.toNat = v at hvalid hchar ⊢
  dsimp only
  split_ifs with hone htwo hthree
  · have hbyte := toNat_ofNat (show v < 256 by omega)
    rw [singleton_append, decodeLossy, decodeStart, if_pos (by omega), hbyte, hchar]
    rfl
  · have hfirst := toNat_ofNat (show v / 64 % 0x20 + 0xc0 < 256 by omega)
    have hsecond := toNat_ofNat (show v % 0x40 + 0x80 < 256 by omega)
    have hlead := lead_two (show 0xC2 ≤ v / 64 % 0x20 + 0xc0 by omega) (by omega)
    rw [← hfirst] at hlead
    have hbits : (v / 64 % 0x20 + 0xc0 - 0xC0) * 64 + (v % 0x40 + 0x80 - 0x80) = v := by omega
    rw [cons_append, singleton_append, decodeLossy_lead (by omega) hlead,
      decodeLossy_last (by omega) (by omega), hfirst, hsecond, hbits, hchar]
  · have hfirst := toNat_ofNat (show v / 4096 % 0x10 + 0xe0 < 256 by omega)
    have hsecond := toNat_ofNat (show v / 64 % 0x40 + 0x80 < 256 by omega)
    have hthird := toNat_ofNat (show v % 0x40 + 0x80 < 256 by omega)
    obtain ⟨low, high, tail, hlead, hlow, hhigh⟩ :=
      lead_three (show 0xE0 ≤ v / 4096 % 0x10 + 0xe0 by omega) (by omega)
    rw [← hfirst] at hlead
    have hrange : low ≤ v / 64 % 0x40 + 0x80 ∧ v / 64 % 0x40 + 0x80 ≤ high := by
      rw [hlow, hhigh]
      constructor
      · split <;> omega
      · split <;> omega
    have hbits : ((v / 4096 % 0x10 + 0xe0 - 0xE0) * 64 + (v / 64 % 0x40 + 0x80 - 0x80)) * 64 +
        (v % 0x40 + 0x80 - 0x80) = v := by omega
    rw [cons_append, cons_append, singleton_append,
      decodeLossy_lead (by omega) hlead, decodeLossy_more (by omega) (by omega),
      decodeLossy_last (by omega) (by omega), hfirst, hsecond, hthird, hbits, hchar]
  · have hfirst := toNat_ofNat (show v / 262144 % 0x08 + 0xf0 < 256 by omega)
    have hsecond := toNat_ofNat (show v / 4096 % 0x40 + 0x80 < 256 by omega)
    have hthird := toNat_ofNat (show v / 64 % 0x40 + 0x80 < 256 by omega)
    have hfourth := toNat_ofNat (show v % 0x40 + 0x80 < 256 by omega)
    obtain ⟨low, high, tail, hlead, hlow, hhigh⟩ :=
      lead_four (show 0xF0 ≤ v / 262144 % 0x08 + 0xf0 by omega) (by omega)
    rw [← hfirst] at hlead
    have hrange : low ≤ v / 4096 % 0x40 + 0x80 ∧ v / 4096 % 0x40 + 0x80 ≤ high := by
      rw [hlow, hhigh]
      constructor
      · split <;> omega
      · split <;> omega
    have hbits : (((v / 262144 % 0x08 + 0xf0 - 0xF0) * 64 + (v / 4096 % 0x40 + 0x80 - 0x80)) * 64 +
        (v / 64 % 0x40 + 0x80 - 0x80)) * 64 + (v % 0x40 + 0x80 - 0x80) = v := by omega
    rw [cons_append, cons_append, cons_append, singleton_append,
      decodeLossy_lead (by omega) hlead, decodeLossy_more (by omega) (by omega),
      decodeLossy_more (by omega) (by omega), decodeLossy_last (by omega) (by omega), hfirst,
      hsecond, hthird, hfourth, hbits, hchar]

theorem fromUtf8Lossy_utf8 (text : List Char) : fromUtf8Lossy (utf8 text) = text := by
  induction text with
  | nil => rfl
  | cons c text ih =>
    rw [fromUtf8Lossy] at ih ⊢
    rw [utf8, flatMap_cons, decodeLossy_char, ← utf8, ih]

end Text
