import ColossalCode.Pty.Lines
import Mathlib.Data.List.TakeWhile
import Mathlib.Algebra.Group.Nat.Defs

/-! The files that a step has changed, as they are read from `git status --short`. -/
namespace ColossalCode.Agent
open List Option

open Text

/-- The path of a line, if it has one. -/
def changedPath (line : List Char) : Option (List Char) :=
  if (trimmed line).isEmpty then none
  else
    let path := trimmed ((trimmed line).drop 3)
    if path.isEmpty then none else some path

/-- `output` is whether the command was successful and its standard output, if it could be run. -/
def gatherGitChanges (output : Option (Bool × List UInt8)) : List (List Char) :=
  match output with
  | some (true, stdout) => (lines (fromUtf8Lossy stdout)).filterMap changedPath
  | _ => []

/-- A line of the output: two columns, each a letter, a mark or a blank, and a path. -/
structure StatusLine where
  x : UInt8
  y : UInt8
  path : List UInt8
  x_column : x.toNat = 0x20 ∨ 0x20 < x.toNat ∧ x.toNat < 0x7F
  y_column : y.toNat = 0x20 ∨ 0x20 < y.toNat ∧ y.toNat < 0x7F
  path_line : 0x0A ∉ path
  path_some : path ≠ []

def StatusLine.printed (line : StatusLine) : List UInt8 :=
  line.x :: line.y :: 0x20 :: line.path ++ [0x0A]

def StatusLine.text (line : StatusLine) : List Char :=
  Char.ofNat line.x.toNat :: Char.ofNat line.y.toNat :: ' ' :: fromUtf8Lossy line.path

variable {text line : List Char} {c : Char}

/-- What a character under way will be at least. -/
def Wide (u : Unfinished) : Prop :=
  1 ≤ u.needs ∧ 0x80 ≤ (u.bits * 64 + (u.low - 0x80)) * 64 ^ (u.needs - 1)

variable {n : Nat} {u : Unfinished} {path : List Char}

theorem wide_of_le (hneeds : u.needs = n + 1)
    (h : 0x80 ≤ (u.bits * 64 + (u.low - 0x80)) * 64 ^ n) : Wide u := by
  refine ⟨by omega, ?_⟩
  rw [hneeds, Nat.add_sub_cancel]
  exact h

theorem wide_lead {b : Nat} (h : lead b = some u) : Wide u := by
  unfold lead at h
  repeat' split at h
  all_goals simp only [some.injEq, reduceCtorEq] at h
  all_goals subst h
  all_goals simp only [Bool.and_eq_true, decide_eq_true_eq] at *
  · exact wide_of_le (n := 0) rfl (by dsimp only; omega)
  · exact wide_of_le (n := 1) rfl (by decide)
  · exact wide_of_le (n := 1) rfl (by decide)
  · exact wide_of_le (n := 1) rfl (by dsimp only; omega)
  · exact wide_of_le (n := 2) rfl (by decide)
  · exact wide_of_le (n := 2) rfl (by dsimp only; omega)
  · exact wide_of_le (n := 2) rfl (by decide)

theorem ofNat_valid (h : n.isValidChar) : (Char.ofNat n).toNat = n := by
  rw [Char.ofNat, dif_pos h]
  rfl

theorem newline_wide (h : 0x80 ≤ n) : Char.ofNat n ≠ '\n' := by
  intro heq
  by_cases hvalid : n.isValidChar
  · have hn := congrArg Char.toNat heq
    rw [ofNat_valid hvalid] at hn
    have hten : Char.toNat '\n' = 10 := rfl
    omega
  · rw [Char.ofNat, dif_neg hvalid] at heq
    revert heq
    decide

theorem newline_decodeStart {b : UInt8} (hb : b ≠ 0x0A) :
    '\n' ∉ (decodeStart b).1 ∧ ∀ u ∈ (decodeStart b).2, Wide u := by
  unfold decodeStart
  split
  · rename_i hascii
    refine ⟨fun hmem => ?_, by simp⟩
    have hnat : 10 = (Char.ofNat b.toNat).toNat := congrArg Char.toNat (mem_singleton.mp hmem)
    rw [ofNat_valid (.inl (by omega))] at hnat
    exact hb (UInt8.toNat_inj.mp hnat.symm)
  · split
    · rename_i u hlead
      refine ⟨by simp, fun u' hu' => ?_⟩
      rw [← some.inj hu']
      exact wide_lead hlead
    · exact ⟨by decide, by simp⟩

theorem newline_decodeLossy {u : Option Unfinished} (hu : ∀ u' ∈ u, Wide u') {bytes : List UInt8}
    (h : 0x0A ∉ bytes) : '\n' ∉ decodeLossy u bytes := by
  induction bytes generalizing u with
  | nil =>
    cases u with
    | none => exact not_mem_nil
    | some u =>
      rw [decodeLossy]
      decide
  | cons b bytes ih =>
    rw [mem_cons, not_or] at h
    obtain ⟨hstart, hnext⟩ := newline_decodeStart (Ne.symm h.1)
    have hrest := ih hnext h.2
    cases u with
    | none =>
      rw [decodeLossy, mem_append, not_or]
      exact ⟨hstart, hrest⟩
    | some u =>
      obtain ⟨hneeds, hwide⟩ := hu u rfl
      rw [decodeLossy]
      split
      · rename_i hrange
        simp only [Bool.and_eq_true, decide_eq_true_eq] at hrange
        dsimp only
        split
        · rename_i hone
          rw [hone, Nat.sub_self, Nat.pow_zero, Nat.mul_one] at hwide
          rw [mem_cons, not_or]
          exact ⟨Ne.symm (newline_wide (by omega)), ih (by simp) h.2⟩
        · rename_i hmore
          refine ih (fun u' hu' => ?_) h.2
          rw [← some.inj hu']
          obtain ⟨n, hn⟩ : ∃ n, u.needs = n + 2 := ⟨u.needs - 2, by omega⟩
          refine wide_of_le (n := n) (by dsimp only; omega) ?_
          have hlow : u.bits * 64 + (u.low - 0x80) ≤ u.bits * 64 + (b.toNat - 0x80) := by omega
          calc 0x80 ≤ (u.bits * 64 + (u.low - 0x80)) * 64 ^ (u.needs - 1) := hwide
            _ ≤ (u.bits * 64 + (b.toNat - 0x80)) * 64 ^ (u.needs - 1) := Nat.mul_le_mul_right _ hlow
            _ = ((u.bits * 64 + (b.toNat - 0x80)) * 64 + (0x80 - 0x80)) * 64 ^ n := by
              have hexp : u.needs - 1 = n + 1 := by omega
              rw [hexp, Nat.pow_succ', Nat.sub_self, Nat.add_zero, Nat.mul_assoc]
      · rw [mem_cons, mem_append, not_or, not_or]
        exact ⟨by decide, hstart, hrest⟩

theorem linesFrom_line (front : List Char) (h : '\n' ∉ line) (rest : List Char) :
    linesFrom front (line ++ '\n' :: rest) = stripCr (front ++ line) :: lines rest := by
  induction line generalizing front with
  | nil => simp [linesFrom, lines]
  | cons c line ih =>
    rw [mem_cons, not_or] at h
    rw [cons_append, linesFrom, if_neg (Ne.symm h.1), ih _ h.2, append_assoc,
      singleton_append]

theorem trimmed_length_le (text : List Char) : (trimmed text).length ≤ text.length :=
  (trimmed_sublist text).length_le

theorem trimmed_cons (hc : isWhitespace c = true) : trimmed (c :: text) = trimmed text := by
  rw [trimmed, dropWhile_cons_of_pos hc, ← trimmed]

theorem trimmed_append (text : List Char) {back : List Char}
    (hback : ∀ c ∈ back, isWhitespace c = true) : trimmed (text ++ back) = trimmed text := by
  rw [trimmed, trimmed, dropWhile_append]
  split
  · rename_i hempty
    have hnil : back.dropWhile isWhitespace = [] := dropWhile_eq_nil_iff.mpr hback
    rw [hnil, isEmpty_iff.mp hempty]
  · rw [reverse_append, dropWhile_append_of_pos fun c hc =>
      hback c (mem_reverse.mp hc)]

theorem trimmed_stripCr (line : List Char) : trimmed (stripCr line) = trimmed line := by
  unfold stripCr
  split
  · rename_i hlast
    obtain ⟨front, rfl⟩ := getLast?_eq_some_iff.mp hlast
    rw [dropLast_concat, trimmed_append front]
    simp [isWhitespace]
  · rfl

theorem trimmed_eq_self_iff (text : List Char) :
    trimmed text = text ↔ ∀ c, text.head? = some c ∨ text.getLast? = some c →
      isWhitespace c = false := by
  constructor
  · intro htrimmed c hc
    by_contra hblank
    rw [Bool.not_eq_false] at hblank
    rcases hc with hhead | hlast
    · obtain ⟨rest, rfl⟩ := head?_eq_some_iff.mp hhead
      have hshorter := trimmed_length_le rest
      rw [← trimmed_cons hblank, htrimmed, length_cons] at hshorter
      omega
    · obtain ⟨front, rfl⟩ := getLast?_eq_some_iff.mp hlast
      have hshorter := trimmed_length_le front
      have hsame : trimmed (front ++ [c]) = trimmed front :=
        trimmed_append front (by simpa using hblank)
      rw [← hsame, htrimmed, length_append, length_singleton] at hshorter
      omega
  · intro h
    have hstart : text.dropWhile isWhitespace = text := by
      cases text with
      | nil => rfl
      | cons c text =>
        rw [dropWhile_cons_of_neg]
        rw [h c (.inl rfl)]
        exact Bool.false_ne_true
    have hend : text.reverse.dropWhile isWhitespace = text.reverse := by
      cases hreverse : text.reverse with
      | nil => rfl
      | cons c rest =>
        rw [dropWhile_cons_of_neg]
        rw [h c (.inr (by rw [getLast?_eq_head?_reverse, hreverse]; rfl))]
        exact Bool.false_ne_true
    rw [trimmed, hstart, hend, reverse_reverse]

/-- A text up to the white space at its end. -/
theorem trimmed_split (text : List Char) : ∃ front back, text = front ++ back ∧
    (∀ c ∈ back, isWhitespace c = true) ∧ ∀ c, front.getLast? = some c → isWhitespace c = false := by
  refine ⟨(text.reverse.dropWhile isWhitespace).reverse, (text.reverse.takeWhile isWhitespace).reverse,
    ?_, fun c hc => ?_, fun c hc => ?_⟩
  · rw [← reverse_append, takeWhile_append_dropWhile, reverse_reverse]
  · exact mem_takeWhile_imp (mem_reverse.mp hc)
  · have hhead := head?_dropWhile_not isWhitespace text.reverse
    rw [getLast?_reverse] at hc
    rw [hc] at hhead
    exact hhead

theorem changedPath_length (h : changedPath line = some path) :
    path.length + 3 ≤ (trimmed line).length := by
  unfold changedPath at h
  split at h
  · cases h
  · dsimp only at h
    split at h
    · cases h
    · rename_i hsome
      have hle := trimmed_length_le ((trimmed line).drop 3)
      rw [some.inj h] at hle hsome
      rw [length_drop] at hle
      have hpos : 0 < path.length := by
        rw [length_pos_iff]
        simpa using hsome
      omega

/-- Where the first column is blank, the first character of the path is taken for the blank before
it. -/
theorem changedPath_blank {d : Char} (hc : isWhitespace c = true)
    (h : changedPath (c :: d :: ' ' :: text) = some path) : path.length < text.length := by
  have hlength := changedPath_length h
  rw [trimmed_cons hc] at hlength
  have hle := trimmed_length_le (d :: ' ' :: text)
  simp only [length_cons] at hle
  omega

theorem changedPath_letter {d : Char} (hc : isWhitespace c = false) (text : List Char) :
    changedPath (c :: d :: ' ' :: text) =
      if trimmed text = [] then none else some (trimmed text) := by
  obtain ⟨front, back, rfl, hback, hfront⟩ := trimmed_split text
  have hline : c :: d :: ' ' :: (front ++ back) = (c :: d :: ' ' :: front) ++ back := rfl
  have hsome : c ∈ trimmed (c :: d :: ' ' :: front) := mem_trimmed List.mem_cons_self hc
  have hpath : trimmed ((trimmed (c :: d :: ' ' :: front)).drop 3) = trimmed front := by
    cases front with
    | nil =>
      have hle := trimmed_length_le [c, d]
      have hblank : trimmed ([c, d] ++ [' ']) = trimmed [c, d] :=
        trimmed_append _ (by simp [isWhitespace])
      have hdrop : (trimmed [c, d, ' ']).drop 3 = [] := by
        rw [List.cons_append, List.singleton_append] at hblank
        rw [hblank, List.drop_eq_nil_iff]
        exact Nat.le_succ_of_le hle
      rw [hdrop]
    | cons e front =>
      have hself : trimmed (c :: d :: ' ' :: e :: front) = c :: d :: ' ' :: e :: front := by
        rw [trimmed_eq_self_iff]
        rintro c' (hhead | hlast)
        · rw [← Option.some.inj hhead]
          exact hc
        · exact hfront c' (by simpa [List.getLast?_cons_cons] using hlast)
      rw [hself]
      rfl
  rw [changedPath, hline, trimmed_append _ hback, trimmed_append _ hback, hpath,
    if_neg (by simpa using List.ne_nil_of_mem hsome)]
  simp only [List.isEmpty_iff]

section Columns

variable {b : UInt8}

theorem column_toNat (h : b.toNat = 0x20 ∨ 0x20 < b.toNat ∧ b.toNat < 0x7F) :
    (Char.ofNat b.toNat).toNat = b.toNat := ofNat_valid (.inl (by omega))

theorem column_blank (h : b.toNat = 0x20 ∨ 0x20 < b.toNat ∧ b.toNat < 0x7F) :
    isWhitespace (Char.ofNat b.toNat) = decide (b.toNat = 0x20) := by
  rw [isWhitespace, column_toNat h]
  rcases h with hblank | hletter
  · rw [hblank]
    rfl
  · have hne : b.toNat ≠ 0x20 := by omega
    rw [decide_eq_false hne]
    simp
    omega

theorem column_line (h : b.toNat = 0x20 ∨ 0x20 < b.toNat ∧ b.toNat < 0x7F) :
    Char.ofNat b.toNat ≠ '\n' := by
  intro heq
  have hten : (Char.ofNat b.toNat).toNat = 10 := congrArg Char.toNat heq
  rw [column_toNat h] at hten
  omega

end Columns

theorem changedPath_stripCr (line : List Char) : changedPath (stripCr line) = changedPath line := by
  rw [changedPath, changedPath, trimmed_stripCr]

/-- A line is reported as it was printed if its first column is not blank and its path is a text
that does not begin or end with white space. -/
theorem StatusLine.reported_iff (line : StatusLine) :
    (changedPath (stripCr line.text)).map utf8 = some line.path ↔
      line.x.toNat ≠ 0x20 ∧ ∃ path, utf8 path = line.path ∧
        ∀ c, path.head? = some c ∨ path.getLast? = some c → isWhitespace c = false := by
  have hcolumn := column_blank line.x_column
  rw [changedPath_stripCr, StatusLine.text]
  by_cases hx : line.x.toNat = 0x20
  · rw [decide_eq_true hx] at hcolumn
    refine ⟨fun h => ?_, fun h => absurd hx h.1⟩
    obtain ⟨path, hpath, hbytes⟩ := map_eq_some_iff.mp h
    have hshorter := changedPath_blank hcolumn hpath
    rw [← hbytes, fromUtf8Lossy_utf8] at hshorter
    omega
  · rw [decide_eq_false hx] at hcolumn
    rw [changedPath_letter hcolumn]
    constructor
    · intro h
      refine ⟨hx, trimmed (fromUtf8Lossy line.path), ?_⟩
      split at h
      · cases h
      · have hbytes := some.inj h
        have hself := congrArg fromUtf8Lossy hbytes
        rw [fromUtf8Lossy_utf8] at hself
        refine ⟨hbytes, (trimmed_eq_self_iff _).mp ?_⟩
        rw [hself, hself]
    · rintro ⟨-, path, hbytes, hends⟩
      have hsome : path ≠ [] := by
        rintro rfl
        exact line.path_some hbytes.symm
      rw [← hbytes, fromUtf8Lossy_utf8, (trimmed_eq_self_iff path).mpr hends, if_neg hsome,
        map_some]

theorem StatusLine.text_line (line : StatusLine) : '\n' ∉ line.text := by
  simp only [StatusLine.text, mem_cons, not_or]
  exact ⟨Ne.symm (column_line line.x_column), Ne.symm (column_line line.y_column), by decide,
    newline_decodeLossy (by simp) line.path_line⟩

theorem StatusLine.read (line : StatusLine) (rest : List UInt8) :
    fromUtf8Lossy (line.printed ++ rest) = line.text ++ '\n' :: fromUtf8Lossy rest := by
  have hx : line.x.toNat < 0x80 := by have := line.x_column; omega
  have hy : line.y.toNat < 0x80 := by have := line.y_column; omega
  have hprinted : line.printed ++ rest =
      (line.x :: line.y :: 0x20 :: line.path) ++ 0x0A :: rest := by
    rw [StatusLine.printed, append_assoc]
    rfl
  have hfirst := fromUtf8Lossy_ascii hx [] (line.y :: 0x20 :: line.path)
  have hsecond := fromUtf8Lossy_ascii hy [] (0x20 :: line.path)
  have hthird := fromUtf8Lossy_ascii (b := 0x20) (by decide) [] line.path
  rw [nil_append] at hfirst hsecond hthird
  rw [hprinted, fromUtf8Lossy_ascii (by decide), hfirst, hsecond, hthird]
  rfl

theorem lines_status (status : List StatusLine) :
    lines (fromUtf8Lossy (status.flatMap StatusLine.printed)) =
      status.map fun line => stripCr line.text := by
  induction status with
  | nil => rfl
  | cons line status ih =>
    rw [flatMap_cons, line.read, lines, linesFrom_line [] line.text_line, ih, map_cons,
      nil_append]

/-- The output is reported as it was printed if each of its lines is. -/
theorem git_changes_exact_iff (status : List StatusLine) :
    (gatherGitChanges (some (true, status.flatMap StatusLine.printed))).map utf8 =
        status.map (·.path) ↔
      ∀ line ∈ status, line.x.toNat ≠ 0x20 ∧ ∃ path, utf8 path = line.path ∧
        ∀ c, path.head? = some c ∨ path.getLast? = some c → isWhitespace c = false := by
  have hreported : (gatherGitChanges (some (true, status.flatMap StatusLine.printed))).map utf8 =
      status.filterMap fun line => (changedPath (stripCr line.text)).map utf8 := by
    rw [gatherGitChanges, lines_status, map_filterMap, filterMap_map]
    rfl
  rw [hreported, filterMap_eq_map_iff_forall_eq_some]
  exact forall₂_congr fun line _ => line.reported_iff

/-- The first character of a path is dropped where only the work tree has been changed. -/
theorem first_character_dropped :
    let line : StatusLine := ⟨0x20, 0x4D, utf8 "src/main.rs".toList, by decide, by decide,
      by decide, by decide⟩
    gatherGitChanges (some (true, line.printed)) = ["rc/main.rs".toList] ∧
      (gatherGitChanges (some (true, [line].flatMap StatusLine.printed))).map utf8 ≠
        [line].map (·.path) := by
  decide

end ColossalCode.Agent
