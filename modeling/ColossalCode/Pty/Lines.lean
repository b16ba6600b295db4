import ColossalCode.Backend.Utf8

/-! Texts as characters: what is trimmed from them, what they hold, and their lines. -/
namespace Text
open List

variable {text line : List Char} {c : Char}

/-- `str::trim`. -/
def trimmed (text : List Char) : List Char :=
  ((text.dropWhile isWhitespace).reverse.dropWhile isWhitespace).reverse

/-- `str::contains`. -/
def holds (text part : List Char) : Bool := text.tails.any part.isPrefixOf

/-- What stands between the newlines, an empty last line included. -/
def splitNewlines : List Char → List (List Char)
  | [] => [[]]
  | c :: text =>
    if c = '\n' then [] :: splitNewlines text
    else
      match splitNewlines text with
      | [] => [[c]]
      | line :: rest => (c :: line) :: rest

/-- `[..].join("\n")`. -/
def joinLines : List (List Char) → List Char
  | [] => []
  | [line] => line
  | line :: rest => line ++ '\n' :: joinLines rest

theorem infix_of_holds {part : List Char} (h : holds text part = true) : part <:+: text := by
  obtain ⟨rest, hrest, hpart⟩ := any_eq_true.mp h
  have hsuffix := (mem_tails rest text).mp hrest
  have hstart : part <+: rest := List.isPrefixOf_iff_prefix.mp hpart
  exact hstart.isInfix.trans hsuffix.isInfix

theorem trimmed_sublist (text : List Char) : (trimmed text).Sublist text := by
  have hend := dropWhile_sublist isWhitespace (l := (text.dropWhile isWhitespace).reverse)
  have hreverse := List.Sublist.reverse hend
  rw [reverse_reverse] at hreverse
  exact hreverse.trans (dropWhile_sublist isWhitespace)

theorem dropWhile_none {p : Char → Bool}
    (h : ∀ c ∈ text, p c = false) : text.dropWhile p = text := by
  cases text with
  | nil => rfl
  | cons c text =>
    apply dropWhile_cons_of_neg
    rw [h c mem_cons_self]
    exact Bool.false_ne_true

theorem trimmed_solid (h : ∀ c ∈ text, isWhitespace c = false) : trimmed text = text := by
  have hend : ∀ c ∈ text.reverse, isWhitespace c = false := by
    intro c hc
    exact h c (mem_reverse.mp hc)
  rw [trimmed, dropWhile_none h, dropWhile_none hend, reverse_reverse]

/-- Outer white space is all that trimming takes away. -/
theorem mem_trimmed (hc : c ∈ text) (hsolid : isWhitespace c = false) : c ∈ trimmed text := by
  have hdrop : ∀ (l : List Char), c ∈ l → c ∈ l.dropWhile isWhitespace := by
    intro l hl
    induction l with
    | nil => exact hl
    | cons d l ih =>
      rw [dropWhile_cons]
      split
      · rename_i hd
        rcases mem_cons.mp hl with rfl | hl
        · rw [hsolid] at hd
          exact absurd hd Bool.false_ne_true
        · exact ih hl
      · exact hl
  unfold trimmed
  rw [mem_reverse]
  apply hdrop
  rw [mem_reverse]
  exact hdrop text hc

theorem splitNewlines_single (h : '\n' ∉ text) : splitNewlines text = [text] := by
  induction text with
  | nil => rfl
  | cons c text ih =>
    rw [mem_cons, not_or] at h
    rw [splitNewlines, if_neg (Ne.symm h.1), ih h.2]

theorem splitNewlines_line (h : '\n' ∉ text) : splitNewlines (text ++ ['\n']) = [text, []] := by
  induction text with
  | nil => rfl
  | cons c text ih =>
    rw [mem_cons, not_or] at h
    rw [cons_append, splitNewlines, if_neg (Ne.symm h.1), ih h.2]

theorem mem_splitNewlines (hline : line ∈ splitNewlines text) (hc : c ∈ line) : c ∈ text := by
  induction text generalizing line with
  | nil =>
    obtain rfl := mem_singleton.mp hline
    exact hc
  | cons d text ih =>
    unfold splitNewlines at hline
    split at hline
    · rcases mem_cons.mp hline with rfl | hline
      · exact absurd hc not_mem_nil
      · exact mem_cons_of_mem d (ih hline hc)
    · split at hline
      · obtain rfl := mem_singleton.mp hline
        exact mem_cons.mpr (.inl (mem_singleton.mp hc))
      · rename_i first rest heq
        rcases mem_cons.mp hline with rfl | hline
        · rcases mem_cons.mp hc with rfl | hc
          · exact mem_cons_self
          · have hfirst : first ∈ splitNewlines text := by simp [heq]
            exact mem_cons_of_mem d (ih hfirst hc)
        · have hlater : line ∈ splitNewlines text := by simp [heq, hline]
          exact mem_cons_of_mem d (ih hlater hc)

theorem mem_joinLines {ls : List (List Char)} (hc : c ∈ joinLines ls) :
    c = '\n' ∨ ∃ l ∈ ls, c ∈ l := by
  induction ls with
  | nil => exact absurd hc not_mem_nil
  | cons line ls ih =>
    cases ls with
    | nil => exact .inr ⟨line, mem_cons_self, hc⟩
    | cons next ls =>
      rcases mem_append.mp hc with hc | hc
      · exact .inr ⟨line, mem_cons_self, hc⟩
      · rcases mem_cons.mp hc with hc | hc
        · exact .inl hc
        · rcases ih hc with hn | ⟨l, hl, hcl⟩
          · exact .inl hn
          · exact .inr ⟨l, mem_cons_of_mem line hl, hcl⟩

theorem stripCr_sublist (line : List Char) : (stripCr line).Sublist line := by
  unfold stripCr
  split
  · exact dropLast_sublist line
  · exact List.Sublist.refl line

/-- The lines lie in the text one after the other. -/
theorem flatten_linesFrom (line text : List Char) :
    (linesFrom line text).flatten.Sublist (line ++ text) := by
  induction text generalizing line with
  | nil =>
    unfold linesFrom
    split
    · exact nil_sublist _
    · simp
  | cons c text ih =>
    unfold linesFrom
    split
    · rw [flatten_cons]
      have hrest := (ih []).trans (sublist_cons_self c text)
      exact (stripCr_sublist line).append hrest
    · have h := ih (line ++ [c])
      rwa [append_assoc] at h

theorem flatten_lines (text : List Char) : (lines text).flatten.Sublist text :=
  flatten_linesFrom [] text

theorem linesFrom_nil (hline : line ≠ []) : linesFrom line [] = [line] := by
  rw [linesFrom, if_neg]
  rw [List.isEmpty_iff]
  exact hline

theorem linesFrom_single (h : '\n' ∉ text) (hne : line ++ text ≠ []) :
    linesFrom line text = [line ++ text] := by
  induction text generalizing line with
  | nil =>
    rw [append_nil] at hne ⊢
    exact linesFrom_nil hne
  | cons c text ih =>
    rw [mem_cons, not_or] at h
    rw [linesFrom, if_neg (Ne.symm h.1), ih h.2 (by simp), append_assoc, singleton_append]

theorem lines_single (h : '\n' ∉ text) (hne : text ≠ []) : lines text = [text] :=
  linesFrom_single h hne

theorem linesFrom_line (h : '\n' ∉ text) :
    linesFrom line (text ++ ['\n']) = [stripCr (line ++ text)] := by
  induction text generalizing line with
  | nil =>
    rw [append_nil]
    rfl
  | cons c text ih =>
    rw [mem_cons, not_or] at h
    rw [cons_append, linesFrom, if_neg (Ne.symm h.1), ih h.2, append_assoc]
    rfl

theorem lines_line (hn : '\n' ∉ text) (hr : '\r' ∉ text) : lines (text ++ ['\n']) = [text] := by
  have hstrip : stripCr text = text := by
    rw [stripCr, if_neg]
    intro hlast
    exact hr (mem_of_getLast? hlast)
  rw [lines, linesFrom_line hn, nil_append, hstrip]

theorem lines_crlf (hn : '\n' ∉ text) : lines (text ++ ['\r', '\n']) = [text] := by
  have hcr : '\n' ∉ text ++ ['\r'] := by
    intro hmem
    rcases mem_append.mp hmem with hmem | hmem
    · exact hn hmem
    · exact absurd hmem (by decide)
  have hlines : lines (text ++ ['\r'] ++ ['\n']) = _ := linesFrom_line hcr
  rwa [append_assoc, nil_append, stripCr_cr] at hlines

theorem linesFrom_ne_nil (h : line ++ text ≠ []) : linesFrom line text ≠ [] := by
  induction text generalizing line with
  | nil =>
    rw [append_nil] at h
    rw [linesFrom_nil h]
    exact cons_ne_nil _ _
  | cons c text ih =>
    unfold linesFrom
    split
    · exact cons_ne_nil _ _
    · apply ih
      simp

theorem lines_ne_nil (h : text ≠ []) : lines text ≠ [] := linesFrom_ne_nil h

theorem stripCr_eq (line : List Char) : stripCr line = line ∨ line = stripCr line ++ ['\r'] := by
  unfold stripCr
  split
  · rename_i hlast
    right
    exact (dropLast_append_getLast? '\r' hlast).symm
  · exact .inl rfl

/-- A text of one line ends where the line does, or with its line end. -/
theorem eq_of_linesFrom {front only : List Char} (h : linesFrom front text = [only]) :
    front ++ text = only ∨ front ++ text = only ++ ['\n'] ∨
      front ++ text = only ++ ['\r', '\n'] := by
  induction text generalizing front with
  | nil =>
    rw [append_nil]
    rw [linesFrom] at h
    split at h
    · exact absurd h (cons_ne_nil _ _).symm
    · exact .inl (List.cons.inj h).1
  | cons c text ih =>
    rw [linesFrom] at h
    split at h
    · rename_i hc
      have hrest : linesFrom [] text = [] := (List.cons.inj h).2
      have htext : text = [] := by
        by_contra hne
        have hlater : [] ++ text ≠ [] := hne
        exact linesFrom_ne_nil hlater hrest
      have honly : stripCr front = only := (List.cons.inj h).1
      subst hc htext
      right
      rcases stripCr_eq front with hfront | hfront
      · rw [← honly, hfront]
        exact .inl rfl
      · right
        rw [hfront, honly, append_assoc]
        rfl
    · have hlonger := ih h
      rw [append_assoc, singleton_append] at hlonger
      exact hlonger

theorem eq_of_lines {only : List Char} (h : lines text = [only]) :
    text = only ∨ text = only ++ ['\n'] ∨ text = only ++ ['\r', '\n'] :=
  eq_of_linesFrom h

theorem mem_linesFrom (hc : c ∈ line ++ text) (hn : c ≠ '\n') (hr : c ≠ '\r') :
    ∃ l ∈ linesFrom line text, c ∈ l := by
  induction text generalizing line with
  | nil =>
    rw [append_nil] at hc
    have hne : line ≠ [] := ne_nil_of_mem hc
    rw [linesFrom_nil hne]
    exact ⟨line, mem_singleton_self line, hc⟩
  | cons d text ih =>
    unfold linesFrom
    split
    · rename_i hd
      rcases mem_append.mp hc with hc | hc
      · refine ⟨stripCr line, mem_cons_self, ?_⟩
        rcases stripCr_eq line with hline | hline
        · rwa [hline]
        · rw [hline] at hc
          rcases mem_append.mp hc with hc | hc
          · exact hc
          · exact absurd (mem_singleton.mp hc) hr
      · rcases mem_cons.mp hc with hc | hc
        · exact absurd (hc.trans hd) hn
        · have hlater : c ∈ [] ++ text := hc
          obtain ⟨l, hl, hcl⟩ := ih hlater
          exact ⟨l, mem_cons_of_mem _ hl, hcl⟩
    · apply ih
      rwa [append_assoc, singleton_append]

/-- Every character but those of line ends is in a line. -/
theorem mem_lines (hc : c ∈ text) (hn : c ≠ '\n') (hr : c ≠ '\r') : ∃ l ∈ lines text, c ∈ l := by
  have hfrom : c ∈ [] ++ text := hc
  exact mem_linesFrom hfrom hn hr

end Text
