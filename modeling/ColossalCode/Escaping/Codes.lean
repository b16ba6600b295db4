import Mathlib.Data.List.Basic
import Mathlib.Data.List.Infix

/-! Texts in which some symbols are written as codes that start with a mark, and the mark twice.
The codes are taken back one after the other by replacing them wherever they are found. -/
namespace Escaping
open List

variable {α : Type*}

/-- What replacing every occurrence of a part does, from left to right. -/
structure Replaces (replace : List α → List α → List α → List α) : Prop where
  nil : ∀ part new, replace part new [] = []
  hit : ∀ part new rest, part ≠ [] → replace part new (part ++ rest) = new ++ replace part new rest
  miss : ∀ part new c rest, ¬ part <+: c :: rest →
    replace part new (c :: rest) = c :: replace part new rest

structure Code (α : Type*) where
  symbol : α
  body : List α
  deriving DecidableEq

namespace Code

def text (mark : α) (code : Code α) : List α := mark :: code.body

end Code

/-- No code is taken for another, and no symbol for a part of a code. -/
structure Readable (mark : α) (codes : List (Code α)) : Prop where
  body : ∀ code ∈ codes, code.body ≠ []
  unmarked : ∀ code ∈ codes, mark ∉ code.body
  symbol_ne : ∀ code ∈ codes, code.symbol ≠ mark
  free : ∀ code ∈ codes, ∀ other ∈ codes, other.symbol ∉ code.body
  apart : ∀ code ∈ codes, ∀ other ∈ codes, code.body <+: other.body → code = other
  unique : ∀ code ∈ codes, ∀ other ∈ codes, code.symbol = other.symbol → code = other

section Replacing

variable {replace : List α → List α → List α → List α} {part new xs rest : List α} {mark : α}
  {codes : List (Code α)} {code : Code α}

theorem Replaces.pass (h : Replaces replace) (hxs : mark ∉ xs) :
    replace (mark :: part) new (xs ++ rest) = xs ++ replace (mark :: part) new rest := by
  induction xs with
  | nil => rfl
  | cons c xs ih =>
    rw [mem_cons, not_or] at hxs
    rw [cons_append, h.miss, ih hxs.2, cons_append]
    intro hstart
    exact hxs.1 (cons_prefix_cons.mp hstart).1

/-- A mark that another mark or a symbol follows starts no code. -/
theorem replace_mark {c : α} (hreplace : Replaces replace) (h : Readable mark codes)
    (hcode : code ∈ codes) (hc : c ∉ code.body) (new rest : List α) :
    replace (code.text mark) new (mark :: c :: rest) =
      mark :: replace (code.text mark) new (c :: rest) := by
  rw [hreplace.miss]
  intro hstart
  have hbody := (cons_prefix_cons.mp hstart).2
  cases hcases : code.body with
  | nil => exact h.body code hcode hcases
  | cons d xs =>
    rw [hcases] at hbody hc
    exact hc ((cons_prefix_cons.mp hbody).1 ▸ mem_cons_self)

theorem replace_symbol {c : α} (hreplace : Replaces replace) (hc : c ≠ mark) (new rest : List α) :
    replace (code.text mark) new (c :: rest) = c :: replace (code.text mark) new rest :=
  hreplace.miss _ _ _ _ fun hstart => hc (cons_prefix_cons.mp hstart).1.symm

theorem replace_other {other : Code α} (hreplace : Replaces replace)
    (h : Readable mark codes) (hcode : code ∈ codes) (hother : other ∈ codes)
    (hne : other ≠ code) (new rest : List α) :
    replace (code.text mark) new (other.text mark ++ rest) =
      other.text mark ++ replace (code.text mark) new rest := by
  change replace (code.text mark) new (mark :: (other.body ++ rest)) = _
  rw [hreplace.miss]
  · rw [Code.text, hreplace.pass (h.unmarked other hother)]
    rfl
  · intro hstart
    have hbody := (cons_prefix_cons.mp hstart).2
    rcases prefix_or_prefix_of_prefix hbody (prefix_append other.body rest) with hp | hp
    · exact hne (h.apart code hcode other hother hp).symm
    · exact hne (h.apart other hother code hcode hp)

end Replacing

/-- A code that stands in the text itself is a piece of its own. -/
inductive Piece (α : Type*) where
  | plain (c : α)
  | mark
  | symbol (code : Code α)
  | spelled (code : Code α)

namespace Piece

/-- What the piece is in the text. -/
def source (mark : α) : Piece α → List α
  | plain c => [c]
  | .mark => [mark]
  | symbol code => [code.symbol]
  | spelled code => code.text mark

/-- What comes back of it. -/
def back (mark : α) : Piece α → List α
  | spelled code => [mark, code.symbol]
  | piece => piece.source mark

end Piece

/-- The pieces are the longest that the text can be read as. -/
inductive Reads (mark : α) (codes : List (Code α)) : List (Piece α) → Prop
  | nil : Reads mark codes []
  | plain {c : α} {pieces : List (Piece α)} (hmark : c ≠ mark)
      (hcodes : ∀ code ∈ codes, code.symbol ≠ c) (hrest : Reads mark codes pieces) :
      Reads mark codes (.plain c :: pieces)
  | mark {pieces : List (Piece α)}
      (hcodes : ∀ code ∈ codes, ¬ code.body <+: pieces.flatMap (Piece.source mark))
      (hrest : Reads mark codes pieces) : Reads mark codes (.mark :: pieces)
  | symbol {code : Code α} {pieces : List (Piece α)} (hcode : code ∈ codes)
      (hrest : Reads mark codes pieces) : Reads mark codes (.symbol code :: pieces)
  | spelled {code : Code α} {pieces : List (Piece α)} (hcode : code ∈ codes)
      (hrest : Reads mark codes pieces) : Reads mark codes (.spelled code :: pieces)

variable {mark : α} {codes left : List (Code α)} {code : Code α} {pieces : List (Piece α)}

theorem exists_reads (mark : α) (codes : List (Code α)) (text : List α) :
    ∃ pieces, Reads mark codes pieces ∧ pieces.flatMap (Piece.source mark) = text := by
  classical
  induction hlength : text.length using Nat.strong_induction_on generalizing text with
  | _ n ih =>
    cases text with
    | nil => exact ⟨[], .nil, rfl⟩
    | cons c rest =>
      have hrest : rest.length < n := by
        rw [← hlength]
        exact Nat.lt_succ_self _
      obtain ⟨pieces, hreads, hpieces⟩ := ih rest.length hrest rest rfl
      by_cases hmark : c = mark
      · subst hmark
        by_cases hspelled : ∃ code ∈ codes, code.body <+: rest
        · obtain ⟨code, hcode, later, rfl⟩ := hspelled
          rw [length_append] at hrest
          obtain ⟨pieces, hreads, rfl⟩ := ih later.length (by omega) later rfl
          exact ⟨.spelled code :: pieces, .spelled hcode hreads, rfl⟩
        · subst hpieces
          refine ⟨.mark :: pieces, .mark ?_ hreads, rfl⟩
          intro code hcode hstart
          exact hspelled ⟨code, hcode, hstart⟩
      · subst hpieces
        by_cases hsymbol : ∃ code ∈ codes, code.symbol = c
        · obtain ⟨code, hcode, rfl⟩ := hsymbol
          exact ⟨.symbol code :: pieces, .symbol hcode hreads, rfl⟩
        · refine ⟨.plain c :: pieces, .plain hmark ?_ hreads, rfl⟩
          intro code hcode heq
          exact hsymbol ⟨code, hcode, heq⟩

theorem back_length (h : Readable mark codes) (hreads : Reads mark codes pieces) :
    (pieces.flatMap (Piece.back mark)).length ≤ (pieces.flatMap (Piece.source mark)).length := by
  induction hreads with
  | nil => exact Nat.le_refl 0
  | plain _ _ _ ih => simpa [Piece.back, Piece.source] using ih
  | mark _ _ ih => simpa [Piece.back, Piece.source] using ih
  | symbol _ _ ih => simpa [Piece.back, Piece.source] using ih
  | @spelled code pieces hcode _ ih =>
    have hbody := length_pos_of_ne_nil (h.body code hcode)
    simp only [flatMap_cons, length_append, Piece.back, Piece.source, Code.text,
      length_cons, length_nil]
    omega

/-- A code that stands in the text is one of its pieces. -/
theorem spelled_of_infix (h : Readable mark codes) (hcode : code ∈ codes)
    (hreads : Reads mark codes pieces)
    (hinside : code.text mark <:+: pieces.flatMap (Piece.source mark)) :
    ∃ other, .spelled other ∈ pieces := by
  induction hreads with
  | nil => exact absurd (infix_nil.mp hinside) (cons_ne_nil _ _)
  | plain hmark _ _ ih =>
    rcases infix_cons_iff.mp hinside with hstart | hlater
    · exact absurd (cons_prefix_cons.mp hstart).1.symm hmark
    · obtain ⟨other, hother⟩ := ih hlater
      exact ⟨other, mem_cons_of_mem _ hother⟩
  | mark hcodes _ ih =>
    rcases infix_cons_iff.mp hinside with hstart | hlater
    · exact absurd (cons_prefix_cons.mp hstart).2 (hcodes code hcode)
    · obtain ⟨other, hother⟩ := ih hlater
      exact ⟨other, mem_cons_of_mem _ hother⟩
  | symbol hsymbol _ ih =>
    rcases infix_cons_iff.mp hinside with hstart | hlater
    · exact absurd (cons_prefix_cons.mp hstart).1.symm (h.symbol_ne _ hsymbol)
    · obtain ⟨other, hother⟩ := ih hlater
      exact ⟨other, mem_cons_of_mem _ hother⟩
  | @spelled other pieces _ _ _ => exact ⟨other, mem_cons_self⟩

theorem Reads.mem (hreads : Reads mark codes pieces) (hmem : .spelled code ∈ pieces) :
    code ∈ codes := by
  induction hreads with
  | nil => exact absurd hmem not_mem_nil
  | plain _ _ _ ih => exact ih (by simpa using hmem)
  | mark _ _ ih => exact ih (by simpa using hmem)
  | symbol _ _ ih => exact ih (by simpa using hmem)
  | spelled hcode _ ih =>
    rcases mem_cons.mp hmem with heq | hmem
    · exact (Piece.spelled.inj heq) ▸ hcode
    · exact ih hmem

theorem infix_of_spelled (hmem : .spelled code ∈ pieces) :
    code.text mark <:+: pieces.flatMap (Piece.source mark) := by
  obtain ⟨before, after, rfl⟩ := append_of_mem hmem
  rw [flatMap_append, flatMap_cons]
  exact ⟨_, _, append_assoc _ _ _⟩

/-- A text comes back as it was unless it holds a code itself. -/
theorem back_iff (h : Readable mark codes) (hreads : Reads mark codes pieces) :
    pieces.flatMap (Piece.back mark) = pieces.flatMap (Piece.source mark) ↔
      ∀ code ∈ codes, ¬ code.text mark <:+: pieces.flatMap (Piece.source mark) := by
  have hnone : pieces.flatMap (Piece.back mark) = pieces.flatMap (Piece.source mark) ↔
      ∀ code, .spelled code ∉ pieces := by
    induction hreads with
    | nil => simp
    | plain _ _ _ ih => simpa [Piece.back, Piece.source] using ih
    | mark _ _ ih => simpa [Piece.back, Piece.source] using ih
    | symbol _ _ ih => simpa [Piece.back, Piece.source] using ih
    | @spelled code pieces hcode hrest _ =>
      constructor
      · intro heq
        have htail : code.symbol :: pieces.flatMap (Piece.back mark) =
            code.body ++ pieces.flatMap (Piece.source mark) := (List.cons.inj heq).2
        cases hcases : code.body with
        | nil => exact absurd hcases (h.body code hcode)
        | cons c body =>
          have hfree := h.free code hcode code hcode
          rw [hcases] at htail hfree
          exact absurd ((List.cons.inj htail).1 ▸ mem_cons_self) hfree
      · intro hno
        exact absurd mem_cons_self (hno code)
  rw [hnone]
  constructor
  · intro hno code hcode hinside
    obtain ⟨other, hother⟩ := spelled_of_infix h hcode hreads hinside
    exact hno other hother
  · intro hno code hmem
    exact hno code (hreads.mem hmem) (infix_of_spelled hmem)

variable [DecidableEq α]

def escapeSymbol (mark : α) (codes : List (Code α)) (c : α) : List α :=
  if c = mark then [mark, mark]
  else (codes.find? fun code => code.symbol = c).elim [c] (Code.text mark)

def escape (mark : α) (codes : List (Code α)) (text : List α) : List α :=
  text.flatMap (escapeSymbol mark codes)

/-- The codes go first, the doubled mark last. -/
def unescape (replace : List α → List α → List α → List α) (mark : α) (codes : List (Code α))
    (text : List α) : List α :=
  replace [mark, mark] [mark]
    (codes.foldl (fun text code => replace (code.text mark) [code.symbol] text) text)

/-- What a piece is while so many codes have not been taken back. -/
def Piece.written (mark : α) (left : List (Code α)) : Piece α → List α
  | plain c => [c]
  | .mark => [mark, mark]
  | symbol code => if code ∈ left then code.text mark else [code.symbol]
  | spelled code => if code ∈ left then mark :: code.text mark else [mark, code.symbol]


theorem escapeSymbol_code (h : Readable mark codes) (hcode : code ∈ codes) :
    escapeSymbol mark codes code.symbol = code.text mark := by
  rw [escapeSymbol, if_neg (h.symbol_ne code hcode)]
  cases hfind : codes.find? fun other => other.symbol = code.symbol with
  | none =>
    have hno := find?_eq_none.mp hfind code hcode
    exact absurd (decide_eq_true rfl) hno
  | some other =>
    have hsymbol : other.symbol = code.symbol := by simpa using find?_some hfind
    rw [h.unique other (mem_of_find?_eq_some hfind) code hcode hsymbol]
    rfl

theorem escapeSymbol_plain {c : α} (hmark : c ≠ mark) (hcodes : ∀ code ∈ codes, code.symbol ≠ c) :
    escapeSymbol mark codes c = [c] := by
  rw [escapeSymbol, if_neg hmark, find?_eq_none.mpr]
  · rfl
  · intro code hcode heq
    exact hcodes code hcode (of_decide_eq_true heq)

theorem escape_cons (c : α) (text : List α) :
    escape mark codes (c :: text) = escapeSymbol mark codes c ++ escape mark codes text :=
  flatMap_cons

theorem escape_body (h : Readable mark codes) (hcode : code ∈ codes) (rest : List α) :
    escape mark codes (code.body ++ rest) = code.body ++ escape mark codes rest := by
  have hplain : ∀ c ∈ code.body, escapeSymbol mark codes c = [c] := by
    intro c hc
    apply escapeSymbol_plain
    · rintro rfl
      exact h.unmarked code hcode hc
    · rintro other hother rfl
      exact h.free code hcode other hother hc
  have hbody : ∀ xs : List α, (∀ c ∈ xs, escapeSymbol mark codes c = [c]) →
      escape mark codes (xs ++ rest) = xs ++ escape mark codes rest := by
    intro xs hxs
    induction xs with
    | nil => rfl
    | cons c xs ih =>
      rw [cons_append, escape_cons, hxs c mem_cons_self,
        ih fun d hd => hxs d (mem_cons_of_mem c hd)]
      rfl
  exact hbody code.body hplain

theorem escape_source (h : Readable mark codes) (hreads : Reads mark codes pieces) :
    escape mark codes (pieces.flatMap (Piece.source mark)) =
      pieces.flatMap (Piece.written mark codes) := by
  induction hreads with
  | nil => rfl
  | plain hmark hcodes _ ih =>
    rw [flatMap_cons, flatMap_cons, ← ih]
    change escape mark codes (_ :: _) = _
    rw [escape_cons, escapeSymbol_plain hmark hcodes]
    rfl
  | mark _ _ ih =>
    rw [flatMap_cons, flatMap_cons, ← ih]
    change escape mark codes (_ :: _) = _
    rw [escape_cons, escapeSymbol, if_pos rfl]
    rfl
  | symbol hcode _ ih =>
    rw [flatMap_cons, flatMap_cons, ← ih]
    change escape mark codes (_ :: _) = _
    rw [escape_cons, escapeSymbol_code h hcode, Piece.written, if_pos hcode]
    rfl
  | spelled hcode _ ih =>
    rw [flatMap_cons, flatMap_cons, ← ih, Piece.written, if_pos hcode]
    change escape mark codes (mark :: (_ ++ _)) = _
    rw [escape_cons, escapeSymbol, if_pos rfl, escape_body h hcode]
    rfl

/-- What follows a mark starts like a code only where the text does. -/
theorem prefix_source {xs : List α} (h : Readable mark codes) (hcode : code ∈ codes)
    (hreads : Reads mark codes pieces) (hxs : xs ⊆ code.body)
    (hstart : xs <+: pieces.flatMap (Piece.written mark left)) :
    xs <+: pieces.flatMap (Piece.source mark) := by
  induction hreads generalizing xs with
  | nil => exact hstart
  | plain _ _ _ ih =>
    cases xs with
    | nil => exact nil_prefix
    | cons d xs =>
      obtain ⟨hd, hrest⟩ := cons_prefix_cons.mp hstart
      have htail := ih (fun e he => hxs (mem_cons_of_mem d he)) hrest
      exact cons_prefix_cons.mpr ⟨hd, htail⟩
  | mark _ _ _ =>
    cases xs with
    | nil => exact nil_prefix
    | cons d xs =>
      obtain ⟨rfl, _⟩ := cons_prefix_cons.mp hstart
      exact absurd (hxs mem_cons_self) (h.unmarked code hcode)
  | @symbol other pieces hother _ _ =>
    cases xs with
    | nil => exact nil_prefix
    | cons d xs =>
      have hd := hxs mem_cons_self
      rw [flatMap_cons, Piece.written] at hstart
      split at hstart
      · obtain ⟨rfl, _⟩ := cons_prefix_cons.mp hstart
        exact absurd hd (h.unmarked code hcode)
      · obtain ⟨rfl, _⟩ := cons_prefix_cons.mp hstart
        exact absurd hd (h.free code hcode other hother)
  | spelled _ _ _ =>
    cases xs with
    | nil => exact nil_prefix
    | cons d xs =>
      have hd := hxs mem_cons_self
      rw [flatMap_cons, Piece.written] at hstart
      split at hstart
      all_goals
        obtain ⟨rfl, _⟩ := cons_prefix_cons.mp hstart
        exact absurd hd (h.unmarked code hcode)

section Back

variable {replace : List α → List α → List α → List α} (hreplace : Replaces replace)
  (h : Readable mark codes)
include hreplace h

theorem replace_written (hcode : code ∈ codes) (hleft : code ∉ left)
    (hreads : Reads mark codes pieces) :
    replace (code.text mark) [code.symbol] (pieces.flatMap (Piece.written mark (code :: left))) =
      pieces.flatMap (Piece.written mark left) := by
  induction hreads with
  | nil => exact hreplace.nil _ _
  | plain hmark _ _ ih =>
    rw [flatMap_cons, flatMap_cons, ← ih]
    exact replace_symbol hreplace hmark _ _
  | mark hcodes hrest ih =>
    rw [flatMap_cons, flatMap_cons, ← ih]
    change replace (code.text mark) _ (mark :: mark :: _) = _
    rw [replace_mark hreplace h hcode (h.unmarked code hcode), hreplace.miss]
    · rfl
    · intro hstart
      have hbody := (cons_prefix_cons.mp hstart).2
      exact hcodes code hcode (prefix_source h hcode hrest (List.Subset.refl _) hbody)
  | @symbol other pieces hother _ ih =>
    rw [flatMap_cons, flatMap_cons, ← ih, Piece.written, Piece.written]
    by_cases heq : other = code
    · subst heq
      rw [if_pos mem_cons_self, if_neg hleft]
      exact hreplace.hit _ _ _ (cons_ne_nil _ _)
    · have hmem : other ∈ code :: left ↔ other ∈ left := by
        rw [mem_cons, or_iff_right heq]
      by_cases hin : other ∈ left
      · rw [if_pos (hmem.mpr hin), if_pos hin]
        exact replace_other hreplace h hcode hother heq _ _
      · rw [if_neg (hin ∘ hmem.mp), if_neg hin]
        exact replace_symbol hreplace (h.symbol_ne other hother) _ _
  | @spelled other pieces hother _ ih =>
    rw [flatMap_cons, flatMap_cons, ← ih, Piece.written, Piece.written]
    by_cases heq : other = code
    · subst heq
      rw [if_pos mem_cons_self, if_neg hleft]
      change replace (other.text mark) _ (mark :: mark :: (other.body ++ _)) = _
      rw [replace_mark hreplace h hcode (h.unmarked other hcode)]
      exact congrArg (mark :: ·) (hreplace.hit (other.text mark) _ _ (cons_ne_nil _ _))
    · have hmem : other ∈ code :: left ↔ other ∈ left := by
        rw [mem_cons, or_iff_right heq]
      by_cases hin : other ∈ left
      · rw [if_pos (hmem.mpr hin), if_pos hin]
        change replace (code.text mark) _ (mark :: mark :: (other.body ++ _)) = _
        rw [replace_mark hreplace h hcode (h.unmarked code hcode)]
        change mark :: replace _ _ (other.text mark ++ _) = _
        rw [replace_other hreplace h hcode hother heq]
        rfl
      · rw [if_neg (hin ∘ hmem.mp), if_neg hin]
        change replace (code.text mark) _ (mark :: other.symbol :: _) = _
        rw [replace_mark hreplace h hcode (h.free code hcode other hother),
          replace_symbol hreplace (h.symbol_ne other hother)]
        rfl

theorem foldl_written (hreads : Reads mark codes pieces) (hleft : left ⊆ codes)
    (hnodup : left.Nodup) :
    left.foldl (fun text code => replace (code.text mark) [code.symbol] text)
      (pieces.flatMap (Piece.written mark left)) = pieces.flatMap (Piece.written mark []) := by
  induction left with
  | nil => rfl
  | cons code left ih =>
    obtain ⟨hnew, hnodup⟩ := nodup_cons.mp hnodup
    rw [foldl_cons, replace_written hreplace h (hleft mem_cons_self) hnew hreads]
    exact ih (fun c hc => hleft (mem_cons_of_mem code hc)) hnodup

theorem replace_marks (hreads : Reads mark codes pieces) :
    replace [mark, mark] [mark] (pieces.flatMap (Piece.written mark [])) =
      pieces.flatMap (Piece.back mark) := by
  have hsymbol : ∀ (c : α) (rest : List α), c ≠ mark →
      replace [mark, mark] [mark] (c :: rest) = c :: replace [mark, mark] [mark] rest := by
    intro c rest hc
    rw [hreplace.miss]
    intro hstart
    exact hc (cons_prefix_cons.mp hstart).1.symm
  induction hreads with
  | nil => exact hreplace.nil _ _
  | plain hmark _ _ ih =>
    rw [flatMap_cons, flatMap_cons, ← ih]
    exact hsymbol _ _ hmark
  | mark _ _ ih =>
    rw [flatMap_cons, flatMap_cons, ← ih]
    exact hreplace.hit _ _ _ (cons_ne_nil _ _)
  | symbol hcode _ ih =>
    rw [flatMap_cons, flatMap_cons, ← ih]
    exact hsymbol _ _ (h.symbol_ne _ hcode)
  | @spelled code pieces hcode _ ih =>
    rw [flatMap_cons, flatMap_cons, ← ih]
    change replace _ _ (mark :: code.symbol :: _) = _
    rw [hreplace.miss, hsymbol _ _ (h.symbol_ne code hcode)]
    · rfl
    · intro hstart
      have htail := (cons_prefix_cons.mp hstart).2
      exact h.symbol_ne code hcode (cons_prefix_cons.mp htail).1.symm

theorem unescape_escape (hnodup : codes.Nodup) (hreads : Reads mark codes pieces) :
    unescape replace mark codes (escape mark codes (pieces.flatMap (Piece.source mark))) =
      pieces.flatMap (Piece.back mark) := by
  rw [unescape, escape_source h hreads,
    foldl_written hreplace h hreads (List.Subset.refl codes) hnodup]
  exact replace_marks hreplace h hreads

end Back

section RoundTrip

variable {replace : List α → List α → List α → List α} (hreplace : Replaces replace)
  (h : Readable mark codes) (hnodup : codes.Nodup) (text : List α)
include hreplace h hnodup

/-- What is escaped comes back unless it holds a code itself. -/
theorem unescape_escape_iff :
    unescape replace mark codes (escape mark codes text) = text ↔
      ∀ code ∈ codes, ¬ code.text mark <:+: text := by
  obtain ⟨pieces, hreads, rfl⟩ := exists_reads mark codes text
  rw [unescape_escape hreplace h hnodup hreads]
  exact back_iff h hreads

theorem unescape_escape_length :
    (unescape replace mark codes (escape mark codes text)).length ≤ text.length := by
  obtain ⟨pieces, hreads, rfl⟩ := exists_reads mark codes text
  rw [unescape_escape hreplace h hnodup hreads]
  exact back_length h hreads

end RoundTrip

theorem escapeSymbol_ne_nil (c : α) : escapeSymbol mark codes c ≠ [] := by
  unfold escapeSymbol
  split
  · exact cons_ne_nil _ _
  · cases codes.find? fun code => code.symbol = c with
    | none => exact cons_ne_nil _ _
    | some code => exact cons_ne_nil _ _

/-- A symbol is written as itself, as a code, or as two marks. -/
theorem escapeSymbol_cases (mark : α) (codes : List (Code α)) (c : α) :
    (c = mark ∧ escapeSymbol mark codes c = [mark, mark]) ∨
    (c ≠ mark ∧ (∀ code ∈ codes, code.symbol ≠ c) ∧ escapeSymbol mark codes c = [c]) ∨
    ∃ code ∈ codes, code.symbol = c ∧ c ≠ mark ∧ escapeSymbol mark codes c = code.text mark := by
  by_cases hmark : c = mark
  · exact .inl ⟨hmark, if_pos hmark⟩
  · right
    cases hfind : codes.find? fun code => code.symbol = c with
    | none =>
      have hcodes : ∀ code ∈ codes, code.symbol ≠ c := by simpa using hfind
      exact .inl ⟨hmark, hcodes, escapeSymbol_plain hmark hcodes⟩
    | some code =>
      refine .inr ⟨code, mem_of_find?_eq_some hfind, ?_, hmark, ?_⟩
      · simpa using find?_some hfind
      · rw [escapeSymbol, if_neg hmark, hfind]
        rfl

theorem escapeSymbol_prefix (h : Readable mark codes) {c d : α} {xs ys : List α}
    (heq : escapeSymbol mark codes c ++ xs = escapeSymbol mark codes d ++ ys) : c = d := by
  have hbody : ∀ code ∈ codes, ∀ xs ys, code.body ++ xs ≠ mark :: ys := by
    intro code hcode xs ys heq
    cases hcases : code.body with
    | nil => exact h.body code hcode hcases
    | cons c body =>
      have hmarked := h.unmarked code hcode
      rw [hcases] at heq hmarked
      exact hmarked ((List.cons.inj heq).1 ▸ mem_cons_self)
  rcases escapeSymbol_cases mark codes c with ⟨rfl, hc⟩ | ⟨hcm, _, hc⟩ | ⟨code, hcode, rfl, hcm, hc⟩
  · rcases escapeSymbol_cases c codes d with ⟨rfl, _⟩ | ⟨hdm, _, hd⟩ | ⟨other, hother, rfl, _, hd⟩
    · rfl
    · rw [hc, hd] at heq
      exact (List.cons.inj heq).1
    · rw [hc, hd] at heq
      exact absurd (List.cons.inj heq).2.symm (hbody other hother _ _)
  · rcases escapeSymbol_cases mark codes d with ⟨rfl, hd⟩ | ⟨_, _, hd⟩ | ⟨other, _, rfl, _, hd⟩
    · rw [hc, hd] at heq
      exact (List.cons.inj heq).1
    · rw [hc, hd] at heq
      exact (List.cons.inj heq).1
    · rw [hc, hd] at heq
      exact absurd (List.cons.inj heq).1 hcm
  · rcases escapeSymbol_cases mark codes d with ⟨rfl, hd⟩ | ⟨hdm, _, hd⟩ |
      ⟨other, hother, rfl, _, hd⟩
    · rw [hc, hd] at heq
      exact absurd (List.cons.inj heq).2 (hbody code hcode _ _)
    · rw [hc, hd] at heq
      exact absurd (List.cons.inj heq).1.symm hdm
    · rw [hc, hd] at heq
      have hrest : code.body ++ xs = other.body ++ ys := (List.cons.inj heq).2
      have hstart := prefix_append code.body xs
      rw [hrest] at hstart
      rcases prefix_or_prefix_of_prefix hstart (prefix_append other.body ys) with hp | hp
      · rw [h.apart code hcode other hother hp]
      · rw [h.apart other hother code hcode hp]

/-- Different texts are escaped differently. -/
theorem escape_injective (h : Readable mark codes) : Function.Injective (escape mark codes) := by
  intro xs
  induction xs with
  | nil =>
    intro ys heq
    cases ys with
    | nil => rfl
    | cons d ys =>
      rw [escape_cons] at heq
      exact absurd (append_eq_nil_iff.mp heq.symm).1 (escapeSymbol_ne_nil d)
  | cons c xs ih =>
    intro ys heq
    cases ys with
    | nil =>
      rw [escape_cons] at heq
      exact absurd (append_eq_nil_iff.mp heq).1 (escapeSymbol_ne_nil c)
    | cons d ys =>
      rw [escape_cons, escape_cons] at heq
      obtain rfl := escapeSymbol_prefix h heq
      rw [ih (append_cancel_left heq)]

end Escaping
