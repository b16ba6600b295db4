import ColossalCode.Protocol.Text
import Mathlib.Data.List.Basic

/-! The segments into which a source text is cut before its evaluation. -/
namespace ColossalCode.Nu
open List

inductive Quote where
  | single
  | double
  | backtick
deriving DecidableEq

inductive Bracket where
  | paren
  | brace
  | square
deriving DecidableEq

def Quote.mark : Quote → Char
  | .single => Char.ofNat 0x27
  | .double => Char.ofNat 0x22
  | .backtick => Char.ofNat 0x60

def Bracket.opener : Bracket → Char
  | .paren => '('
  | .brace => '\x7b'
  | .square => '['

def Bracket.closer : Bracket → Char
  | .paren => ')'
  | .brace => '\x7d'
  | .square => ']'

def backslash : Char := Char.ofNat 0x5C

/-- The variables of `split_top_level_segments`. -/
structure Scan where
  segments : List String := []
  current : List Char := []
  parenDepth : Nat := 0
  braceDepth : Nat := 0
  bracketDepth : Nat := 0
  singleQuoted : Bool := false
  doubleQuoted : Bool := false
  backtickQuoted : Bool := false
  escaped : Bool := false
  inComment : Bool := false

namespace Scan

def inString (s : Scan) : Bool := s.singleQuoted || s.doubleQuoted || s.backtickQuoted

def nested (s : Scan) : Bool := 0 < s.parenDepth || 0 < s.braceDepth || 0 < s.bracketDepth

def push (s : Scan) (ch : Char) : Scan := { s with current := s.current ++ [ch] }

/-- A segment is kept without the blanks around it, and an empty one not at all. -/
def flush (s : Scan) : List String :=
  let trimmed := Text.trim (String.ofList s.current)
  if trimmed = "" then s.segments else s.segments ++ [trimmed]

/-- One round of the loop over the characters. -/
def read (s : Scan) (ch : Char) : Scan :=
  if s.inComment then if ch = '\n' then { s with inComment := false } else s
  else if s.escaped then { s.push ch with escaped := false }
  else if ch = backslash ∧ (s.doubleQuoted || s.backtickQuoted) then
    { s.push ch with escaped := true }
  else if ch = '#' ∧ ¬ s.inString ∧ ¬ s.nested then { s with inComment := true }
  else if ch = Quote.single.mark ∧ ¬ s.doubleQuoted ∧ ¬ s.backtickQuoted then
    { s.push ch with singleQuoted := !s.singleQuoted }
  else if ch = Quote.double.mark ∧ ¬ s.singleQuoted ∧ ¬ s.backtickQuoted then
    { s.push ch with doubleQuoted := !s.doubleQuoted }
  else if ch = Quote.backtick.mark ∧ ¬ s.singleQuoted ∧ ¬ s.doubleQuoted then
    { s.push ch with backtickQuoted := !s.backtickQuoted }
  else if ch = '\x7b' ∧ ¬ s.inString then { s.push ch with braceDepth := s.braceDepth + 1 }
  else if ch = '\x7d' ∧ ¬ s.inString then { s.push ch with braceDepth := s.braceDepth - 1 }
  else if ch = '(' ∧ ¬ s.inString then { s.push ch with parenDepth := s.parenDepth + 1 }
  else if ch = ')' ∧ ¬ s.inString then { s.push ch with parenDepth := s.parenDepth - 1 }
  else if ch = '[' ∧ ¬ s.inString then { s.push ch with bracketDepth := s.bracketDepth + 1 }
  else if ch = ']' ∧ ¬ s.inString then { s.push ch with bracketDepth := s.bracketDepth - 1 }
  else if ch = ';' ∧ ¬ s.inString ∧ ¬ s.nested then { s with segments := s.flush, current := [] }
  else s.push ch

end Scan

def splitTopLevelSegments (source : String) : List String :=
  (source.toList.foldl Scan.read {}).flush

example : splitTopLevelSegments "if true \x7b cd foo; pwd \x7d; a # b;\nc" =
    ["if true \x7b cd foo; pwd \x7d", "a c"] := by decide

/-- The part that a character has in its text. -/
inductive Role where
  | word
  | string
  | opening (bracket : Bracket)
  | closing (bracket : Bracket)
  | semicolon
  | comment
deriving DecidableEq

/-- What the text before a character leaves open; outside of strings and comments, whether a word
can start. -/
inductive Reading where
  | words (start : Bool)
  | string (quote : Quote)
  | escaped (quote : Quote)
  | comment
deriving DecidableEq

def quoteOf (c : Char) : Option Quote :=
  [Quote.single, .double, .backtick].find? fun quote => c = quote.mark

def openerOf (c : Char) : Option Bracket :=
  [Bracket.paren, .brace, .square].find? fun bracket => c = bracket.opener

def closerOf (c : Char) : Option Bracket :=
  [Bracket.paren, .brace, .square].find? fun bracket => c = bracket.closer

/-- Outside of strings and comments: a comment starts where a word could. -/
def outsideString (start : Bool) (c : Char) : Role × Reading :=
  if c = '#' ∧ start then (.comment, .comment)
  else if c = ';' then (.semicolon, .words true)
  else
    match quoteOf c, openerOf c, closerOf c with
    | some quote, _, _ => (.string, .string quote)
    | none, some bracket, _ => (.opening bracket, .words true)
    | none, none, some bracket => (.closing bracket, .words false)
    | none, none, none => (.word, .words (Text.isWhitespace c || c = '|'))

/-- Within a string: a backslash escapes in the two kinds of quotes that know escapes. -/
def withinString (quote : Quote) (c : Char) : Reading :=
  if c = backslash ∧ quote ≠ .single then .escaped quote
  else if c = quote.mark then .words false
  else .string quote

def Reading.next (r : Reading) (c : Char) : Role × Reading :=
  match r with
  | .words start => outsideString start c
  | .string quote => (.string, withinString quote c)
  | .escaped quote => (.string, .string quote)
  | .comment => (.comment, if c = '\n' then .words true else .comment)

/-- The characters of a text with their roles. -/
def roles : Reading → List Char → List (Char × Role)
  | _, [] => []
  | r, c :: text => (c, (r.next c).1) :: roles (r.next c).2 text

def labelled (source : String) : List (Char × Role) := roles (.words true) source.toList

/-- How many brackets of each kind are open. -/
structure Nesting where
  paren : Nat := 0
  brace : Nat := 0
  square : Nat := 0
deriving DecidableEq

namespace Nesting

def after (n : Nesting) : Role → Nesting
  | .opening .paren => { n with paren := n.paren + 1 }
  | .opening .brace => { n with brace := n.brace + 1 }
  | .opening .square => { n with square := n.square + 1 }
  | .closing .paren => { n with paren := n.paren - 1 }
  | .closing .brace => { n with brace := n.brace - 1 }
  | .closing .square => { n with square := n.square - 1 }
  | _ => n

def outside (n : Nesting) : Bool := n.paren = 0 ∧ n.brace = 0 ∧ n.square = 0

end Nesting

/-- The text without the comments that stand outside of all brackets. -/
def stripped : Nesting → List (Char × Role) → List (Char × Role)
  | _, [] => []
  | n, p :: text =>
    if n.outside ∧ p.2 = .comment then stripped n text else p :: stripped (n.after p.2) text

/-- The pieces between the characters outside of all brackets that `ends` picks. -/
def cut (ends : Char × Role → Bool) : Nesting → List (Char × Role) → List (List Char)
  | _, [] => [[]]
  | n, p :: text =>
    if n.outside ∧ ends p then [] :: cut ends n text
    else (cut ends (n.after p.2) text).modifyHead (p.1 :: ·)

def atSemicolon (p : Char × Role) : Bool := p.2 = .semicolon

def atNewline (p : Char × Role) : Bool := p.1 = '\n' ∧ p.2 = .word

/-- The pieces without the blanks around them, except the empty ones. -/
def tidy (pieces : List (List Char)) : List String :=
  (pieces.map fun piece => Text.trim (String.ofList piece)).filter (· ≠ "")

/-- No word outside of brackets has a `#` in it, and no comment within brackets a quote or a
bracket. -/
def Orderly : Nesting → List (Char × Role) → Prop
  | _, [] => True
  | n, p :: text =>
    (p.1 = '#' → p.2 = .word → n.outside = false) ∧
      (p.2 = .comment → n.outside = false →
        quoteOf p.1 = none ∧ openerOf p.1 = none ∧ closerOf p.1 = none) ∧
      Orderly (n.after p.2) text

instance decideOrderly : (n : Nesting) → (text : List (Char × Role)) → Decidable (Orderly n text)
  | _, [] => isTrue trivial
  | n, p :: text =>
    have := decideOrderly (n.after p.2) text
    inferInstanceAs (Decidable (_ ∧ _ ∧ _))

theorem Scan.flush_eq (s : Scan) : s.flush = s.segments ++ tidy [s.current] := by
  unfold Scan.flush tidy
  by_cases hempty : Text.trim (String.ofList s.current) = ""
  · simp [hempty]
  · simp [hempty]

theorem special_cases (c : Char) : c = '#' ∨ c = ';' ∨ (∃ quote : Quote, c = quote.mark) ∨
    (∃ bracket : Bracket, c = bracket.opener) ∨ (∃ bracket : Bracket, c = bracket.closer) ∨
      (c ≠ '#' ∧ c ≠ ';' ∧ quoteOf c = none ∧ openerOf c = none ∧ closerOf c = none) := by
  by_cases hhash : c = '#'
  · exact .inl hhash
  by_cases hsemicolon : c = ';'
  · exact .inr (.inl hsemicolon)
  cases hquote : quoteOf c with
  | some quote =>
    rw [quoteOf] at hquote
    have hmark := List.find?_some hquote
    exact .inr (.inr (.inl ⟨quote, of_decide_eq_true hmark⟩))
  | none =>
    cases hopener : openerOf c with
    | some bracket =>
      rw [openerOf] at hopener
      have hmark := List.find?_some hopener
      exact .inr (.inr (.inr (.inl ⟨bracket, of_decide_eq_true hmark⟩)))
    | none =>
      cases hcloser : closerOf c with
      | some bracket =>
        rw [closerOf] at hcloser
        have hmark := List.find?_some hcloser
        exact .inr (.inr (.inr (.inr (.inl ⟨bracket, of_decide_eq_true hmark⟩))))
      | none => exact .inr (.inr (.inr (.inr (.inr ⟨hhash, hsemicolon, rfl, rfl, rfl⟩))))

namespace Reading

def within (r : Reading) (quote : Quote) : Bool :=
  match r with
  | .string other | .escaped other => other = quote
  | .words _ | .comment => false

/-- The scanner's variables after a text. -/
def scan (r : Reading) (n : Nesting) (segments : List String) (current : List Char) : Scan where
  segments := segments
  current := current
  parenDepth := n.paren
  braceDepth := n.brace
  bracketDepth := n.square
  singleQuoted := r.within .single
  doubleQuoted := r.within .double
  backtickQuoted := r.within .backtick
  escaped := match r with
    | .escaped _ => true
    | _ => false
  inComment := r = .comment && n.outside

theorem read_string (quote : Quote) (n : Nesting) (segments : List String) (current : List Char)
    (c : Char) : ((Reading.string quote).scan n segments current).read c =
      (withinString quote c).scan n segments (current ++ [c]) := by
  by_cases hescape : c = backslash
  · subst hescape
    cases quote <;> rfl
  · by_cases hmark : c = quote.mark
    · subst hmark
      cases quote <;> rfl
    · rw [withinString, if_neg (fun h => hescape h.1), if_neg hmark]
      cases quote <;> simp_all [Scan.read, scan, within, Scan.inString, Scan.push, Quote.mark]

theorem read_escaped (quote : Quote) (n : Nesting) (segments : List String) (current : List Char)
    (c : Char) : ((Reading.escaped quote).scan n segments current).read c =
      (Reading.string quote).scan n segments (current ++ [c]) := by
  cases quote <;> rfl

/-- The scanner after one more character of the given role. -/
def advance (r : Reading) (n : Nesting) (segments : List String) (current : List Char)
    (p : Char × Role) : Scan :=
  if n.outside ∧ p.2 = .comment then r.scan n segments current
  else if n.outside ∧ p.2 = .semicolon then r.scan n (segments ++ tidy [current]) []
  else r.scan (n.after p.2) segments (current ++ [p.1])

/-- Outside of strings and comments only the character and the brackets count. -/
theorem read_words (start : Bool) (n : Nesting) (segments : List String) (current : List Char)
    (c : Char) : ((Reading.words start).scan n segments current).read c =
      if c = '#' ∧ n.outside then Reading.comment.scan n segments current
      else if c = ';' ∧ n.outside then
        (Reading.words true).scan n (segments ++ tidy [current]) []
      else match quoteOf c, openerOf c, closerOf c with
        | some quote, _, _ => (Reading.string quote).scan n segments (current ++ [c])
        | none, some bracket, _ =>
          (Reading.words true).scan (n.after (.opening bracket)) segments (current ++ [c])
        | none, none, some bracket =>
          (Reading.words true).scan (n.after (.closing bracket)) segments (current ++ [c])
        | none, none, none => (Reading.words true).scan n segments (current ++ [c]) := by
  rcases special_cases c with rfl | rfl | ⟨quote, rfl⟩ | ⟨bracket, rfl⟩ | ⟨bracket, rfl⟩ | hplain
  · rcases n with ⟨_ | paren, _ | brace, _ | square⟩ <;> rfl
  · have hflush := ((Reading.words start).scan n segments current).flush_eq
    rcases n with ⟨_ | paren, _ | brace, _ | square⟩
    · refine Eq.trans ?_ (congrArg (fun kept => (Reading.words true).scan {} kept []) hflush)
      rfl
    all_goals rfl
  · cases quote <;> rfl
  · cases bracket <;> rfl
  · cases bracket <;> rfl
  · obtain ⟨hhash, hsemicolon, hquote, hopener, hcloser⟩ := hplain
    rw [if_neg (fun h => hhash h.1), if_neg (fun h => hsemicolon h.1), hquote, hopener, hcloser]
    simp only [quoteOf, openerOf, closerOf, List.find?_eq_none, mem_cons, not_mem_nil,
      or_false, forall_eq_or_imp, forall_eq, decide_eq_true_eq] at hquote hopener hcloser
    obtain ⟨hsingle, hdouble, hbacktick⟩ := hquote
    obtain ⟨hparen, hbrace, hsquare⟩ := hopener
    obtain ⟨hparen', hbrace', hsquare'⟩ := hcloser
    simp only [Bracket.opener, Bracket.closer] at hparen hbrace hsquare hparen' hbrace' hsquare'
    simp [Scan.read, hhash, hsemicolon, hsingle, hdouble, hbacktick, hparen, hbrace, hsquare,
      hparen', hbrace', hsquare', scan, within, Scan.push]

/-- A comment within brackets is scanned as words. -/
theorem comment_scan {n : Nesting} (h : n.outside = false) (start : Bool) (segments : List String)
    (current : List Char) : Reading.comment.scan n segments current =
      (Reading.words start).scan n segments current := by
  simp [scan, h, within]

theorem read_comment (n : Nesting) (segments : List String) (current : List Char) (c : Char)
    (h : n.outside = false → quoteOf c = none ∧ openerOf c = none ∧ closerOf c = none) :
    (Reading.comment.scan n segments current).read c =
      (Reading.comment.next c).2.advance n segments current (c, .comment) := by
  cases houtside : n.outside with
  | true =>
    by_cases hline : c = '\n'
    · simp [Scan.read, advance, next, scan, within, houtside, hline]
    · simp [Scan.read, advance, next, scan, within, houtside, hline]
  | false =>
    obtain ⟨hquote, hopener, hcloser⟩ := h houtside
    rw [comment_scan houtside true, read_words, hquote, hopener, hcloser]
    have hnext : (Reading.comment.next c).2.scan n segments (current ++ [c]) =
        (Reading.words true).scan n segments (current ++ [c]) := by
      dsimp only [next]
      split
      · rfl
      · exact comment_scan houtside true segments (current ++ [c])
    simp [advance, houtside, Nesting.after, hnext]

theorem scan_other (r : Reading) (n : Nesting) (segments : List String) (current : List Char)
    (c : Char) (role : Role) (hcomment : role ≠ .comment) (hsemicolon : role ≠ .semicolon) :
    r.scan (n.after role) segments (current ++ [c]) = r.advance n segments current (c, role) := by
  rw [advance, if_neg (fun h => hcomment h.2), if_neg (fun h => hsemicolon h.2)]

theorem read_outside (start : Bool) (n : Nesting) (segments : List String) (current : List Char)
    (c : Char) (h : c = '#' → start = false → n.outside = false) :
    ((Reading.words start).scan n segments current).read c =
      (outsideString start c).2.advance n segments current (c, (outsideString start c).1) := by
  rw [read_words, outsideString]
  by_cases hhash : c = '#'
  · subst hhash
    have hquote : quoteOf '#' = none := rfl
    have hopener : openerOf '#' = none := rfl
    have hcloser : closerOf '#' = none := rfl
    rw [hquote, hopener, hcloser]
    cases houtside : n.outside with
    | true =>
      have hstart : start = true := by
        cases start with
        | true => rfl
        | false => exact absurd (h rfl rfl) (by simp [houtside])
      simp [hstart, advance, houtside]
    | false =>
      have hcomment := comment_scan houtside true segments (current ++ ['#'])
      cases start with
      | true => simp [advance, houtside, Nesting.after, hcomment]
      | false => exact scan_other (.words _) n segments current '#' .word (by decide) (by decide)
  · by_cases hsemicolon : c = ';'
    · subst hsemicolon
      cases houtside : n.outside with
      | true => simp [advance, houtside]
      | false =>
        have hquote : quoteOf ';' = none := rfl
        have hopener : openerOf ';' = none := rfl
        have hcloser : closerOf ';' = none := rfl
        simp [advance, houtside, hquote, hopener, hcloser, Nesting.after]
    · rw [if_neg (fun hc => hhash hc.1), if_neg (fun hc => hsemicolon hc.1),
        if_neg (fun hc => hhash hc.1), if_neg hsemicolon]
      cases quoteOf c with
      | some quote =>
        exact scan_other (.string quote) n segments current c .string (by decide) (by decide)
      | none =>
        cases openerOf c with
        | some bracket =>
          exact scan_other (.words true) n segments current c (.opening bracket) (by simp) (by simp)
        | none =>
          cases closerOf c with
          | some bracket =>
            exact scan_other (.words false) n segments current c (.closing bracket) (by simp)
              (by simp)
          | none =>
            exact scan_other (.words _) n segments current c .word (by decide) (by decide)

/-- One round of the loop, where the text is in order. -/
theorem read_next (r : Reading) (n : Nesting) (segments : List String) (current : List Char)
    (c : Char) (hword : c = '#' → (r.next c).1 = .word → n.outside = false)
    (hcomment : (r.next c).1 = .comment → n.outside = false →
      quoteOf c = none ∧ openerOf c = none ∧ closerOf c = none) :
    (r.scan n segments current).read c =
      (r.next c).2.advance n segments current (c, (r.next c).1) := by
  cases r with
  | words start =>
    refine read_outside start n segments current c fun hhash hstart => hword hhash ?_
    subst hhash hstart
    rfl
  | string quote =>
    rw [read_string]
    exact scan_other (withinString quote c) n segments current c .string (by decide) (by decide)
  | escaped quote =>
    rw [read_escaped]
    exact scan_other (.string quote) n segments current c .string (by decide) (by decide)
  | comment => exact read_comment n segments current c (hcomment rfl)

end Reading

theorem tidy_append (before after : List (List Char)) :
    tidy (before ++ after) = tidy before ++ tidy after := by
  rw [tidy, map_append, filter_append]
  rfl

theorem modifyHead_nil_append (pieces : List (List Char)) :
    pieces.modifyHead ([] ++ ·) = pieces := by
  cases pieces <;> rfl

theorem modifyHead_append (current : List Char) (c : Char) (pieces : List (List Char)) :
    pieces.modifyHead (current ++ [c] ++ ·) =
      (pieces.modifyHead (c :: ·)).modifyHead (current ++ ·) := by
  cases pieces with
  | nil => rfl
  | cons piece pieces => simp

/-- The scanner keeps the pieces of the stripped text. -/
theorem scan_segments (text : List Char) (r : Reading) (n : Nesting) (segments : List String)
    (current : List Char) (h : Orderly n (roles r text)) :
    (text.foldl Scan.read (r.scan n segments current)).flush =
      segments ++
        tidy ((cut atSemicolon n (stripped n (roles r text))).modifyHead (current ++ ·)) := by
  induction text generalizing r n segments current with
  | nil => simp [Scan.flush_eq, Reading.scan, roles, stripped, cut]
  | cons c text ih =>
    obtain ⟨hword, hcomment, hrest⟩ := h
    rw [foldl_cons, Reading.read_next r n segments current c hword hcomment, Reading.advance,
      roles, stripped]
    by_cases hdropped : n.outside ∧ (r.next c).1 = .comment
    · rw [hdropped.2] at hrest
      rw [if_pos hdropped, if_pos hdropped]
      exact ih (r.next c).2 n segments current hrest
    · rw [if_neg hdropped, if_neg hdropped, cut]
      by_cases hcut : n.outside ∧ (r.next c).1 = .semicolon
      · have hafter : n.after (r.next c).1 = n := by rw [hcut.2]; rfl
        rw [hafter] at hrest ⊢
        rw [if_pos hcut, if_pos ⟨hcut.1, decide_eq_true hcut.2⟩,
          ih (r.next c).2 n (segments ++ tidy [current]) [] hrest]
        rw [modifyHead_cons, append_nil, modifyHead_nil_append, append_assoc,
          ← tidy_append]
        rfl
      · rw [if_neg hcut, if_neg (fun h => hcut ⟨h.1, of_decide_eq_true h.2⟩),
          ih (r.next c).2 (n.after (r.next c).1) segments (current ++ [c]) hrest, modifyHead_append]

theorem cut_cons (ends : Char × Role → Bool) (n : Nesting) (text : List (Char × Role)) :
    ∃ piece pieces, cut ends n text = piece :: pieces := by
  induction text generalizing n with
  | nil => exact ⟨[], [], rfl⟩
  | cons p text ih =>
    rw [cut]
    split
    · exact ⟨[], _, rfl⟩
    · obtain ⟨piece, pieces, heq⟩ := ih (n.after p.2)
      exact ⟨p.1 :: piece, pieces, by rw [heq, modifyHead_cons]⟩

/-- The pieces, joined by semicolons, are the text again. -/
theorem cut_joined (n : Nesting) {text : List (Char × Role)}
    (h : ∀ p ∈ text, p.2 = .semicolon → p.1 = ';') :
    [';'].intercalate (cut atSemicolon n text) = text.map Prod.fst := by
  induction text generalizing n with
  | nil => rfl
  | cons p text ih =>
    have htext := fun m => ih m fun q hq => h q (mem_cons_of_mem p hq)
    rw [cut, map_cons]
    by_cases hcut : n.outside ∧ atSemicolon p
    · obtain ⟨piece, pieces, heq⟩ := cut_cons atSemicolon n text
      have hjoined := htext n
      rw [if_pos hcut, heq, intercalate_cons_cons, ← heq, hjoined,
        h p mem_cons_self (of_decide_eq_true hcut.2)]
      rfl
    · obtain ⟨piece, pieces, heq⟩ := cut_cons atSemicolon (n.after p.2) text
      have hjoined := htext (n.after p.2)
      rw [if_neg hcut, ← hjoined, heq, modifyHead_cons]
      cases pieces with
      | nil => simp
      | cons next pieces => simp [intercalate_cons_cons]

theorem stripped_keeps (n : Nesting) (text : List (Char × Role)) :
    (stripped n text).filter (·.2 ≠ .comment) = text.filter (·.2 ≠ .comment) := by
  induction text generalizing n with
  | nil => rfl
  | cons p text ih =>
    rw [stripped]
    split
    · next hdropped => rw [ih n, filter_cons_of_neg (by simp [hdropped.2])]
    · rw [filter_cons, filter_cons, ih (n.after p.2)]

theorem stripped_subset (n : Nesting) (text : List (Char × Role)) : stripped n text ⊆ text := by
  induction text generalizing n with
  | nil => exact List.Subset.refl []
  | cons p text ih =>
    rw [stripped]
    split
    · exact subset_cons_of_subset p (ih n)
    · exact cons_subset_cons p (ih (n.after p.2))

theorem roles_text (r : Reading) (text : List Char) : (roles r text).map Prod.fst = text := by
  induction text generalizing r with
  | nil => rfl
  | cons c text ih => rw [roles, map_cons, ih]

theorem next_semicolon {r : Reading} {c : Char} (h : (r.next c).1 = .semicolon) : c = ';' := by
  cases r with
  | words start =>
    dsimp only [Reading.next, outsideString] at h
    by_cases hhash : c = '#' ∧ start = true
    · simp [hhash] at h
    · by_cases hsemicolon : c = ';'
      · exact hsemicolon
      · rw [if_neg hhash, if_neg hsemicolon] at h
        split at h <;> cases h
  | string quote => cases h
  | escaped quote => cases h
  | comment => cases h

theorem roles_semicolon (r : Reading) (text : List Char) :
    ∀ p ∈ roles r text, p.2 = .semicolon → p.1 = ';' := by
  induction text generalizing r with
  | nil => simp [roles]
  | cons c text ih =>
    rw [roles, forall_mem_cons]
    exact ⟨next_semicolon, ih (r.next c).2⟩

/-- Newlines do not cut: a source text is cut at its semicolons outside of quotes and brackets. -/
theorem segments_between_semicolons (source : String) (h : Orderly {} (labelled source)) :
    splitTopLevelSegments source =
        tidy (cut atSemicolon {} (stripped {} (labelled source))) ∧
      [';'].intercalate (cut atSemicolon {} (stripped {} (labelled source))) =
        (stripped {} (labelled source)).map Prod.fst ∧
      (stripped {} (labelled source)).filter (·.2 ≠ .comment) =
        (labelled source).filter (·.2 ≠ .comment) ∧
      (labelled source).map Prod.fst = source.toList := by
  refine ⟨?_, ?_, stripped_keeps {} (labelled source), roles_text _ source.toList⟩
  · have hscan := scan_segments source.toList (.words true) {} [] [] h
    rw [modifyHead_nil_append] at hscan
    exact hscan
  · exact cut_joined {} fun p hp =>
      roles_semicolon (.words true) source.toList p (stripped_subset {} (labelled source) hp)

/-- A comment with a semicolon in it, a string and a block. -/
theorem segments_between_semicolons_sample :
    splitTopLevelSegments "a # x; y\nb; c \x7b d; 'e' \x7d" = ["a b", "c \x7b d; 'e' \x7d"] :=
  (segments_between_semicolons _ (by decide)).1.trans (by decide)

theorem newline_does_not_cut : ¬ ∀ source, splitTopLevelSegments source =
    tidy (cut (fun p => atSemicolon p || atNewline p) {} (stripped {} (labelled source))) := by
  intro hall
  have h := hall "a\nb"
  revert h
  decide

end ColossalCode.Nu
