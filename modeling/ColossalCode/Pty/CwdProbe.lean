import ColossalCode.Pty.Chunking

/-! The probe for a shell's working directory: what is read off its cleaned reply. -/
namespace ColossalCode.Pty
open List

open Text

def beginMarker : List Char := "__NITE_CWD_BEGIN__".toList

def endMarker : List Char := "__NITE_CWD_END__".toList

/-- The command that asks for the working directory. -/
def cwdProbe : List Char :=
  "printf '__NITE_CWD_BEGIN__\n'; pwd; printf '__NITE_CWD_END__\n'".toList

/-- `str::rsplit_once`: the last occurrence counts. -/
def rsplitOnce (text mark : List Char) : Option (List Char × List Char) :=
  match text with
  | [] => if mark.isEmpty then some ([], []) else none
  | c :: rest =>
    match rsplitOnce rest mark with
    | some (before, after) => some (c :: before, after)
    | none => if mark.isPrefixOf text then some ([], text.drop mark.length) else none

def parseShellRuntimeCwd (output : List Char) : Except String (List Char) :=
  match rsplitOnce output endMarker with
  | none => .error "shell snapshot missing cwd end marker"
  | some (beforeEnd, _) =>
    match rsplitOnce beforeEnd beginMarker with
    | none => .error "shell snapshot missing cwd start marker"
    | some (_, cwd) => .ok (trimmed cwd)

example : parseShellRuntimeCwd (cleanText cwdProbe
    "$ pwd\n__NITE_CWD_BEGIN__\n/srv/my data\n__NITE_CWD_END__\n$ ".toList) =
      .ok "/srv/my data".toList := by decide

/-- The reply, with what ends its lines. -/
def cwdReply (eol path : List Char) : List Char :=
  beginMarker ++ eol ++ (path ++ eol) ++ (endMarker ++ eol)

theorem holds_cons (c : Char) (text part : List Char) :
    holds (c :: text) part = (part.isPrefixOf (c :: text) || holds text part) := rfl

variable {part : List Char} {path : List Char} {ls : List (List Char)} {eol : List Char}
  {strip : List Char → List Char}

theorem isPrefixOf_newline (hpart : '\n' ∉ part) (x y : List Char) :
    part.isPrefixOf (x ++ '\n' :: y) = part.isPrefixOf x := by
  rw [Bool.eq_iff_iff, isPrefixOf_iff_prefix, isPrefixOf_iff_prefix]
  exact ⟨Text.prefix_before hpart, fun h => h.trans (prefix_append x _)⟩

theorem holds_newline (hpart : '\n' ∉ part) (hsome : part ≠ [])
    (x y : List Char) : holds (x ++ '\n' :: y) part = (holds x part || holds y part) := by
  have hempty : part.isPrefixOf [] = false := by
    cases part with
    | nil => exact absurd rfl hsome
    | cons c part => rfl
  induction x with
  | nil =>
    have hline := isPrefixOf_newline hpart [] y
    have hnil : holds [] part = part.isPrefixOf [] := Bool.or_false _
    rw [nil_append] at hline ⊢
    rw [holds_cons, hline, hnil, hempty]
  | cons c x ih =>
    have hline := isPrefixOf_newline hpart (c :: x) y
    rw [cons_append] at hline ⊢
    rw [holds_cons, holds_cons, hline, ih, Bool.or_assoc]

theorem rsplitOnce_none {text mark : List Char} (hsome : mark ≠ [])
    (h : holds text mark = false) : rsplitOnce text mark = none := by
  induction text with
  | nil => simp [rsplitOnce, hsome]
  | cons c text ih =>
    rw [holds_cons, Bool.or_eq_false_iff] at h
    rw [rsplitOnce, ih h.2]
    simp [h.1]

/-- Behind the last mark there is no other one. -/
theorem rsplitOnce_last {mark : List Char} (hsome : mark ≠ []) (x y : List Char)
    (h : holds (mark ++ y).tail mark = false) : rsplitOnce (x ++ mark ++ y) mark = some (x, y) := by
  induction x with
  | nil =>
    cases mark with
    | nil => exact absurd rfl hsome
    | cons c mark =>
      have hnone := rsplitOnce_none hsome h
      have hstart : (c :: mark).isPrefixOf (c :: (mark ++ y)) = true :=
        isPrefixOf_iff_prefix.mpr (prefix_append (c :: mark) y)
      rw [nil_append, cons_append, rsplitOnce]
      rw [cons_append, tail_cons] at hnone
      simp only [hnone, hstart, if_true]
      simp
  | cons c x ih =>
    rw [cons_append, cons_append, rsplitOnce, ih]

theorem linesFrom_newline (line x y : List Char) :
    linesFrom line (x ++ '\n' :: y) = linesFrom line (x ++ ['\n']) ++ lines y := by
  induction x generalizing line with
  | nil => rfl
  | cons c x ih =>
    rw [cons_append, cons_append, linesFrom, linesFrom]
    split
    · rw [ih]
      rfl
    · exact ih (line ++ [c])

theorem splitNewlines_ne_nil (text : List Char) : splitNewlines text ≠ [] := by
  cases text with
  | nil => exact cons_ne_nil _ _
  | cons c text =>
    rw [splitNewlines]
    split
    · exact cons_ne_nil _ _
    · split <;> exact cons_ne_nil _ _

theorem splitNewlines_newline (x y : List Char) :
    splitNewlines (x ++ '\n' :: y) = splitNewlines x ++ splitNewlines y := by
  induction x with
  | nil => rfl
  | cons c x ih =>
    rw [cons_append, splitNewlines, splitNewlines, ih]
    split
    · rfl
    · cases hx : splitNewlines x with
      | nil => exact absurd hx (splitNewlines_ne_nil x)
      | cons line rest => rfl

theorem joinLines_append {ms : List (List Char)} (hls : ls ≠ []) (hms : ms ≠ []) :
    joinLines (ls ++ ms) = joinLines ls ++ '\n' :: joinLines ms := by
  induction ls with
  | nil => exact absurd rfl hls
  | cons l ls ih =>
    cases ls with
    | nil =>
      cases ms with
      | nil => exact absurd rfl hms
      | cons m ms => rfl
    | cons l' ls =>
      have hrest := ih (cons_ne_nil l' ls)
      simp only [cons_append, joinLines] at hrest ⊢
      rw [hrest, append_assoc]
      rfl

theorem blankMarkers_newline (x y : List Char) :
    blankMarkers (x ++ '\n' :: y) = blankMarkers x ++ '\n' :: blankMarkers y := by
  rw [blankMarkers, splitNewlines_newline, map_append, joinLines_append]
  · rfl
  · simpa using splitNewlines_ne_nil x
  · simpa using splitNewlines_ne_nil y

/-- The lines before a newline are cleaned, and then the ones behind it. -/
theorem markedLines_newline (x y : List Char) : lines (blankMarkers (x ++ '\n' :: y)) =
    lines (blankMarkers x ++ ['\n']) ++ lines (blankMarkers y) := by
  rw [blankMarkers_newline]
  exact linesFrom_newline [] _ _

theorem cleanLines_append (command : List Char) (e : Bool) (ls ms : List (List Char)) :
    ∃ e', cleanLines command e (ls ++ ms) =
      cleanLines command e ls ++ cleanLines command e' ms := by
  induction ls generalizing e with
  | nil => exact ⟨e, rfl⟩
  | cons l ls ih =>
    simp only [cons_append, cleanLines]
    split
    · exact ih e
    · split
      · exact ih true
      · split
        · exact ih e
        · obtain ⟨e', heq⟩ := ih e
          exact ⟨e', congrArg _ heq⟩

theorem cleanLines_kept {command line : List Char} (e : Bool) (ls : List (List Char))
    (htrimmed : trimmed line = line) (hsome : line ≠ []) (hprompt : isPrompt line = false)
    (hwrapper : isWrapperEcho line = false) (hcommand : line ≠ trimmed command)
    (hfragment : isCommandFragment command line = false) :
    cleanLines command e (line :: ls) = line :: cleanLines command e ls := by
  have hempty : line.isEmpty = false := by simpa using hsome
  simp [cleanLines, htrimmed, hempty, hprompt, hwrapper, hcommand, hfragment]

def IsPrinted (c : Char) : Prop := 0x20 ≤ c.toNat ∧ ¬ (0x80 ≤ c.toNat ∧ c.toNat ≤ 0x9F)

theorem not_mem_of_printed {text : List Char} (h : ∀ c ∈ text, IsPrinted c) :
    '\n' ∉ text ∧ '\r' ∉ text :=
  ⟨fun hc => absurd (h _ hc).1 (by decide), fun hc => absurd (h _ hc).1 (by decide)⟩

/-- An absolute path that no rule of the cleaning takes for something else. -/
structure Legible (path : List Char) : Prop where
  absolute : path.head? = some '/'
  printed : ∀ c ∈ path, IsPrinted c
  ends : ∀ c, path.getLast? = some c → isWhitespace c = false ∧ c ≠ '$' ∧ c ≠ '#' ∧ c ≠ '%'
  unmarked : isMarked path = false
  unwrapped : isWrapperEcho path = false
  unbegun : holds path beginMarker = false

namespace Legible

theorem no_newline (h : Legible path) : '\n' ∉ path := (not_mem_of_printed h.printed).1

theorem no_cr (h : Legible path) : '\r' ∉ path := (not_mem_of_printed h.printed).2

theorem ne_nil (h : Legible path) : path ≠ [] := by
  rintro rfl
  cases h.absolute

/-- Blanks around the path are dropped, and nothing of the path itself. -/
theorem trimmed_around (h : Legible path) (front back : List Char)
    (hfront : ∀ c ∈ front, isWhitespace c = true) (hback : ∀ c ∈ back, isWhitespace c = true) :
    trimmed (front ++ path ++ back) = path := by
  have hstart : (path ++ back).dropWhile isWhitespace = path ++ back := by
    cases hpath : path with
    | nil => exact absurd hpath h.ne_nil
    | cons c rest =>
      have habsolute := h.absolute
      rw [hpath] at habsolute
      have hc : c = '/' := Option.some.inj habsolute
      exact dropWhile_cons_of_neg (by rw [hc]; decide)
  have hend : path.reverse.dropWhile isWhitespace = path.reverse := by
    cases hpath : path.reverse with
    | nil => rfl
    | cons c rest =>
      have hlast : path.getLast? = some c := by rw [List.getLast?_eq_head?_reverse, hpath]; rfl
      refine dropWhile_cons_of_neg ?_
      rw [(h.ends c hlast).1]
      exact Bool.false_ne_true
  have hreverse : ∀ c ∈ back.reverse, isWhitespace c = true := fun c hc =>
    hback c (mem_reverse.mp hc)
  rw [trimmed, append_assoc, dropWhile_append_of_pos hfront, hstart, reverse_append,
    dropWhile_append_of_pos hreverse, hend, reverse_reverse]

theorem not_prompt (h : Legible path) : isPrompt path = false := by
  have hsingle : ∀ text : List Char, text.head? ≠ some '/' → (path == text) = false := by
    intro text htext
    rw [beq_eq_false_iff_ne]
    rintro rfl
    exact htext h.absolute
  have hends : ∀ c, (c = '$' ∨ c = '#' ∨ c = '%') → (path.getLast? == some c) = false := by
    intro c hc
    rw [beq_eq_false_iff_ne]
    intro hlast
    obtain ⟨-, hdollar, hhash, hpercent⟩ := h.ends c hlast
    rcases hc with rfl | rfl | rfl
    · exact hdollar rfl
    · exact hhash rfl
    · exact hpercent rfl
  unfold isPrompt
  simp only [hsingle ['$'] (by decide), hsingle ['#'] (by decide), hsingle ['>'] (by decide),
    hsingle ['%'] (by decide), hsingle ['>', '>'] (by decide), hends '$' (.inl rfl),
    hends '#' (.inr (.inl rfl)), hends '%' (.inr (.inr rfl)), Bool.or_false, Bool.and_false]

theorem kept (h : Legible path) (e : Bool) (ls : List (List Char)) :
    cleanLines cwdProbe e (path :: ls) = path :: cleanLines cwdProbe e ls := by
  have htrimmed : trimmed path = path := by
    have hnone := h.trimmed_around [] [] (by simp) (by simp)
    rwa [nil_append, append_nil] at hnone
  refine cleanLines_kept e ls htrimmed h.ne_nil h.not_prompt h.unwrapped ?_ ?_
  · intro heq
    have habsolute := h.absolute
    rw [heq] at habsolute
    revert habsolute
    decide
  · simp [isCommandFragment, h.absolute]

end Legible

/-- The reply as it is when the line ends are the same everywhere. -/
def plainReply (path : List Char) : List Char :=
  beginMarker ++ '\n' :: (path ++ '\n' :: (endMarker ++ ['\n']))

theorem lines_reply (h : Legible path) (rest : List Char) :
    lines (blankMarkers (plainReply path ++ rest)) =
      beginMarker :: path :: endMarker :: lines (blankMarkers rest) := by
  have hreply : plainReply path ++ rest =
      beginMarker ++ '\n' :: (path ++ '\n' :: (endMarker ++ '\n' :: rest)) := by
    simp [plainReply]
  have hpath : blankMarkers path = path := by
    rw [blankMarkers_single h.no_newline, h.unmarked]
    rfl
  have hbegin : lines (blankMarkers beginMarker ++ ['\n']) = [beginMarker] := by decide
  have hend : lines (blankMarkers endMarker ++ ['\n']) = [endMarker] := by decide
  rw [hreply, markedLines_newline, markedLines_newline, markedLines_newline, hbegin, hend, hpath,
    lines_line h.no_newline h.no_cr]
  rfl

theorem clean_reply (h : Legible path) (e : Bool) (ls : List (List Char)) :
    cleanLines cwdProbe e (beginMarker :: path :: endMarker :: ls) =
      beginMarker :: path :: endMarker :: cleanLines cwdProbe e ls := by
  rw [cleanLines_kept e _ (by decide) (by decide) (by decide) (by decide) (by decide) (by decide),
    h.kept, cleanLines_kept e _ (by decide) (by decide) (by decide) (by decide) (by decide)
      (by decide)]

theorem exists_joinLines_append (ls : List (List Char)) {ms : List (List Char)} (hms : ms ≠ []) :
    ∃ front, joinLines (ls ++ ms) = front ++ joinLines ms := by
  cases ls with
  | nil => exact ⟨[], rfl⟩
  | cons l ls =>
    refine ⟨joinLines (l :: ls) ++ ['\n'], ?_⟩
    rw [joinLines_append (cons_ne_nil l ls) hms, append_assoc]
    rfl

theorem holds_joinLines (hpart : '\n' ∉ part) (hsome : part ≠ [])
    (h : ∀ line ∈ ls, holds line part = false) :
    holds (joinLines ls) part = false := by
  induction ls with
  | nil =>
    cases part with
    | nil => exact absurd rfl hsome
    | cons c part => rfl
  | cons l ls ih =>
    rw [forall_mem_cons] at h
    cases ls with
    | nil => exact h.1
    | cons l' ls =>
      have hlater := ih h.2
      rw [joinLines, holds_newline hpart hsome, h.1, hlater]
      · rfl
      · exact cons_ne_nil l' ls

theorem endMarker_line : '\n' ∉ endMarker ∧ endMarker ≠ [] := by decide

theorem beginMarker_line : '\n' ∉ beginMarker ∧ beginMarker ≠ [] := by decide

/-- The last reply is read. -/
theorem parse_reply (h : Legible path) (before after : List (List Char))
    (hafter : ∀ line ∈ after, holds line endMarker = false) :
    parseShellRuntimeCwd (joinLines (before ++ beginMarker :: path :: endMarker :: after)) =
      .ok path := by
  obtain ⟨front, hfront⟩ := exists_joinLines_append before
    (cons_ne_nil beginMarker (path :: endMarker :: after))
  have hreply : joinLines (beginMarker :: path :: endMarker :: after) =
      beginMarker ++ '\n' :: (path ++ '\n' :: joinLines (endMarker :: after)) := rfl
  obtain ⟨back, hback, hlast⟩ : ∃ back, joinLines (endMarker :: after) = endMarker ++ back ∧
      holds (endMarker ++ back).tail endMarker = false := by
    cases after with
    | nil => exact ⟨[], (append_nil _).symm, by decide⟩
    | cons l after =>
      have hnone : holds (joinLines (l :: after)) endMarker = false :=
        holds_joinLines endMarker_line.1 endMarker_line.2 hafter
      refine ⟨'\n' :: joinLines (l :: after), rfl, ?_⟩
      have htail : (endMarker ++ '\n' :: joinLines (l :: after)).tail =
          endMarker.tail ++ '\n' :: joinLines (l :: after) := rfl
      rw [htail, holds_newline endMarker_line.1 endMarker_line.2, hnone]
      decide
  have hend : rsplitOnce (joinLines (before ++ beginMarker :: path :: endMarker :: after))
      endMarker = some (front ++ beginMarker ++ '\n' :: (path ++ ['\n']), back) := by
    have htext : joinLines (before ++ beginMarker :: path :: endMarker :: after) =
        front ++ beginMarker ++ '\n' :: (path ++ ['\n']) ++ endMarker ++ back := by
      rw [hfront, hreply, hback]
      simp
    rw [htext]
    exact rsplitOnce_last (by decide) _ back hlast
  have hbegin : rsplitOnce (front ++ beginMarker ++ '\n' :: (path ++ ['\n'])) beginMarker =
      some (front, '\n' :: (path ++ ['\n'])) := by
    refine rsplitOnce_last (by decide) front _ ?_
    have htail : (beginMarker ++ '\n' :: (path ++ ['\n'])).tail =
        beginMarker.tail ++ '\n' :: (path ++ '\n' :: []) := rfl
    rw [htail, holds_newline beginMarker_line.1 beginMarker_line.2,
      holds_newline beginMarker_line.1 beginMarker_line.2, h.unbegun]
    decide
  have hblank : ∀ c ∈ ['\n'], isWhitespace c = true := forall_mem_singleton.mpr (by decide)
  have htrimmed := h.trimmed_around ['\n'] ['\n'] hblank hblank
  rw [parseShellRuntimeCwd, hend]
  dsimp only
  rw [hbegin]
  exact congrArg Except.ok htrimmed

theorem replaceCrlf_append {x y : List Char} (h : x.getLast? ≠ some '\r' ∨ y.head? ≠ some '\n') :
    replaceCrlf (x ++ y) = replaceCrlf x ++ replaceCrlf y := by
  fun_induction replaceCrlf x with
  | case1 => rfl
  | case2 rest ih =>
    have hrest : rest.getLast? ≠ some '\r' ∨ y.head? ≠ some '\n' := by
      refine h.imp_left fun hlast => ?_
      cases rest with
      | nil => decide
      | cons c rest => simpa using hlast
    exact congrArg ('\n' :: ·) (ih hrest)
  | case3 c rest hother ih =>
    have hrest : rest.getLast? ≠ some '\r' ∨ y.head? ≠ some '\n' := by
      refine h.imp_left fun hlast => ?_
      cases rest with
      | nil => decide
      | cons d rest => simpa using hlast
    rw [cons_append, replaceCrlf, ih hrest, cons_append]
    intro tail hc htail
    cases rest with
    | nil =>
      rw [nil_append] at htail
      rcases h with hlast | hhead
      · exact hlast (by rw [hc]; rfl)
      · exact hhead (by rw [htail]; rfl)
    | cons d rest => exact hother rest hc (by rw [(List.cons.inj htail).1])

theorem normalize_append {x y : List Char} (h : x.getLast? ≠ some '\r' ∨ y.head? ≠ some '\n') :
    normalize (x ++ y) = normalize x ++ normalize y := by
  rw [normalize, replaceCrlf_append h]
  exact map_append

/-- The end of a line, with or without a carriage return. -/
def IsEol (eol : List Char) : Prop := eol = ['\n'] ∨ eol = ['\r', '\n']

theorem eol_getLast (heol : IsEol eol) (text : List Char) :
    (text ++ eol).getLast? ≠ some '\r' := by
  rcases heol with rfl | rfl
  · simp
  · simp

theorem normalize_reply (heol : IsEol eol) (h : Legible path) :
    normalize (cwdReply eol path) = plainReply path := by
  have hline : ∀ text : List Char, '\r' ∉ text → normalize (text ++ eol) = text ++ ['\n'] := by
    intro text htext
    obtain ⟨-, hn, -, hcrlf⟩ := normalize_line htext
    rcases heol with rfl | rfl
    · exact hn
    · exact hcrlf
  have hbegin := hline beginMarker (by decide)
  have hpath := hline path h.no_cr
  have hend := hline endMarker (by decide)
  have hfirst := eol_getLast heol beginMarker
  have hsecond := eol_getLast heol (beginMarker ++ eol ++ path)
  rw [append_assoc] at hsecond
  rw [cwdReply, normalize_append (.inl hsecond), normalize_append (.inl hfirst), hbegin, hpath,
    hend]
  simp [plainReply]

/-- Printed characters at the start of a text are left as they are, whatever follows. -/
structure StripsInTurn (strip : List Char → List Char) : Prop extends StripsEscapes strip where
  inTurn : ∀ text rest : List Char,
    (∀ c ∈ text, c = '\n' ∨ IsPrinted c) → strip (text ++ rest) = text ++ strip rest

/-- No text at all, or complete lines whose escapes end within them. -/
def WholeLines (strip : List Char → List Char) (text : List Char) : Prop :=
  text = [] ∨ ∃ front, text = front ++ ['\n'] ∧
    ∀ rest, strip (front ++ rest) = strip front ++ strip rest

theorem strip_reply (hstrip : StripsInTurn strip)
    {before : List Char} (heol : IsEol eol) (h : Legible path)
    (hbefore : WholeLines strip (normalize before)) (after : List Char) :
    ∃ ls, lines (blankMarkers (strip (normalize (before ++ cwdReply eol path ++ after)))) =
      ls ++ beginMarker :: path :: endMarker ::
        lines (blankMarkers (strip (normalize after))) := by
  have hreply : normalize (before ++ cwdReply eol path ++ after) =
      normalize before ++ (plainReply path ++ normalize after) := by
    have hlast := eol_getLast heol (before ++ (beginMarker ++ eol ++ (path ++ eol)) ++ endMarker)
    have hwhole : before ++ cwdReply eol path =
        before ++ (beginMarker ++ eol ++ (path ++ eol)) ++ endMarker ++ eol := by
      simp [cwdReply]
    rw [← hwhole] at hlast
    have hhead : (cwdReply eol path).head? ≠ some '\n' := by
      obtain ⟨rest, hrest⟩ : ∃ rest, cwdReply eol path = '_' :: rest := ⟨_, rfl⟩
      rw [hrest]
      simp
    rw [normalize_append (.inl hlast), normalize_append (.inr hhead), normalize_reply heol h,
      append_assoc]
  have hprinted : ∀ c ∈ plainReply path, c = '\n' ∨ IsPrinted c := by
    have hmarkers : (beginMarker ++ endMarker).all
        (fun c => 0x20 ≤ c.toNat && !(0x80 ≤ c.toNat && c.toNat ≤ 0x9F)) = true := by decide
    have hmarker : ∀ c ∈ beginMarker ++ endMarker, IsPrinted c := by
      intro c hc
      have hplain := all_eq_true.mp hmarkers c hc
      simp only [Bool.and_eq_true, Bool.not_eq_true', Bool.and_eq_false_iff, decide_eq_true_eq,
        decide_eq_false_iff_not] at hplain
      unfold IsPrinted
      omega
    intro c hc
    simp only [plainReply, mem_append, mem_cons, not_mem_nil, or_false] at hc
    rcases hc with hc | rfl | hc | rfl | hc | rfl
    · exact .inr (hmarker c (mem_append_left _ hc))
    · exact .inl rfl
    · exact .inr (h.printed c hc)
    · exact .inl rfl
    · exact .inr (hmarker c (mem_append_right _ hc))
    · exact .inl rfl
  rw [hreply]
  rcases hbefore with hnone | ⟨front, hfront, hcomplete⟩
  · refine ⟨[], ?_⟩
    rw [hnone, nil_append, hstrip.inTurn _ _ hprinted, lines_reply h]
    rfl
  · refine ⟨lines (blankMarkers (strip front) ++ ['\n']), ?_⟩
    have hnewline : strip ('\n' :: (plainReply path ++ normalize after)) =
        '\n' :: (plainReply path ++ strip (normalize after)) :=
      hstrip.inTurn ('\n' :: plainReply path) (normalize after)
        (forall_mem_cons.mpr ⟨.inl rfl, hprinted⟩)
    rw [hfront, append_assoc, hcomplete, singleton_append, hnewline, markedLines_newline,
      lines_reply h]

/-- A line that no rule of the cleaning takes out. -/
def isOrdinary (command line : List Char) : Bool :=
  !line.isEmpty && !isPrompt line && !isWrapperEcho line && line != trimmed command &&
    !isCommandFragment command line

/-- All ordinary lines are left, in their order. -/
theorem cleanLines_ordinary (command : List Char) (e : Bool) (ls : List (List Char)) :
    (cleanLines command e ls).filter (isOrdinary command) =
      (ls.map trimmed).filter (isOrdinary command) := by
  induction ls generalizing e with
  | nil => rfl
  | cons l ls ih =>
    have hfilter : ∀ {l' : List Char}, isOrdinary command l' = false → ∀ ls' : List (List Char),
        (l' :: ls').filter (isOrdinary command) = ls'.filter (isOrdinary command) := by
      intro l' hl' ls'
      exact filter_cons_of_neg (by rw [hl']; exact Bool.false_ne_true)
    rw [map_cons]
    by_cases hdropped : ((trimmed l).isEmpty || isPrompt (trimmed l) ||
        isWrapperEcho (trimmed l)) = true
    · have hclean : cleanLines command e (l :: ls) = cleanLines command e ls := if_pos hdropped
      rw [hclean, ih, hfilter]
      simp only [Bool.or_eq_true] at hdropped
      rcases hdropped with (h | h) | h <;> simp [isOrdinary, h]
    · by_cases hecho : (!e && trimmed l == trimmed command) = true
      · have hclean : cleanLines command e (l :: ls) = cleanLines command true ls :=
          (if_neg hdropped).trans (if_pos hecho)
        have hcommand : trimmed l = trimmed command := by
          rw [Bool.and_eq_true] at hecho
          exact beq_iff_eq.mp hecho.2
        rw [hclean, ih, hfilter]
        simp [isOrdinary, hcommand]
      · by_cases hfragment : isCommandFragment command (trimmed l) = true
        · have hclean : cleanLines command e (l :: ls) = cleanLines command e ls :=
            (if_neg hdropped).trans ((if_neg hecho).trans (if_pos hfragment))
          rw [hclean, ih, hfilter]
          simp [isOrdinary, hfragment]
        · have hclean : cleanLines command e (l :: ls) = trimmed l :: cleanLines command e ls :=
            (if_neg hdropped).trans ((if_neg hecho).trans (if_neg hfragment))
          rw [hclean, filter_cons, filter_cons, ih]

theorem normalize_lines (heol : IsEol eol) (h : ∀ line ∈ ls, '\r' ∉ line) :
    normalize (ls.flatMap (· ++ eol)) = ls.flatMap (· ++ ['\n']) := by
  induction ls with
  | nil => rfl
  | cons l ls ih =>
    rw [forall_mem_cons] at h
    obtain ⟨-, hn, -, hcrlf⟩ := normalize_line h.1
    have hline : normalize (l ++ eol) = l ++ ['\n'] := by
      rcases heol with rfl | rfl
      · exact hn
      · exact hcrlf
    rw [flatMap_cons, flatMap_cons, normalize_append (.inl (eol_getLast heol l)), hline,
      ih h.2]

theorem lines_lines (h : ∀ line ∈ ls, '\n' ∉ line ∧ '\r' ∉ line) :
    lines (blankMarkers (ls.flatMap (· ++ ['\n']))) =
      ls.map fun line => if isMarked line then [] else line := by
  induction ls with
  | nil => rfl
  | cons l ls ih =>
    rw [forall_mem_cons] at h
    obtain ⟨⟨hn, hr⟩, hrest⟩ := h
    have hline : lines (blankMarkers l ++ ['\n']) = [if isMarked l then [] else l] := by
      rw [blankMarkers_single hn]
      split
      · rfl
      · exact lines_line hn hr
    rw [flatMap_cons, append_assoc, singleton_append, markedLines_newline, hline,
      ih hrest]
    rfl

/-- Lines of printed characters come to the cleaning as they are. -/
theorem lines_printed (hstrip : StripsInTurn strip) (heol : IsEol eol)
    (h : ∀ line ∈ ls, ∀ c ∈ line, IsPrinted c) :
    lines (blankMarkers (strip (normalize (ls.flatMap (· ++ eol))))) =
      ls.map fun line => if isMarked line then [] else line := by
  have hplain := fun line hline => not_mem_of_printed (h line hline)
  have hprinted : strip (ls.flatMap (· ++ ['\n'])) = ls.flatMap (· ++ ['\n']) := by
    refine hstrip.printed _ fun c hc => ?_
    obtain ⟨line, hline, hc⟩ := mem_flatMap.mp hc
    rcases mem_append.mp hc with hc | hc
    · exact .inr (h line hline c hc)
    · exact .inl (mem_singleton.mp hc)
  rw [normalize_lines heol fun line hline => (hplain line hline).2, hprinted]
  exact lines_lines hplain

theorem ordinary_unmarked (command : List Char) (ls : List (List Char)) :
    ((ls.map fun line => if isMarked line then [] else line).map trimmed).filter
        (isOrdinary command) =
      ((ls.filter (!isMarked ·)).map trimmed).filter (isOrdinary command) := by
  induction ls with
  | nil => rfl
  | cons l ls ih =>
    rw [map_cons, map_cons, filter_cons, ih]
    cases hmarked : isMarked l with
    | true => simp [hmarked, isOrdinary, trimmed]
    | false => simp [hmarked, filter_cons]

/-- A legible path is read off the reply to the probe, whatever stands before it; and the cleaning
leaves all ordinary lines of an output. -/
theorem cwd_probe_read {strip : List Char → List Char} (hstrip : StripsInTurn strip)
    {eol before path after : List Char} (heol : IsEol eol) (h : Legible path)
    (hbefore : WholeLines strip (normalize before))
    (hafter : ∀ e, ∀ line ∈ cleanLines cwdProbe e (lines (blankMarkers (strip (normalize after)))),
      holds line endMarker = false) :
    parseShellRuntimeCwd (cleanShellOutput strip (before ++ cwdReply eol path ++ after) cwdProbe) =
        .ok path ∧
      ∀ (command : List Char) (ls : List (List Char)), (∀ line ∈ ls, ∀ c ∈ line, IsPrinted c) →
        ∃ left, cleanShellOutput strip (ls.flatMap (· ++ eol)) command = joinLines left ∧
          left.filter (isOrdinary command) =
            ((ls.filter (!isMarked ·)).map trimmed).filter (isOrdinary command) := by
  constructor
  · obtain ⟨front, hlines⟩ := strip_reply hstrip heol h hbefore after
    obtain ⟨e', hclean⟩ := cleanLines_append cwdProbe false front
      (beginMarker :: path :: endMarker :: lines (blankMarkers (strip (normalize after))))
    rw [cleanShellOutput, cleanText, hlines, hclean, clean_reply h]
    exact parse_reply h _ _ (hafter e')
  · intro command ls hls
    refine ⟨_, rfl, ?_⟩
    rw [lines_printed hstrip heol hls, cleanLines_ordinary, ordinary_unmarked]

theorem stripsInTurn_dropControls : StripsInTurn dropControls where
  toStripsEscapes := stripsEscapes_dropControls
  inTurn := by
    intro text rest h
    have htext := stripsEscapes_dropControls.printed text h
    have happend : dropControls (text ++ rest) = dropControls text ++ dropControls rest :=
      filter_append text rest
    rw [happend, htext]

/-- A directory with a blank in its name, between two prompts. -/
theorem cwd_probe_read_sample :
    parseShellRuntimeCwd (cleanShellOutput dropControls
      ("$ \n".toList ++ cwdReply ['\r', '\n'] "/srv/my data".toList ++ "$ ".toList) cwdProbe) =
        .ok "/srv/my data".toList := by
  have hlegible : Legible "/srv/my data".toList := by
    refine ⟨rfl, ?_, ?_, by decide, by decide, by decide⟩
    · simp [IsPrinted]
    · simp
      decide
  refine (cwd_probe_read stripsInTurn_dropControls (.inr rfl) hlegible ?_ ?_).1
  · exact .inr ⟨"$ ".toList, rfl, fun rest => filter_append _ rest⟩
  · intro e
    cases e <;> decide

theorem blank_line_removed : ¬ ∀ strip, StripsInTurn strip →
    (∀ path : List Char, path.head? = some '/' → '\n' ∉ path →
      parseShellRuntimeCwd (cleanShellOutput strip (cwdReply ['\n'] path) cwdProbe) = .ok path) ∧
    ∀ (command : List Char) (ls : List (List Char)), (∀ line ∈ ls, ∀ c ∈ line, IsPrinted c) →
      cleanShellOutput strip (ls.flatMap (· ++ ['\n'])) command = joinLines ls := by
  intro hall
  have hprinted : ∀ line ∈ [['a'], [], ['b']], ∀ c ∈ line, IsPrinted c := by
    simp [IsPrinted]
  have h := (hall dropControls stripsInTurn_dropControls).2 "ls".toList [['a'], [], ['b']] hprinted
  revert h
  decide

end ColossalCode.Pty
