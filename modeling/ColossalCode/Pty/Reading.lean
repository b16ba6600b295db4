import ColossalCode.Pty.Lines
import ColossalCode.Pty.Osc133

/-! What is left of a shell's output: prompts and echoes of the command are taken out. -/
namespace ColossalCode.Pty
open List

open Text

variable {strip : List Char → List Char} {command text : List Char} {c : Char}

def singleQuote : Char := Char.ofNat 0x27
def doubleQuote : Char := Char.ofNat 0x22

/-- `replace("\r\n", "\n")`. -/
def replaceCrlf : List Char → List Char
  | [] => []
  | '\r' :: '\n' :: rest => '\n' :: replaceCrlf rest
  | c :: rest => c :: replaceCrlf rest

/-- `replace("\r", "\n")`. -/
def replaceCr (text : List Char) : List Char := text.map fun c => if c = '\r' then '\n' else c

def normalize (text : List Char) : List Char := replaceCr (replaceCrlf text)

/-- What `strip_ansi_escapes` documents: escapes and control characters go, newlines and printed
characters stay. -/
structure StripsEscapes (strip : List Char → List Char) : Prop where
  sublist : ∀ text, (strip text).Sublist text
  noControl : ∀ text, ∀ c ∈ strip text, c.toNat < 0x20 → c = '\n'
  printed : ∀ text : List Char,
    (∀ c ∈ text, c = '\n' ∨ 0x20 ≤ c.toNat ∧ ¬ (0x80 ≤ c.toNat ∧ c.toNat ≤ 0x9F)) →
      strip text = text

/-- The lines that the marker expression matches. -/
def isMarked (line : List Char) : Bool :=
  holds line "__CMD_DONE_".toList || holds line "__NITE_CTL__".toList

def blankMarkers (text : List Char) : List Char :=
  joinLines ((splitNewlines text).map fun line => if isMarked line then [] else line)

/-- A text without white space and quotes. -/
def normalizedFragment (text : List Char) : List Char :=
  text.filter fun c => !isWhitespace c && c != singleQuote && c != doubleQuote

def isPrompt (trimmed : List Char) : Bool :=
  let endsWith (c : Char) : Bool := trimmed.getLast? == some c
  let looksLikePrompt := trimmed.contains '@' || trimmed.contains '~' ||
    trimmed.head? == some '/' || "~/".toList.isPrefixOf trimmed
  trimmed == ['$'] || trimmed == ['#'] || trimmed == ['>'] || trimmed == ['%'] ||
    (looksLikePrompt && (endsWith '$' || endsWith '#' || endsWith '%')) ||
    trimmed == ['>'] || trimmed == ['>', '>']

def isWrapperEcho (trimmed : List Char) : Bool :=
  holds trimmed "__nite_cmd".toList || holds trimmed "__nite_code".toList ||
    holds trimmed "__SHELL_READY__".toList || holds trimmed "stty -echo -echoctl".toList ||
    holds trimmed "__START__".toList || holds trimmed "__DONE__".toList ||
    holds trimmed "__NITE_CTL__".toList || holds trimmed "CMD_DONE_".toList ||
    (holds trimmed "printf".toList && holds trimmed "__CMD_DONE_".toList) ||
    (trimmed.head? == some '<' &&
      (holds trimmed "printf".toList || holds trimmed "__nite".toList ||
        holds trimmed "__START__".toList || holds trimmed "__DONE__".toList))

/-- A redrawn piece of the command. -/
def isCommandFragment (command trimmed : List Char) : Bool :=
  trimmed.head? == some '<' &&
    (let fragment := normalizedFragment (trimmed.dropWhile (· == '<'))
     !fragment.isEmpty && holds (normalizedFragment command) fragment)

/-- The loop over the lines; the first line that is the command is its echo. -/
def cleanLines (command : List Char) : Bool → List (List Char) → List (List Char)
  | _, [] => []
  | skippedCommandEcho, line :: rest =>
    let line := trimmed line
    if line.isEmpty || isPrompt line || isWrapperEcho line then
      cleanLines command skippedCommandEcho rest
    else if !skippedCommandEcho && line == trimmed command then cleanLines command true rest
    else if isCommandFragment command line then cleanLines command skippedCommandEcho rest
    else line :: cleanLines command skippedCommandEcho rest

/-- What `clean_shell_output` does once the escapes are gone. -/
def cleanText (command text : List Char) : List Char :=
  joinLines (cleanLines command false (lines (blankMarkers text)))

def cleanShellOutput (strip : List Char → List Char) (output command : List Char) : List Char :=
  cleanText command (strip (normalize output))

/-- A line of its own that is left in. -/
def keeps (command line : List Char) : Bool :=
  !isMarked line && !isPrompt line && !isWrapperEcho line && line != trimmed command &&
    !isCommandFragment command line

theorem replaceCr_of_no_cr (h : '\r' ∉ text) : replaceCr text = text := by
  induction text with
  | nil => rfl
  | cons c text ih =>
    rw [mem_cons, not_or] at h
    have hc : c ≠ '\r' := Ne.symm h.1
    have htext : replaceCr text = text := ih h.2
    show (if c = '\r' then '\n' else c) :: replaceCr text = c :: text
    simp [hc, htext]

/-- The three ways a line may end become one. -/
theorem normalize_line (h : '\r' ∉ text) :
    normalize text = text ∧ normalize (text ++ ['\n']) = text ++ ['\n'] ∧
      normalize (text ++ ['\r']) = text ++ ['\n'] ∧
        normalize (text ++ ['\r', '\n']) = text ++ ['\n'] := by
  have hcrlf : ∀ rest, replaceCrlf (text ++ rest) = text ++ replaceCrlf rest := by
    intro rest
    induction text with
    | nil => rfl
    | cons c text ih =>
      rw [mem_cons, not_or] at h
      rw [cons_append, replaceCrlf, ih h.2, cons_append]
      intro tail hc
      exact absurd hc.symm h.1
  have hcr : ∀ rest, replaceCr (text ++ rest) = text ++ replaceCr rest := by
    intro rest
    have happend : replaceCr (text ++ rest) = replaceCr text ++ replaceCr rest := map_append
    rw [happend, replaceCr_of_no_cr h]
  refine ⟨?_, ?_, ?_, ?_⟩
  · have hnil := hcrlf []
    rw [append_nil] at hnil
    rw [normalize, hnil, hcr]
    simp [replaceCrlf, replaceCr]
  · rw [normalize, hcrlf, hcr]
    rfl
  · rw [normalize, hcrlf, hcr]
    rfl
  · rw [normalize, hcrlf, hcr]
    rfl

/-- Cleaning keeps lines and takes off their white space. -/
theorem cleanLines_trimmed {e : Bool} {ls : List (List Char)} {l : List Char}
    (h : l ∈ cleanLines command e ls) : ∃ line ∈ ls, l = trimmed line := by
  induction ls generalizing e with
  | nil => exact absurd h not_mem_nil
  | cons line ls ih =>
    have hlater : ∀ {e}, l ∈ cleanLines command e ls → ∃ line' ∈ line :: ls, l = trimmed line' := by
      intro e h
      obtain ⟨line', hline, heq⟩ := ih h
      exact ⟨line', mem_cons_of_mem _ hline, heq⟩
    rw [cleanLines] at h
    split_ifs at h
    · exact hlater h
    · exact hlater h
    · exact hlater h
    · rcases mem_cons.mp h with heq | h
      · exact ⟨line, mem_cons_self, heq⟩
      · exact hlater h

theorem mem_blankMarkers (hc : c ∈ blankMarkers text) : c = '\n' ∨ c ∈ text := by
  rcases mem_joinLines hc with hn | ⟨l, hl, hcl⟩
  · exact .inl hn
  · obtain ⟨line, hline, rfl⟩ := mem_map.mp hl
    split at hcl
    · exact absurd hcl not_mem_nil
    · exact .inr (mem_splitNewlines hline hcl)

/-- Nothing is in the cleaned output that is not in the text. -/
theorem mem_cleanText (hc : c ∈ cleanText command text) : c = '\n' ∨ c ∈ text := by
  rcases mem_joinLines hc with hn | ⟨l, hl, hcl⟩
  · exact .inl hn
  · obtain ⟨line, hline, rfl⟩ := cleanLines_trimmed hl
    have hcline := (trimmed_sublist line).subset hcl
    have hflat : c ∈ (lines (blankMarkers text)).flatten :=
      mem_flatten.mpr ⟨line, hline, hcline⟩
    exact mem_blankMarkers ((flatten_lines _).subset hflat)

theorem blankMarkers_single (h : '\n' ∉ text) :
    blankMarkers text = if isMarked text then [] else text := by
  rw [blankMarkers, splitNewlines_single h]
  rfl

theorem blankMarkers_line (h : '\n' ∉ text) :
    blankMarkers (text ++ ['\n']) = (if isMarked text then [] else text) ++ ['\n'] := by
  rw [blankMarkers, splitNewlines_line h]
  rfl

/-- A single line is left as it is but for its outer white space, or it goes. -/
theorem cleanText_single (h : '\n' ∉ text) :
    cleanText command text = [] ∨ cleanText command text = trimmed text := by
  unfold cleanText
  rw [blankMarkers_single h]
  split
  · exact .inl rfl
  · by_cases hne : text = []
    · subst hne
      exact .inl rfl
    · rw [lines_single h hne]
      simp only [cleanLines]
      split_ifs
      · exact .inl rfl
      · exact .inl rfl
      · exact .inl rfl
      · exact .inr rfl

theorem cleanLines_solid (hsolid : ∀ c ∈ text, isWhitespace c = false) (hne : text ≠ [])
    (hmarked : isMarked text = false) :
    joinLines (cleanLines command false [text]) = if keeps command text then text else [] := by
  have hempty : text.isEmpty = false := by simpa using hne
  have hkeeps : keeps command text = (!isPrompt text && !isWrapperEcho text &&
      text != trimmed command && !isCommandFragment command text) := by
    simp [keeps, hmarked]
  rw [hkeeps]
  simp only [cleanLines, trimmed_solid hsolid, hempty]
  cases isPrompt text <;> cases isWrapperEcho text <;> cases isCommandFragment command text <;>
    by_cases hcommand : text = trimmed command <;> simp [hcommand, joinLines]

/-- A line with no white space in it is left as it is, or it goes. -/
theorem cleanText_solid (hsolid : ∀ c ∈ text, isWhitespace c = false) (hne : text ≠ []) :
    cleanText command text = (if keeps command text then text else []) ∧
      cleanText command (text ++ ['\n']) = if keeps command text then text else [] := by
  have hn : '\n' ∉ text := fun h => absurd (hsolid '\n' h) (by decide)
  have hr : '\r' ∉ text := fun h => absurd (hsolid '\r' h) (by decide)
  unfold cleanText
  rw [blankMarkers_single hn, blankMarkers_line hn]
  by_cases hmarked : isMarked text = true
  · have hkeeps : keeps command text = false := by simp [keeps, hmarked]
    rw [hkeeps, hmarked]
    exact ⟨rfl, rfl⟩
  · rw [Bool.not_eq_true] at hmarked
    simp only [hmarked, Bool.false_eq_true, if_false]
    rw [lines_single hn hne, lines_line hn hr]
    exact ⟨cleanLines_solid hsolid hne hmarked, cleanLines_solid hsolid hne hmarked⟩

end ColossalCode.Pty

/-! One command of a persistent shell: what it reads of the PTY until it is done. -/
namespace ColossalCode.Pty
open List

open Text

variable {strip : List Char → List Char} {r : Reading} {chunk : List UInt8} {output : List Char}

inductive ExitStatus where
  | completed (code : Int)
  | timeout
  | killed
  deriving DecidableEq, Repr

/-- What the forwarding task takes for debug messages of the PTY, for fragments of them, or for
nothing. -/
def isNoise (rawOutput : List Char) : Bool :=
  (holds rawOutput "read".toList && holds rawOutput "bytes from pty".toList) ||
    (holds rawOutput "read ".toList && holds rawOutput " bytes from pty".toList) ||
    ((trimmed rawOutput).all (fun c => c.isDigit || isWhitespace c) &&
      !(trimmed rawOutput).isEmpty) ||
    (trimmed rawOutput).isEmpty

/-- What `send_input_to_shell_session` forwards of a chunk. -/
def forward (chunk : List UInt8) : Option (List Char) :=
  let rawOutput := fromUtf8Lossy chunk
  if isNoise rawOutput then none else some rawOutput

structure Reading where
  oscParser : Parser
  commandStarted : Bool
  commandFinished : Bool
  exitCode : Option Int
  stdoutParts : List (List Char)
  deriving DecidableEq, Repr

def Reading.start : Reading := ⟨.new, false, false, none, []⟩

def Reading.applyEvent (r : Reading) : Event → Reading
  | .commandStart | .commandExecuted => { r with commandStarted := true }
  | .commandFinished code => { r with exitCode := code, commandFinished := true }
  | .promptStart => if r.commandStarted then { r with commandFinished := true } else r

def Reading.applyOsc133Events (r : Reading) (events : List Event) : Reading :=
  events.foldl Reading.applyEvent r

def Reading.addPart (r : Reading) (visible : List Char) : Reading :=
  if visible.isEmpty then r else { r with stdoutParts := r.stdoutParts ++ [visible] }

/-- One `StreamEvent::Stdout`. -/
def Reading.receive (r : Reading) (output : List Char) : Reading :=
  let (oscParser, events) := r.oscParser.push (utf8 output)
  let r := { r with oscParser }.applyOsc133Events events
  r.addPart (fromUtf8Lossy (stripOsc133 (utf8 output)))

/-- One read of the PTY. -/
def Reading.hear (r : Reading) (chunk : List UInt8) : Reading :=
  match forward chunk with
  | none => r
  | some output => r.receive output

/-- The loop ends at the chunk that finishes the command. -/
def Reading.hearAll (r : Reading) : List (List UInt8) → Reading
  | [] => r
  | chunk :: chunks => if r.commandFinished then r else (r.hear chunk).hearAll chunks

def Reading.exitStatus (r : Reading) (pastDeadline : Bool) : ExitStatus :=
  match r.exitCode with
  | some code => .completed code
  | none =>
    if r.commandStarted && r.commandFinished then .completed 0
    else if r.commandStarted then .killed
    else if pastDeadline then .timeout
    else .killed

structure ExecCommandOutput where
  exitStatus : ExitStatus
  stdout : List Char
  deriving DecidableEq, Repr

def Reading.report (strip : List Char → List Char) (command : List Char) (pastDeadline : Bool)
    (r : Reading) : ExecCommandOutput :=
  ⟨r.exitStatus pastDeadline, cleanShellOutput strip r.stdoutParts.flatten command⟩

/-- What `exec_command_in_shell_session` returns of a command that has read these chunks. The
loop has ended with the command, at the deadline, or before it with the closed channel. -/
def execCommand (strip : List Char → List Char) (command : List Char) (pastDeadline : Bool)
    (chunks : List (List UInt8)) : ExecCommandOutput :=
  (Reading.start.hearAll chunks).report strip command pastDeadline

theorem receive_eq (r : Reading) (output : List Char) :
    r.receive output =
      ({ r with oscParser := (r.oscParser.push (utf8 output)).1 }.applyOsc133Events
        (r.oscParser.push (utf8 output)).2).addPart (fromUtf8Lossy (stripOsc133 (utf8 output))) :=
  rfl

theorem hearAll_cons (h : r.commandFinished = false) (chunks : List (List UInt8)) :
    r.hearAll (chunk :: chunks) = (r.hear chunk).hearAll chunks := if_neg (by simp [h])

theorem hearAll_finished (h : r.commandFinished = true) (chunks : List (List UInt8)) :
    r.hearAll chunks = r := by
  cases chunks with
  | nil => rfl
  | cons chunk chunks => exact if_pos h

theorem hear_noise (h : isNoise (fromUtf8Lossy chunk) = true) : r.hear chunk = r := by
  have hforward : forward chunk = none := if_pos h
  simp only [Reading.hear, hforward]

theorem hear_output (h : isNoise (fromUtf8Lossy chunk) = false) :
    r.hear chunk = r.receive (fromUtf8Lossy chunk) := by
  have hforward : forward chunk = some (fromUtf8Lossy chunk) := by simp [forward, h]
  simp only [Reading.hear, hforward]

/-- A part that is not empty, at the end of the others. -/
theorem addPart_flatten (r : Reading) (visible : List Char) :
    (r.addPart visible).stdoutParts.flatten = r.stdoutParts.flatten ++ visible := by
  unfold Reading.addPart
  split
  · rename_i hempty
    simp [isEmpty_iff.mp hempty]
  · simp

end ColossalCode.Pty
