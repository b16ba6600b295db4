import ColossalCode.Pty.Plain

/-! What a command returns depends on how its output has been cut into reads of the PTY. -/
namespace ColossalCode.Pty
open Bool List Reading

open Text

variable {strip : List Char → List Char} {command word : List Char} {pastDeadline : Bool}
  {output : List UInt8} {chunks : List (List UInt8)} {c : Char}

/-- What the shell writes while a command runs: the command's output and, once it has ended, the
marker with its exit code and what follows. -/
structure ShellStream where
  output : List UInt8
  ended : Option (UInt8 × List UInt8)

def ShellStream.bytes (s : ShellStream) : List UInt8 :=
  s.output ++
    match s.ended with
    | none => []
    | some (code, rest) => finishMarker code ++ rest

/-- Reads of the PTY that bring these bytes. -/
structure Cutting (bytes : List UInt8) (chunks : List (List UInt8)) : Prop where
  nonempty : ∀ chunk ∈ chunks, chunk ≠ []
  flatten : chunks.flatten = bytes

/-- However the stream is cut, the result is one and the same, and it holds every line of the
output. -/
def ChunkIndependent (strip : List Char → List Char) (command : List Char) (pastDeadline : Bool)
    (s : ShellStream) : Prop :=
  (∀ chunks chunks', Cutting s.bytes chunks → Cutting s.bytes chunks' →
    execCommand strip command pastDeadline chunks =
      execCommand strip command pastDeadline chunks') ∧
  ∀ chunks, Cutting s.bytes chunks → ∀ line ∈ lines (fromUtf8Lossy s.output),
    line ∈ lines (execCommand strip command pastDeadline chunks).stdout

/-- Printed characters, none of them a digit or white space. -/
def IsWord (word : List Char) : Prop :=
  word ≠ [] ∧ ∀ c ∈ word, isSolid c = true ∧ 0x20 ≤ c.toNat

/-- No output at all, or a single word that cleaning leaves in. -/
def OneWord (command text : List Char) : Prop :=
  text = [] ∨ ∃ word, IsWord word ∧ keeps command word = true ∧
    (text = word ∨ text = word ++ ['\n'] ∨ text = word ++ ['\r', '\n'])

/-- The command has not ended, every byte of its output is a character of its own, and these are
one word. -/
def Indivisible (command : List Char) (s : ShellStream) : Prop :=
  s.ended = none ∧ (fromUtf8Lossy s.output).length = s.output.length ∧
    OneWord command (fromUtf8Lossy s.output)

theorem cutting_bytes (bytes : List UInt8) : Cutting bytes (bytes.map fun b => [b]) := by
  constructor
  · intro chunk hchunk
    obtain ⟨b, -, rfl⟩ := mem_map.mp hchunk
    exact cons_ne_nil b []
  · induction bytes with
    | nil => rfl
    | cons b bytes ih => rw [map_cons, flatten_cons, ih, singleton_append]

theorem eventless_start : Eventless start :=
  ⟨not_mem_nil, rfl, rfl, rfl⟩

/-- Cut between all bytes, a command does not end. -/
theorem execCommand_bytes (bytes : List UInt8) :
    (execCommand strip command pastDeadline (bytes.map fun b => [b])) =
      ⟨if pastDeadline then .timeout else .killed,
        cleanShellOutput strip (solidText bytes) command⟩ := by
  obtain ⟨hlast, hparts⟩ := hearAll_bytes eventless_start bytes
  unfold execCommand report exitStatus
  rw [hlast.exitCode, hlast.started, hparts]
  rfl

theorem isWhitespace_of_isSolid (h : isSolid c = true) : isWhitespace c = false := by
  have hboth := h
  simp only [isSolid, and_eq_true, not_eq_true'] at hboth
  exact hboth.2

theorem isSolid_of_mem_solidText (h : c ∈ solidText output) : isSolid c = true := by
  obtain ⟨b, hb, rfl⟩ := mem_map.mp h
  exact (mem_filter.mp hb).2

/-- The bytes that do not come through on their own are all found again in the text. -/
theorem unsolid_sublist (output : List UInt8) :
    ((output.filter fun b => !isSolid (byteChar b)).map byteChar).Sublist
      ((fromUtf8Lossy output).filter fun c => !isSolid c) := by
  have hascii : ∀ b : UInt8, (!isSolid (byteChar b)) = true → decide (b.toNat < 0x80) = true := by
    intro b hb
    by_contra hhigh
    have hchar : byteChar b = replacement := if_neg (by simpa using hhigh)
    rw [hchar] at hb
    exact absurd hb (by decide)
  have hall := (ascii_sublist none output).filter fun c => !isSolid c
  rw [filter_map, filter_filter] at hall
  have hsame : (output.filter fun b => ((fun c => !isSolid c) ∘ byteChar) b &&
    decide (b.toNat < 0x80)) =
      output.filter fun b => !isSolid (byteChar b) := by
    apply filter_congr
    intro b _
    cases hb : !isSolid (byteChar b) with
    | true => simp [hb, hascii b hb]
    | false => simp [hb]
  rwa [hsame] at hall

/-- The text has no more solid characters than come through, and as many others as there are. -/
theorem length_solid (output : List UInt8) :
    ((fromUtf8Lossy output).filter isSolid).length ≤ (solidText output).length ∧
      output.length + ((fromUtf8Lossy output).filter isSolid).length ≤
        (fromUtf8Lossy output).length + (solidText output).length := by
  have hunsolid := (unsolid_sublist output).length_le
  have hbytes := length_eq_length_filter_add (l := output) fun b => isSolid (byteChar b)
  have htext := length_eq_length_filter_add (l := fromUtf8Lossy output) isSolid
  have hle := length_fromUtf8Lossy output
  rw [length_map] at hunsolid
  rw [solidText, length_map]
  omega

theorem noControl_of_mem_stdout (hstrip : StripsEscapes strip) {text : List Char}
    (hc : c ∈ cleanShellOutput strip text command) (hcontrol : c.toNat < 0x20) : c = '\n' := by
  rcases mem_cleanText hc with hn | hmem
  · exact hn
  · exact hstrip.noControl _ c hmem hcontrol

/-- A character that a line of the output holds is no control character. -/
theorem printed_of_lines (hstrip : StripsEscapes strip) {text kept : List Char}
    (hlines : ∀ line ∈ lines text, line ∈ lines (cleanShellOutput strip kept command))
    (hc : c ∈ text) (hn : c ≠ '\n') (hr : c ≠ '\r') : 0x20 ≤ c.toNat := by
  obtain ⟨line, hline, hcline⟩ := mem_lines hc hn hr
  have hmem : c ∈ cleanShellOutput strip kept command :=
    (flatten_lines _).subset (mem_flatten.mpr ⟨line, hlines line hline, hcline⟩)
  by_contra hcontrol
  exact hn (noControl_of_mem_stdout hstrip hmem (by omega))

/-- What is kept of solid text has no line end in it. -/
theorem stdout_of_solid (hstrip : StripsEscapes strip) {kept : List Char}
    (hsolid : ∀ c ∈ kept, isSolid c = true) :
    cleanShellOutput strip kept command = cleanText command (strip kept) ∧ '\n' ∉ strip kept ∧
      '\n' ∉ cleanText command (strip kept) := by
  have hr : '\r' ∉ kept := fun h => absurd (hsolid _ h) (by decide)
  have hn : '\n' ∉ strip kept := fun h =>
    absurd (hsolid _ ((hstrip.sublist kept).subset h)) (by decide)
  refine ⟨?_, hn, ?_⟩
  · rw [cleanShellOutput, (normalize_line hr).1]
  · have hsingle : cleanText command (strip kept) = [] ∨ _ := cleanText_single hn
    rcases hsingle with hclean | hclean
    · rw [hclean]
      exact not_mem_nil
    · rw [hclean]
      intro hmem
      exact hn ((trimmed_sublist _).subset hmem)

/-- Where the bytes one by one show every line of the output, they are one word. -/
theorem oneWord_of_lines (hstrip : StripsEscapes strip) (hne : output ≠ [])
    (hlines : ∀ line ∈ lines (fromUtf8Lossy output),
      line ∈ lines (cleanShellOutput strip (solidText output) command)) :
    IsWord (solidText output) ∧ keeps command (solidText output) = true ∧
      lines (fromUtf8Lossy output) = [solidText output] := by
  have hsolid : ∀ c ∈ solidText output, isSolid c = true := fun c hc => isSolid_of_mem_solidText hc
  obtain ⟨hclean, hn, hstdout⟩ : _ ∧ _ ∧ '\n' ∉ cleanText command _ := stdout_of_solid hstrip hsolid
  have htext := fromUtf8Lossy_ne_nil hne
  have hprinted : ∀ c ∈ solidText output, 0x20 ≤ c.toNat ∧ ¬ (0x80 ≤ c.toNat ∧ c.toNat ≤ 0x9F) := by
    intro c hc
    have hcsolid := hsolid c hc
    obtain ⟨b, hb, rfl⟩ := mem_map.mp hc
    by_cases hascii : b.toNat < 0x80
    · have hmem := mem_fromUtf8Lossy hascii (mem_filter.mp hb).1
      have hlow := toNat_byteChar hascii
      refine ⟨printed_of_lines hstrip hlines hmem ?_ ?_, by omega⟩
      · intro h
        rw [h] at hcsolid
        exact absurd hcsolid (by decide)
      · intro h
        rw [h] at hcsolid
        exact absurd hcsolid (by decide)
    · have hchar : byteChar b = replacement := if_neg hascii
      rw [hchar]
      decide
  have hsame : strip (solidText output) = solidText output :=
    hstrip.printed _ fun c hc => .inr (hprinted c hc)
  rw [hclean, hsame] at hlines
  rw [hsame] at hstdout
  obtain ⟨first, others, hlinesOf⟩ := exists_cons_of_ne_nil (lines_ne_nil htext)
  have hshown : cleanText command (solidText output) ≠ [] := by
    intro hnil
    have hfirst := hlines first (by simp [hlinesOf])
    rw [hnil] at hfirst
    exact absurd hfirst not_mem_nil
  have hkept : solidText output ≠ [] := by
    intro hnil
    rw [hnil] at hshown
    exact hshown rfl
  have hsolidWord : ∀ c ∈ solidText output, isWhitespace c = false := fun c hc =>
    isWhitespace_of_isSolid (hsolid c hc)
  have hcleaned : cleanText command _ = _ := (cleanText_solid hsolidWord hkept).1
  have hkeeps : keeps command (solidText output) = true := by
    by_contra hdropped
    rw [hcleaned, if_neg hdropped] at hshown
    exact hshown rfl
  rw [if_pos hkeeps] at hcleaned
  rw [hcleaned] at hlines hstdout
  rw [lines_single hstdout hkept] at hlines
  refine ⟨⟨hkept, fun c hc => ⟨hsolid c hc, (hprinted c hc).1⟩⟩, hkeeps, ?_⟩
  have heach : ∀ line ∈ lines (fromUtf8Lossy output), line = solidText output := fun line hline =>
    mem_singleton.mp (hlines line hline)
  -- two lines would hold more solid characters than there are
  have hothers : others = [] := by
    by_contra hmore
    obtain ⟨second, rest, rfl⟩ := exists_cons_of_ne_nil hmore
    have hflat := flatten_lines (fromUtf8Lossy output)
    rw [hlinesOf] at hflat heach
    have hfirst := heach first (by simp)
    have hsecond := heach second (by simp)
    rw [hfirst, hsecond, flatten_cons, flatten_cons] at hflat
    have hcount := (hflat.filter isSolid).length_le
    have hfilter : (solidText output).filter isSolid = solidText output :=
      filter_eq_self.mpr hsolid
    rw [filter_append, filter_append, hfilter, length_append,
      length_append] at hcount
    have hbound := (length_solid output).1
    have hpos := length_pos_iff.mpr hkept
    omega
  rw [hlinesOf, hothers, heach first (by simp [hlinesOf])]

/-- Where the bytes one by one show every line of the output, each is a character of its own. -/
theorem length_of_lines (hsolid : ∀ c ∈ solidText output, isSolid c = true)
    (hlines : lines (fromUtf8Lossy output) = [solidText output]) :
    (fromUtf8Lossy output).length = output.length := by
  have hflat := (flatten_lines (fromUtf8Lossy output)).filter isSolid
  rw [hlines, flatten_cons, flatten_nil, append_nil,
    filter_eq_self.mpr hsolid] at hflat
  have hcount := hflat.length_le
  have hbound := (length_solid output).2
  have hle := length_fromUtf8Lossy output
  omega

theorem hear_nil (r : Reading) : r.hear [] = r := hear_noise (by decide)

theorem hearAll_nonempty (r : Reading) (chunks : List (List UInt8)) :
    r.hearAll (chunks.filter fun chunk => !chunk.isEmpty) = r.hearAll chunks := by
  induction chunks generalizing r with
  | nil => rfl
  | cons chunk chunks ih =>
    cases chunk with
    | nil =>
      rw [filter_cons_of_neg (by simp), ih]
      cases hfinished : r.commandFinished with
      | true => rw [hearAll_finished hfinished, hearAll_finished hfinished]
      | false => rw [hearAll_cons hfinished, hear_nil]
    | cons b chunk =>
      rw [filter_cons_of_pos (by simp)]
      simp only [hearAll, ih]

theorem cutting_nonempty (chunks : List (List UInt8)) :
    Cutting chunks.flatten (chunks.filter fun chunk => !chunk.isEmpty) := by
  constructor
  · intro chunk hchunk
    have hne := (mem_filter.mp hchunk).2
    simpa using hne
  · induction chunks with
    | nil => rfl
    | cons chunk chunks ih =>
      cases chunk with
      | nil => exact ih
      | cons b chunk =>
        rw [filter_cons_of_pos (by simp), flatten_cons, flatten_cons, ih]

/-- Read apart from the output and in one piece, the marker of the end is seen. -/
theorem execCommand_marker (hesc : escChar ∉ fromUtf8Lossy output) (code : UInt8)
    (rest : List UInt8) :
    (execCommand strip command pastDeadline
      ([output, finishMarker code, rest].filter fun chunk => !chunk.isEmpty)).exitStatus =
        .completed (code.toNat : Int) := by
  obtain ⟨hparser, hfinished⟩ := hear_plain (r := .start) rfl hesc
  have hground : (start.hear output).oscParser.state = .ground := by
    rw [hparser]
    rfl
  obtain ⟨hexit, hdone⟩ := hear_finishMarker hground code
  have hrun : start.hearAll [output, finishMarker code, rest] =
      (start.hear output).hear (finishMarker code) := by
    rw [hearAll_cons rfl, hearAll_cons hfinished, hearAll_finished hdone]
  rw [execCommand, hearAll_nonempty, hrun]
  unfold report exitStatus
  rw [hexit]

theorem not_isDigit_of_isSolid (h : isSolid c = true) : c.isDigit = false := by
  have hboth := h
  simp only [isSolid, and_eq_true, not_eq_true'] at hboth
  exact hboth.1

theorem clean_word (hstrip : StripsEscapes strip) (hword : IsWord word)
    (hascii : ∀ c ∈ word, c.toNat < 0x80 ∨ c = replacement) (hkeeps : keeps command word = true)
    {rest : List Char} (hrest : rest = [] ∨ rest = ['\n'] ∨ rest = ['\r'] ∨ rest = ['\r', '\n']) :
    cleanShellOutput strip (word ++ rest) command = word := by
  obtain ⟨hne, hchars⟩ := hword
  have hsolid : ∀ c ∈ word, isWhitespace c = false := fun c hc =>
    isWhitespace_of_isSolid (hchars c hc).1
  have hr : '\r' ∉ word := fun h => absurd (hsolid _ h) (by decide)
  have hprinted : ∀ c ∈ word, c = '\n' ∨ 0x20 ≤ c.toNat ∧ ¬ (0x80 ≤ c.toNat ∧ c.toNat ≤ 0x9F) := by
    intro c hc
    have hlow := (hchars c hc).2
    rcases hascii c hc with hc | rfl
    · exact .inr ⟨hlow, by omega⟩
    · exact .inr (by decide)
  have hplain : strip word = word := hstrip.printed word hprinted
  have hline : strip (word ++ ['\n']) = word ++ ['\n'] := by
    apply hstrip.printed
    intro c hc
    rcases mem_append.mp hc with hc | hc
    · exact hprinted c hc
    · exact .inl (mem_singleton.mp hc)
  obtain ⟨hnone, hlf, hcr, hcrlf⟩ := normalize_line hr
  obtain ⟨hclean, hcleanLine⟩ : cleanText command _ = _ ∧ _ := cleanText_solid hsolid hne
  rw [if_pos hkeeps] at hclean hcleanLine
  unfold cleanShellOutput
  rcases hrest with rfl | rfl | rfl | rfl
  · rw [append_nil, hnone, hplain, hclean]
  · rw [hlf, hline, hcleanLine]
  · rw [hcr, hline, hcleanLine]
  · rw [hcrlf, hline, hcleanLine]

/-- However a word is cut, it is returned as it is. -/
theorem execCommand_word (hstrip : StripsEscapes strip) (hapart : Apart output)
    (hword : IsWord word) (hkeeps : keeps command word = true) {ending : List Char}
    (hending : ending = [] ∨ ending = ['\n'] ∨ ending = ['\r', '\n'])
    (htext : fromUtf8Lossy output = word ++ ending) (hcut : Cutting output chunks) :
    execCommand strip command pastDeadline chunks =
      ⟨if pastDeadline then .timeout else .killed, word⟩ := by
  have hlossy : ∀ chunk ∈ chunks, fromUtf8Lossy chunk = chunk.map byteChar := by
    intro chunk hmem
    apply fromUtf8Lossy_apart
    apply hapart.infix
    rw [← hcut.flatten]
    exact infix_of_mem_flatten hmem
  have hflat : (chunks.map fromUtf8Lossy).flatten = word ++ ending := by
    rw [map_congr_left hlossy, ← htext, fromUtf8Lossy_apart hapart, ← hcut.flatten,
      map_flatten]
  have hend : ∀ c ∈ ending, c = '\r' ∨ c = '\n' := by
    rcases hending with rfl | rfl | rfl
    · simp
    · simp
    · simp
  have hchars : ∀ chunk ∈ chunks, ∀ c ∈ fromUtf8Lossy chunk, c ∈ word ∨ c = '\r' ∨ c = '\n' := by
    intro chunk hmem c hc
    have hall : c ∈ word ++ ending := by
      rw [← hflat]
      exact mem_flatten.mpr ⟨_, mem_map_of_mem hmem, hc⟩
    rcases mem_append.mp hall with hword | hending
    · exact .inl hword
    · exact .inr (hend c hending)
  have hesc : ∀ chunk ∈ chunks, escChar ∉ fromUtf8Lossy chunk := by
    intro chunk hmem hc
    rcases hchars chunk hmem _ hc with hc | hc
    · exact absurd (hword.2 _ hc).2 (by decide)
    · exact absurd hc (by decide)
  have hnoise : ∀ chunk ∈ chunks, isNoise (fromUtf8Lossy chunk) =
      Pieces.isBlank isWhitespace (fromUtf8Lossy chunk) := by
    intro chunk hmem
    apply isNoise_of_wordlike
    · intro hc
      rcases hchars chunk hmem _ hc with hc | hc
      · exact absurd (hword.2 _ hc).1 (by decide)
      · exact absurd hc (by decide)
    · intro c hc
      rcases hchars chunk hmem c hc with hc | rfl | rfl
      · exact not_isDigit_of_isSolid (hword.2 c hc).1
      · decide
      · decide
  obtain ⟨parts, hrun, hparts⟩ := hearAll_plain (r := .start) rfl rfl hesc hnoise
  have hsolid : ∀ c ∈ word, isWhitespace c = false := fun c hc =>
    isWhitespace_of_isSolid (hword.2 c hc).1
  have hblank : ∀ c ∈ ending, isWhitespace c = true := by
    intro c hc
    rcases hend c hc with rfl | rfl
    · decide
    · decide
  obtain ⟨rest, hrest, hkept⟩ := Pieces.keep_word hsolid hblank hflat
  have hrests : rest = [] ∨ rest = ['\n'] ∨ rest = ['\r'] ∨ rest = ['\r', '\n'] := by
    rcases hending with rfl | rfl | rfl
    · exact .inl (prefix_nil.mp hrest)
    · rcases prefix_cons_iff.mp hrest with hnil | ⟨tail, htail, hpre⟩
      · exact .inl hnil
      · rw [htail, prefix_nil.mp hpre]
        exact .inr (.inl rfl)
    · rcases prefix_cons_iff.mp hrest with hnil | ⟨tail, htail, hpre⟩
      · exact .inl hnil
      · rcases prefix_cons_iff.mp hpre with hnil | ⟨last, hlast, hlastpre⟩
        · rw [htail, hnil]
          exact .inr (.inr (.inl rfl))
        · rw [htail, hlast, prefix_nil.mp hlastpre]
          exact .inr (.inr (.inr rfl))
  have hascii : ∀ c ∈ word, c.toNat < 0x80 ∨ c = replacement := by
    intro c hc
    have hmem : c ∈ output.map byteChar := by
      rw [← fromUtf8Lossy_apart hapart, htext]
      exact mem_append_left ending hc
    obtain ⟨b, -, rfl⟩ := mem_map.mp hmem
    by_cases hb : b.toNat < 0x80
    · left
      rw [toNat_byteChar hb]
      exact hb
    · exact .inr (if_neg hb)
  have hstdout := clean_word hstrip hword hascii hkeeps hrests
  rw [execCommand, hrun]
  unfold report
  dsimp only [start, nil_append]
  rw [hparts, hkept, hstdout]
  rfl

/-- A command's output and exit code do not depend on how its stream is cut, and no line of it is
lost, exactly where there is next to nothing to cut: the command has not ended, and its output is
a single word, all of whose bytes are characters of their own. -/
theorem chunkIndependent_iff (hstrip : StripsEscapes strip) (s : ShellStream) :
    ChunkIndependent strip command pastDeadline s ↔ Indivisible command s := by
  constructor
  · rintro ⟨hsame, hlines⟩
    have hbytes := hlines _ (cutting_bytes s.bytes)
    rw [execCommand_bytes] at hbytes
    cases hended : s.ended with
    | some ended =>
      obtain ⟨code, rest⟩ := ended
      have hesc : escChar ∉ fromUtf8Lossy s.output := by
        intro hmem
        have hprinted := printed_of_lines hstrip hbytes hmem (by decide) (by decide)
        exact absurd hprinted (by decide)
      have hstream : s.bytes = [s.output, finishMarker code, rest].flatten := by
        simp [ShellStream.bytes, hended]
      have hcut := cutting_nonempty [s.output, finishMarker code, rest]
      rw [← hstream] at hcut
      have hstatus := congrArg ExecCommandOutput.exitStatus (hsame _ _ (cutting_bytes s.bytes) hcut)
      rw [execCommand_marker hesc, execCommand_bytes] at hstatus
      cases pastDeadline with
      | true => exact absurd hstatus ExitStatus.noConfusion
      | false => exact absurd hstatus ExitStatus.noConfusion
    | none =>
      have hstream : s.bytes = s.output := by
        simp [ShellStream.bytes, hended]
      rw [hstream] at hbytes
      refine ⟨hended, ?_⟩
      by_cases hne : s.output = []
      · rw [hne]
        exact ⟨rfl, .inl rfl⟩
      · obtain ⟨hword, hkeeps, hline⟩ := oneWord_of_lines hstrip hne hbytes
        exact ⟨length_of_lines (fun c hc => (hword.2 c hc).1) hline,
          .inr ⟨_, hword, hkeeps, eq_of_lines hline⟩⟩
  · rintro ⟨hended, hlength, hword⟩
    have hstream : s.bytes = s.output := by
      simp [ShellStream.bytes, hended]
    unfold ChunkIndependent
    rw [hstream]
    rcases hword with hnil | ⟨word, hword, hkeeps, htext⟩
    · rw [hnil] at hlength
      have hempty : s.output = [] := length_eq_zero_iff.mp hlength.symm
      have hchunks : ∀ chunks, Cutting s.output chunks → chunks = [] := by
        intro chunks hcut
        apply eq_nil_iff_forall_not_mem.mpr
        intro chunk hmem
        have hflat := hcut.flatten
        rw [hempty] at hflat
        exact hcut.nonempty chunk hmem (flatten_eq_nil_iff.mp hflat chunk hmem)
      constructor
      · intro chunks chunks' hcut hcut'
        rw [hchunks chunks hcut, hchunks chunks' hcut']
      · intro chunks hcut line hline
        rw [hnil] at hline
        exact absurd hline not_mem_nil
    · have hapart := apart_of_length hlength
      obtain ⟨ending, hending, htext⟩ : ∃ ending, (ending = [] ∨ ending = ['\n'] ∨
          ending = ['\r', '\n']) ∧ fromUtf8Lossy s.output = word ++ ending := by
        rcases htext with htext | htext | htext
        · exact ⟨[], .inl rfl, by rw [htext, append_nil]⟩
        · exact ⟨_, .inr (.inl rfl), htext⟩
        · exact ⟨_, .inr (.inr rfl), htext⟩
      have hresult : ∀ chunks, Cutting s.output chunks →
          execCommand strip command pastDeadline chunks =
            ⟨if pastDeadline then .timeout else .killed, word⟩ := fun chunks hcut =>
        execCommand_word hstrip hapart hword hkeeps hending htext hcut
      constructor
      · intro chunks chunks' hcut hcut'
        rw [hresult chunks hcut, hresult chunks' hcut']
      · intro chunks hcut line hline
        have hn : '\n' ∉ word := fun h => absurd (hword.2 _ h).1 (by decide)
        have hr : '\r' ∉ word := fun h => absurd (hword.2 _ h).1 (by decide)
        have honly : lines (fromUtf8Lossy s.output) = [word] := by
          rw [htext]
          rcases hending with rfl | rfl | rfl
          · rw [append_nil, lines_single hn hword.1]
          · exact lines_line hn hr
          · exact lines_crlf hn
        rw [hresult chunks hcut, lines_single hn hword.1, ← honly]
        exact hline

/-- Every character but newlines and printed ones goes. -/
def dropControls (text : List Char) : List Char :=
  text.filter fun c => c = '\n' || 0x20 ≤ c.toNat && !(0x80 ≤ c.toNat && c.toNat ≤ 0x9F)

theorem stripsEscapes_dropControls : StripsEscapes dropControls := by
  refine ⟨fun text => filter_sublist, ?_, ?_⟩
  · intro text c hc hcontrol
    have hkept := (mem_filter.mp hc).2
    simp only [or_eq_true, and_eq_true, decide_eq_true_eq] at hkept
    rcases hkept with hn | ⟨hlow, -⟩
    · exact hn
    · omega
  · intro text hprinted
    apply filter_eq_self.mpr
    intro c hc
    simp only [or_eq_true, and_eq_true, not_eq_true', decide_eq_true_eq,
      and_eq_false_iff, decide_eq_false_iff_not]
    rcases hprinted c hc with hn | ⟨hlow, hhigh⟩
    · exact .inl hn
    · exact .inr ⟨hlow, by omega⟩

/-- `make` has written `Building` and goes on. -/
theorem chunkIndependent_building :
    ChunkIndependent dropControls "make".toList true
      ⟨[0x42, 0x75, 0x69, 0x6C, 0x64, 0x69, 0x6E, 0x67], none⟩ :=
  (chunkIndependent_iff stripsEscapes_dropControls _).mpr
    ⟨rfl, by decide, .inr ⟨"Building".toList,
      ⟨by decide, forall_iff_forall_mem.mp (by decide)⟩, by decide, .inl (by decide)⟩⟩

/-- `wc -l` has written `42` and has ended; a read that ends with its line loses it. -/
theorem count_lost :
    ¬ ChunkIndependent dropControls "wc -l".toList false
      ⟨[0x34, 0x32, 0x0D, 0x0A], some (0, [0x24, 0x20])⟩ := by
  intro h
  have hcut : Cutting (ShellStream.bytes ⟨[0x34, 0x32, 0x0D, 0x0A], some (0, [0x24, 0x20])⟩)
      [[0x34, 0x32, 0x0D, 0x0A], finishMarker 0 ++ [0x24, 0x20]] := ⟨by decide, by decide⟩
  have hline := h.2 _ hcut ['4', '2'] (by decide)
  exact absurd hline (by decide)

end ColossalCode.Pty
