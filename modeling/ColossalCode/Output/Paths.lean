import ColossalCode.Output.Complete

/-! What each of the four loops makes of the chunks it takes, and when that is the whole output. -/
namespace ColossalCode.Output
open List

open Broadcast Text Transition

variable {chunk : List UInt8} {sent taken : List (List UInt8)} {text more line : List Char}
  {timeoutMs : Option Nat}

def Foreground.Of (taken : List (List UInt8)) (b : Foreground) : Prop := b.stdoutBuf = taken.flatten

theorem foreground_reads : handleExecCommandRequest.Reads Foreground.Of where
  start := rfl
  take := by
    intro taken b chunk h
    show b.stdoutBuf ++ chunk = (taken ++ [chunk]).flatten
    rw [h, flatten_append, flatten_singleton]
  exited := fun _ _ _ h => h
  expired := fun _ _ h => h

def LogOf (taken : List (List UInt8)) (log : List UInt8) : Prop := log = taken.flatten

theorem log_reads : backgroundLog.Reads LogOf where
  start := rfl
  take := by
    intro taken log chunk h
    show log ++ chunk = (taken ++ [chunk]).flatten
    rw [h, flatten_append, flatten_singleton]
  exited := fun _ _ _ h => h
  expired := fun _ _ h => h

/-- The output in an event, without the mark before it. -/
def StreamEvent.printed : StreamEvent → List Char
  | .stdout output => output.drop stdoutMark.length
  | .exit _ => []
  | .error _ => []

/-- The concatenated output of events. -/
def printed (events : List StreamEvent) : List Char := events.flatMap StreamEvent.printed

@[simp] theorem printed_append (events later : List StreamEvent) :
    printed (events ++ later) = printed events ++ printed later := flatMap_append

@[simp] theorem printed_exited (code : Option Int) : printed [streamExited code] = [] := by
  cases code <;> rfl

@[simp] theorem printed_expired : printed [streamExpired] = [] := rfl

theorem printed_stdout (output : List Char) :
    printed [.stdout (stdoutMark ++ output)] = output := by
  simp [printed, StreamEvent.printed]

/-- No character is cut between two chunks in a way that shows. -/
def CutBetween (sent : List (List UInt8)) : Prop :=
  fromUtf8Lossy sent.flatten = sent.flatMap fromUtf8Lossy

instance (sent : List (List UInt8)) : Decidable (CutBetween sent) :=
  inferInstanceAs (Decidable (_ = _))

/-- No chunk is a number, blank, or taken for a debug message. -/
def ChunksShown (sent : List (List UInt8)) : Prop :=
  CutBetween sent ∧ ∀ chunk ∈ sent, Pty.isNoise (fromUtf8Lossy chunk) = false

instance (sent : List (List UInt8)) : Decidable (ChunksShown sent) :=
  inferInstanceAs (Decidable (_ ∧ _))

def EventsOf (taken : List (List UInt8)) (events : List StreamEvent) : Prop :=
  printed events = printed (taken.flatMap chunkEvents)

theorem stream_reads : (streamExecCommand timeoutMs).Reads EventsOf where
  start := rfl
  take := by
    intro taken events chunk h
    show printed (events ++ chunkEvents chunk) = printed ((taken ++ [chunk]).flatMap chunkEvents)
    rw [printed_append, h, ← printed_append, flatMap_append, flatMap_singleton]
  exited := by
    intro taken events code h
    show printed (events ++ [streamExited code]) = printed (taken.flatMap chunkEvents)
    rw [printed_append, printed_exited, append_nil, h]
  expired := by
    intro taken events h
    show printed (events ++ [streamExpired]) = printed (taken.flatMap chunkEvents)
    rw [printed_append, printed_expired, append_nil, h]

theorem printed_chunk (h : Pty.isNoise (fromUtf8Lossy chunk) = false) :
    printed (chunkEvents chunk) = fromUtf8Lossy chunk := by
  have hforward : Pty.forward chunk = some (fromUtf8Lossy chunk) := by simp [Pty.forward, h]
  rw [chunkEvents, hforward]
  exact printed_stdout _

theorem printed_chunks (h : ∀ chunk ∈ sent, Pty.isNoise (fromUtf8Lossy chunk) = false) :
    printed (sent.flatMap chunkEvents) = sent.flatMap fromUtf8Lossy := by
  induction sent with
  | nil => rfl
  | cons chunk sent ih =>
    obtain ⟨hchunk, hsent⟩ := forall_mem_cons.mp h
    rw [flatMap_cons, printed_append, printed_chunk hchunk, ih hsent, flatMap_cons]

/-- Lines that a newline ends, one after the other. -/
def terminated (lines : List (List Char)) : List Char := lines.flatMap fun line => line ++ ['\n']

theorem cutLines_newline (text : List Char) :
    cutLines ('\n' :: text) = ([] :: (cutLines text).1, (cutLines text).2) := by
  rw [cutLines]
  exact if_pos rfl

theorem cutLines_rest {c : Char} (hc : c ≠ '\n') (h : (cutLines text).1 = []) :
    cutLines (c :: text) = ([], c :: (cutLines text).2) := by
  rw [cutLines]
  simp [hc, h]

variable {lines : List (List Char)} {legible : List (List UInt8) → Prop}

theorem cutLines_line {c : Char} (hc : c ≠ '\n') (h : (cutLines text).1 = line :: lines) :
    cutLines (c :: text) = ((c :: line) :: lines, (cutLines text).2) := by
  rw [cutLines]
  simp [hc, h]

/-- Cutting loses nothing. -/
theorem terminated_cutLines (text : List Char) :
    terminated (cutLines text).1 ++ (cutLines text).2 = text := by
  induction text with
  | nil => rfl
  | cons c text ih =>
    by_cases hc : c = '\n'
    · rw [hc, cutLines_newline]
      exact congrArg ('\n' :: ·) ih
    · cases hlines : (cutLines text).1 with
      | nil =>
        rw [cutLines_rest hc hlines]
        rw [hlines] at ih
        exact congrArg (c :: ·) ih
      | cons line lines =>
        rw [cutLines_line hc hlines]
        rw [hlines] at ih
        exact congrArg (c :: ·) ih

/-- A text may be cut piece by piece, each after what the one before has left. -/
theorem cutLines_append (text more : List Char) :
    cutLines (text ++ more) =
      ((cutLines text).1 ++ (cutLines ((cutLines text).2 ++ more)).1,
        (cutLines ((cutLines text).2 ++ more)).2) := by
  induction text with
  | nil => rfl
  | cons c text ih =>
    by_cases hc : c = '\n'
    · rw [cons_append, hc, cutLines_newline, cutLines_newline, ih]
      rfl
    · cases hlines : (cutLines text).1 with
      | nil =>
        rw [hlines, nil_append] at ih
        rw [cutLines_rest hc hlines, cons_append, nil_append, cons_append]
        have hsame : cutLines (text ++ more) = cutLines ((cutLines text).2 ++ more) := ih
        cases hmore : (cutLines ((cutLines text).2 ++ more)).1 with
        | nil =>
          rw [cutLines_rest hc hmore, cutLines_rest hc (by rw [hsame, hmore]), hsame]
        | cons line lines =>
          rw [cutLines_line hc hmore, cutLines_line hc (by rw [hsame, hmore]), hsame]
      | cons line lines =>
        have hfirst : (cutLines (text ++ more)).1 =
            line :: (lines ++ (cutLines ((cutLines text).2 ++ more)).1) := by
          rw [ih, hlines, cons_append]
        rw [cutLines_line hc hlines, cons_append, cutLines_line hc hfirst, ih]
        rfl

theorem printed_lines (h : ∀ line ∈ lines, Pty.isNoise line = false) :
    printed (lines.flatMap lineEvents) = terminated lines := by
  induction lines with
  | nil => rfl
  | cons line lines ih =>
    obtain ⟨hline, hlines⟩ := forall_mem_cons.mp h
    have hevents : lineEvents line = [.stdout (stdoutMark ++ (line ++ ['\n']))] := by
      simp [lineEvents, hline]
    rw [flatMap_cons, printed_append, hevents, printed_stdout, ih hlines]
    rfl

/-- The output ends with a newline, and none of its lines is a number, blank, or taken for a debug
message. -/
def LinesShown (sent : List (List UInt8)) : Prop :=
  CutBetween sent ∧ (cutLines (fromUtf8Lossy sent.flatten)).2 = [] ∧
    ∀ line ∈ (cutLines (fromUtf8Lossy sent.flatten)).1, Pty.isNoise line = false

instance (sent : List (List UInt8)) : Decidable (LinesShown sent) :=
  inferInstanceAs (Decidable (_ ∧ _ ∧ _))

/-- The stream has sent what lines there are and keeps the rest. -/
structure LineStream.Of (taken : List (List UInt8)) (b : LineStream) : Prop where
  buffer : b.buffer = (cutLines (taken.flatMap fromUtf8Lossy)).2
  events : printed b.events =
    printed ((cutLines (taken.flatMap fromUtf8Lossy)).1.flatMap lineEvents)

theorem enhanced_reads : (streamExecCommandEnhanced timeoutMs).Reads LineStream.Of where
  start := ⟨rfl, rfl⟩
  take := by
    intro taken b chunk h
    have hcut : cutLines ((taken ++ [chunk]).flatMap fromUtf8Lossy) =
        ((cutLines (taken.flatMap fromUtf8Lossy)).1 ++
            (cutLines (b.buffer ++ fromUtf8Lossy chunk)).1,
          (cutLines (b.buffer ++ fromUtf8Lossy chunk)).2) := by
      rw [flatMap_append, flatMap_singleton, cutLines_append, ← h.buffer]
    refine ⟨?_, ?_⟩
    · rw [hcut]
      rfl
    · rw [hcut, flatMap_append, printed_append, ← h.events, ← printed_append]
      rfl
  exited := by
    intro taken b code h
    refine ⟨h.buffer, ?_⟩
    show printed (b.events ++ [streamExited code]) = _
    rw [printed_append, printed_exited, append_nil, h.events]
  expired := by
    intro taken b h
    refine ⟨h.buffer, ?_⟩
    show printed (b.events ++ [streamExpired]) = _
    rw [printed_append, printed_expired, append_nil, h.events]

theorem foreground_whole (sent : List (List UInt8)) (b : Foreground) (h : Foreground.Of sent b) :
    b.stdoutBuf = id sent.flatten := h

theorem stream_whole {events : List StreamEvent} (hshown : ChunksShown sent)
    (h : EventsOf sent events) : printed events = fromUtf8Lossy sent.flatten := by
  calc printed events = printed (sent.flatMap chunkEvents) := h
    _ = sent.flatMap fromUtf8Lossy := printed_chunks hshown.2
    _ = fromUtf8Lossy sent.flatten := hshown.1.symm

theorem enhanced_whole {b : LineStream} (hshown : LinesShown sent) (h : LineStream.Of sent b) :
    printed b.events = fromUtf8Lossy sent.flatten := by
  obtain ⟨hcut, hrest, hlines⟩ := hshown
  have hevents := h.events
  rw [← hcut, printed_lines hlines] at hevents
  rw [hevents]
  have hwhole := terminated_cutLines (fromUtf8Lossy sent.flatten)
  rwa [hrest, append_nil] at hwhole

/-- In every run whose steps keep the output, each loop has the whole output once all of it has been
read and the loop has nothing more to receive. -/
theorem exec_output_complete (timeoutMs : Option Nat) :
    (∀ as s, Steps handleExecCommandRequest.step (handleExecCommandRequest.Keeps fun _ => True)
        handleExecCommandRequest.begin as s →
      Throughout handleExecCommandRequest.step (Complete Foreground.stdoutBuf id)
        handleExecCommandRequest.begin as) ∧
    (∀ as s, Steps backgroundLog.step (backgroundLog.Keeps fun _ => True)
        backgroundLog.begin as s →
      Throughout backgroundLog.step (Complete id id) backgroundLog.begin as) ∧
    (∀ as s, Steps (streamExecCommand timeoutMs).step
        ((streamExecCommand timeoutMs).Keeps ChunksShown)
        (streamExecCommand timeoutMs).begin as s →
      Throughout (streamExecCommand timeoutMs).step (Complete printed fromUtf8Lossy)
        (streamExecCommand timeoutMs).begin as) ∧
    (∀ as s, Steps (streamExecCommandEnhanced timeoutMs).step
        ((streamExecCommandEnhanced timeoutMs).Keeps LinesShown)
        (streamExecCommandEnhanced timeoutMs).begin as s →
      Throughout (streamExecCommandEnhanced timeoutMs).step
        (Complete (fun b => printed b.events) fromUtf8Lossy)
        (streamExecCommandEnhanced timeoutMs).begin as) := by
  refine ⟨?_, ?_, ?_, ?_⟩
  · intro as s h
    exact complete_throughout foreground_reads (fun sent b _ hb => foreground_whole sent b hb) h
  · intro as s h
    exact complete_throughout log_reads (fun sent log _ hlog => hlog) h
  · intro as s h
    exact complete_throughout stream_reads (fun sent events hshown hb => stream_whole hshown hb) h
  · intro as s h
    exact complete_throughout enhanced_reads (fun sent b hshown hb => enhanced_whole hshown hb) h

/-- A test for steps that keep the output, for loops that no deadline ends. -/
def keepsCheck {β : Type} (legible : List (List UInt8) → Bool) (s : Execution β) : Action → Bool
  | .read _ => decide (s.point ≠ .finished) &&
      s.receiver.any fun r => decide (r.pending.length < channelCapacity)
  | .endOfFile => legible s.sent
  | .turn late => !late && decide (s.exit ≠ some none)
  | _ => true

theorem keeps_of_check {β : Type} {c : Consumer β} {s : Execution β} {a : Action}
    {test : List (List UInt8) → Bool}
    (htest : ∀ sent, test sent = true → legible sent) (h : keepsCheck test s a = true) :
    c.Keeps legible s a := by
  cases a with
  | read chunk =>
    simp only [keepsCheck, Bool.and_eq_true, decide_eq_true_eq] at h
    cases hr : s.receiver with
    | none => simp [hr] at h
    | some r =>
      have hroom : r.pending.length < channelCapacity := by simpa [hr] using h.2
      exact ⟨h.1, r, hr, hroom⟩
  | endOfFile => exact htest s.sent h
  | turn late =>
    simp only [keepsCheck, Bool.and_eq_true, Bool.not_eq_true', decide_eq_true_eq] at h
    rintro (⟨-, -, hlate⟩ | ⟨-, hlate⟩ | ⟨-, hlost, -⟩)
    · rw [h.1] at hlate
      exact absurd hlate Bool.false_ne_true
    · rw [h.1] at hlate
      exact absurd hlate Bool.false_ne_true
    · exact absurd hlost h.2
  | remove => trivial
  | exit code => trivial
  | subscribe => trivial

theorem steps_of_keepsCheck {β : Type} {c : Consumer β} {as : List Action} {t : Execution β}
    (test : List (List UInt8) → Bool) (htest : ∀ sent, test sent = true → legible sent)
    (h : check c.step (keepsCheck test) c.begin as = some t) :
    Steps c.step (c.Keeps legible) c.begin as t :=
  steps_of_check h fun _ _ => keeps_of_check htest

/-- `hi` and a newline, read before the exit is seen. -/
def greeting : List Action :=
  [.subscribe, .read [0x68, 0x69, 0x0A], .turn false, .turn false, .turn false, .endOfFile,
    .exit (some 0), .turn false, .turn false, .turn false]

theorem greeting_complete :
    Throughout handleExecCommandRequest.step (Complete Foreground.stdoutBuf id)
        handleExecCommandRequest.begin greeting ∧
      Throughout backgroundLog.step (Complete id id) backgroundLog.begin greeting ∧
      Throughout (streamExecCommand (some 1000)).step (Complete printed fromUtf8Lossy)
        (streamExecCommand (some 1000)).begin greeting ∧
      Throughout (streamExecCommandEnhanced (some 1000)).step
        (Complete (fun b => printed b.events) fromUtf8Lossy)
        (streamExecCommandEnhanced (some 1000)).begin greeting := by
  obtain ⟨hforeground, hlog, hstream, henhanced⟩ := exec_output_complete (some 1000)
  exact
    ⟨hforeground greeting _ (steps_of_keepsCheck (fun _ => true) (fun _ _ => trivial) rfl),
      hlog greeting _ (steps_of_keepsCheck (fun _ => true) (fun _ _ => trivial) rfl),
      hstream greeting _ (steps_of_keepsCheck (fun sent => decide (ChunksShown sent))
        (fun _ => of_decide_eq_true) rfl),
      henhanced greeting _ (steps_of_keepsCheck (fun sent => decide (LinesShown sent))
        (fun _ => of_decide_eq_true) rfl)⟩

/-- The exit is seen before the last chunk is read: the queue is empty, and the loop ends. -/
def exitFirst : List Action :=
  [.subscribe, .exit (some 0), .turn false, .turn false, .turn false, .read [0x78, 0x0A],
    .endOfFile]

/-- A chunk is read before the session's output has a subscriber. -/
def readFirst : List Action := [.read [0x78, 0x0A], .subscribe, .endOfFile]

/-- A command prints a number. -/
def number : List Action :=
  [.subscribe, .read [0x37, 0x0A], .turn false, .turn false, .turn false, .endOfFile]

/-- A command prints a line without a newline. -/
def unterminated : List Action :=
  [.subscribe, .read [0x78], .turn false, .turn false, .turn false, .endOfFile]

/-- None of the four collects every output whole. -/
theorem output_lost :
    (¬ ∀ as s, run handleExecCommandRequest.step handleExecCommandRequest.begin as = some s →
      Complete Foreground.stdoutBuf id s) ∧
    (¬ ∀ as s, run backgroundLog.step backgroundLog.begin as = some s → Complete id id s) ∧
    (¬ ∀ as s, run (streamExecCommand none).step (streamExecCommand none).begin as = some s →
      Complete printed fromUtf8Lossy s) ∧
    (¬ ∀ as s, run (streamExecCommandEnhanced none).step
      (streamExecCommandEnhanced none).begin as = some s →
      Complete (fun b => printed b.events) fromUtf8Lossy s) := by
  refine ⟨?_, ?_, ?_, ?_⟩
  · intro hall
    have hlost := hall exitFirst _ rfl rfl (.inl rfl)
    revert hlost
    decide
  · intro hall
    have hlost := hall readFirst _ rfl rfl (.inr ⟨_, rfl, rfl, rfl⟩)
    revert hlost
    decide
  · intro hall
    have hlost := hall number _ rfl rfl (.inr ⟨_, rfl, rfl, rfl⟩)
    revert hlost
    decide
  · intro hall
    have hlost := hall unterminated _ rfl rfl (.inr ⟨_, rfl, rfl, rfl⟩)
    revert hlost
    decide

end ColossalCode.Output
