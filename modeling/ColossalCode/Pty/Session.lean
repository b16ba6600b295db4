import ColossalCode.Pty.Plain
import ColossalCode.Transition.Run

/-! A persistent shell and the commands it is sent, joined by the PTY's bytes. -/
namespace ColossalCode.Pty
open List Option

open Transition

/-- The stretch of the shell's work in which a byte has been written: while a command ran, up to
its end marker, or after that of the last one. -/
inductive Author where
  | within (command : Nat)
  | after (command : Option Nat)
  deriving DecidableEq, Repr

abbrev Written := Author × UInt8

def bytesOf (chunk : List Written) : List UInt8 := chunk.map Prod.snd

inductive Phase where
  | waiting
  | running
  | prompting
  deriving DecidableEq, Repr

/-- A call of `exec_command_in_shell_session` with the reads that it has been forwarded. -/
structure Execution where
  number : Nat
  command : List Char
  heard : List (List Written)
  deriving DecidableEq, Repr

def Execution.reading (e : Execution) : Reading := Reading.start.hearAll (e.heard.map bytesOf)

structure Report where
  execution : Execution
  pastDeadline : Bool
  deriving DecidableEq, Repr

def Report.output (strip : List Char → List Char) (r : Report) : ExecCommandOutput :=
  execCommand strip r.execution.command r.pastDeadline (r.execution.heard.map bytesOf)

/-- The shell: its typed lines, the command it has taken last, its background jobs. The manager:
the bytes of the PTY that have not been read, the command being executed, and those returned. -/
structure Session where
  phase : Phase
  turn : Option Nat
  queue : List Nat
  jobs : Nat
  pipe : List Written
  sent : Nat
  current : Option Execution
  reports : List Report
  deriving DecidableEq, Repr

inductive Action where
  /-- A command is subscribed to the output and typed. -/
  | send (command : List Char)
  | begin
  | write (bytes : List UInt8)
  | finish (code : UInt8)
  | settle
  | fork
  | reap
  /-- One read of the PTY. -/
  | deliver (size : Nat) (pastDeadline : Bool)
  /-- The deadline has come, or the channel has been closed. -/
  | giveUp (pastDeadline : Bool)

def Session.author (s : Session) : Author :=
  match s.phase, s.turn with
  | .running, some k => .within k
  | _, turn => .after turn

def Session.emit (s : Session) (bytes : List UInt8) : Session :=
  { s with pipe := s.pipe ++ bytes.map fun b => (s.author, b) }

def Session.reported (s : Session) (e : Execution) (pastDeadline : Bool) : Session :=
  { s with current := none, reports := s.reports ++ [⟨e, pastDeadline⟩] }

def Execution.hear (e : Execution) (chunk : List Written) : Execution :=
  { e with heard := e.heard ++ [chunk] }

/-- A read is forwarded to the command that is being executed; without one it is lost. -/
def Session.forwarded (s : Session) (chunk : List Written) (pastDeadline : Bool) : Session :=
  match s.current with
  | none => s
  | some e =>
    if (e.hear chunk).reading.commandFinished then s.reported (e.hear chunk) pastDeadline
    else { s with current := some (e.hear chunk) }

def Session.sending (s : Session) (command : List Char) : Session :=
  { s with
    queue := s.queue ++ [s.sent]
    sent := s.sent + 1
    current := some ⟨s.sent, command, []⟩ }

def Session.read (s : Session) (size : Nat) : Session := { s with pipe := s.pipe.drop size }

def step (s : Session) : Action → Option Session
  | .send command => if s.current = none then some (s.sending command) else none
  | .begin =>
    match s.phase, s.queue with
    | .waiting, k :: queue => some { s with phase := .running, turn := some k, queue }
    | _, _ => none
  | .write bytes =>
    if bytes ≠ [] ∧ (s.phase ≠ .waiting ∨ 0 < s.jobs) then some (s.emit bytes) else none
  | .finish code =>
    if s.phase = .running then
      some { s.emit (finishMarker code) with phase := .prompting }
    else none
  | .settle => if s.phase = .prompting then some { s with phase := .waiting } else none
  | .fork => if s.phase = .running then some { s with jobs := s.jobs + 1 } else none
  | .reap => if 0 < s.jobs then some { s with jobs := s.jobs - 1 } else none
  | .deliver size pastDeadline =>
    if 0 < size ∧ size ≤ s.pipe.length then
      some ((s.read size).forwarded (s.pipe.take size) pastDeadline)
    else none
  | .giveUp pastDeadline => s.current.map fun e => s.reported e pastDeadline

/-- A shell before its first command: at its prompt or on the way to it, with what it has written
so far. -/
def opened (settled : Bool) (jobs : Nat) (banner : List UInt8) : Session :=
  ⟨if settled then .waiting else .prompting, none, [], jobs,
    banner.map fun b => (.after none, b), 0, none, []⟩

variable {s t : Session} {a : Action} {as : List Action} {e : Execution} {chunk : List Written}
  {pastDeadline : Bool}

/-- What each action does where it is possible. -/
def Does (s : Session) : Action → Session → Prop
  | .send command, t => s.current = none ∧ t = s.sending command
  | .begin, t => ∃ k queue, s.phase = .waiting ∧ s.queue = k :: queue ∧
      t = { s with phase := .running, turn := some k, queue }
  | .write bytes, t => bytes ≠ [] ∧ (s.phase ≠ .waiting ∨ 0 < s.jobs) ∧ t = s.emit bytes
  | .finish code, t =>
    s.phase = .running ∧ t = { s.emit (finishMarker code) with phase := .prompting }
  | .settle, t => s.phase = .prompting ∧ t = { s with phase := .waiting }
  | .fork, t => s.phase = .running ∧ t = { s with jobs := s.jobs + 1 }
  | .reap, t => 0 < s.jobs ∧ t = { s with jobs := s.jobs - 1 }
  | .deliver size pastDeadline, t => 0 < size ∧ size ≤ s.pipe.length ∧
      t = (s.read size).forwarded (s.pipe.take size) pastDeadline
  | .giveUp pastDeadline, t => ∃ e, s.current = some e ∧ t = s.reported e pastDeadline

theorem does_of_guard {p : Prop} [Decidable p] {u : Session}
    (h : (if p then some u else none) = some t) : p ∧ t = u := by
  split at h
  · rename_i hp
    exact ⟨hp, (Option.some.inj h).symm⟩
  · cases h

theorem step_does (hs : step s a = some t) : Does s a t := by
  cases a with
  | send command => exact does_of_guard hs
  | begin =>
    cases hphase : s.phase with
    | waiting =>
      cases hqueue : s.queue with
      | nil => simp [step, hphase, hqueue] at hs
      | cons k queue =>
        simp only [step, hphase, hqueue] at hs
        exact ⟨k, queue, hphase, hqueue, (Option.some.inj hs).symm⟩
    | running => simp [step, hphase] at hs
    | prompting => simp [step, hphase] at hs
  | write bytes =>
    obtain ⟨⟨hne, hphase⟩, ht⟩ := does_of_guard hs
    exact ⟨hne, hphase, ht⟩
  | finish code => exact does_of_guard hs
  | settle => exact does_of_guard hs
  | fork => exact does_of_guard hs
  | reap => exact does_of_guard hs
  | deliver size pastDeadline =>
    obtain ⟨⟨hpos, hle⟩, ht⟩ := does_of_guard hs
    exact ⟨hpos, hle, ht⟩
  | giveUp pastDeadline =>
    obtain ⟨e, he, ht⟩ := map_eq_some_iff.mp hs
    exact ⟨e, he, ht.symm⟩

/-- Every command that has left a trace has been sent. -/
structure Numbered (s : Session) : Prop where
  pipe : ∀ x ∈ s.pipe, ∀ k, x.1 = .within k ∨ x.1 = .after (some k) → k < s.sent
  turn : ∀ k, s.turn = some k → k < s.sent
  queue : ∀ k ∈ s.queue, k < s.sent
  current : ∀ e, s.current = some e → e.number < s.sent
  reports : ∀ r ∈ s.reports, r.execution.number < s.sent

theorem numbered_opened (settled : Bool) (jobs : Nat) (banner : List UInt8) :
    Numbered (opened settled jobs banner) := by
  refine ⟨?_, ?_, ?_, ?_, ?_⟩
  · intro x hx k hk
    obtain ⟨b, -, rfl⟩ := mem_map.mp hx
    rcases hk with hk | hk
    · exact absurd hk Author.noConfusion
    · exact absurd (Author.after.inj hk) (by simp)
  · intro k hk
    exact absurd hk (by simp [opened])
  · intro k hk
    exact absurd hk not_mem_nil
  · intro e he
    exact absurd he (by simp [opened])
  · intro r hr
    exact absurd hr not_mem_nil

/-- What is written carries the number of the command whose turn it is. -/
theorem turn_of_author {k : Nat} (h : s.author = .within k ∨ s.author = .after (some k)) :
    s.turn = some k := by
  unfold Session.author at h
  split at h
  · rename_i hturn
    rcases h with h | h
    · rw [hturn, Author.within.inj h]
    · exact absurd h Author.noConfusion
  · rcases h with h | h
    · exact absurd h Author.noConfusion
    · exact Author.after.inj h

theorem mem_emit {bytes : List UInt8} {x : Written} (h : x ∈ (s.emit bytes).pipe) :
    x ∈ s.pipe ∨ x.1 = s.author := by
  rcases mem_append.mp h with h | h
  · exact .inl h
  · obtain ⟨b, -, rfl⟩ := mem_map.mp h
    exact .inr rfl

theorem Numbered.emit (h : Numbered s) (bytes : List UInt8) : Numbered (s.emit bytes) := by
  refine ⟨?_, h.turn, h.queue, h.current, h.reports⟩
  intro x hx k hk
  rcases mem_emit hx with hx | hauthor
  · exact h.pipe x hx k hk
  · rw [hauthor] at hk
    exact h.turn k (turn_of_author hk)

theorem Numbered.reported (h : Numbered s) (he : e.number < s.sent) :
    Numbered (s.reported e pastDeadline) := by
  refine ⟨h.pipe, h.turn, h.queue, ?_, ?_⟩
  · intro e' he'
    exact absurd he' (by simp [Session.reported])
  · intro r hr
    rcases mem_append.mp hr with hr | hr
    · exact h.reports r hr
    · rw [mem_singleton.mp hr]
      exact he

theorem Numbered.forwarded (h : Numbered s) :
    Numbered (s.forwarded chunk pastDeadline) := by
  unfold Session.forwarded
  split
  · exact h
  · rename_i e he
    have hnumber : (e.hear chunk).number < s.sent := h.current e he
    split
    · exact h.reported hnumber
    · refine ⟨h.pipe, h.turn, h.queue, ?_, h.reports⟩
      intro e' he'
      rw [← Option.some.inj he']
      exact hnumber

theorem Numbered.sending (h : Numbered s) (command : List Char) :
    Numbered (s.sending command) := by
  refine ⟨?_, ?_, ?_, ?_, ?_⟩
  · intro x hx k hk
    exact Nat.lt_succ_of_lt (h.pipe x hx k hk)
  · intro k hk
    exact Nat.lt_succ_of_lt (h.turn k hk)
  · intro k hk
    rcases mem_append.mp hk with hk | hk
    · exact Nat.lt_succ_of_lt (h.queue k hk)
    · rw [mem_singleton.mp hk]
      exact Nat.lt_succ_self s.sent
  · intro e he
    rw [← Option.some.inj he]
    exact Nat.lt_succ_self s.sent
  · intro r hr
    exact Nat.lt_succ_of_lt (h.reports r hr)

theorem numbered_step (hs : step s a = some t) (h : Numbered s) : Numbered t := by
  have hdoes := step_does hs
  cases a with
  | send command =>
    obtain ⟨-, rfl⟩ := hdoes
    exact h.sending command
  | begin =>
    obtain ⟨k, queue, -, hqueue, rfl⟩ := hdoes
    have hin := h.queue
    rw [hqueue] at hin
    refine ⟨h.pipe, ?_, ?_, h.current, h.reports⟩
    · intro k' hk
      rw [← Option.some.inj hk]
      exact hin k mem_cons_self
    · intro k' hk
      exact hin k' (mem_cons_of_mem k hk)
  | write bytes =>
    obtain ⟨-, -, rfl⟩ := hdoes
    exact h.emit bytes
  | finish code =>
    obtain ⟨-, rfl⟩ := hdoes
    obtain ⟨hpipe, hturn, hqueue, hcurrent, hreports⟩ := h.emit (finishMarker code)
    exact ⟨hpipe, hturn, hqueue, hcurrent, hreports⟩
  | settle =>
    obtain ⟨-, rfl⟩ := hdoes
    exact ⟨h.pipe, h.turn, h.queue, h.current, h.reports⟩
  | fork =>
    obtain ⟨-, rfl⟩ := hdoes
    exact ⟨h.pipe, h.turn, h.queue, h.current, h.reports⟩
  | reap =>
    obtain ⟨-, rfl⟩ := hdoes
    exact ⟨h.pipe, h.turn, h.queue, h.current, h.reports⟩
  | deliver size pastDeadline =>
    obtain ⟨-, -, rfl⟩ := hdoes
    apply Numbered.forwarded
    refine ⟨?_, h.turn, h.queue, h.current, h.reports⟩
    intro x hx k hk
    exact h.pipe x (mem_of_mem_drop hx) k hk
  | giveUp pastDeadline =>
    obtain ⟨e, he, rfl⟩ := hdoes
    exact h.reported (h.current e he)

theorem numbered_run {settled : Bool} {jobs : Nat} {banner : List UInt8}
    (h : run step (opened settled jobs banner) as = some s) : Numbered s :=
  run_invariant h (fun _ _ _ => numbered_step) (numbered_opened settled jobs banner)

end ColossalCode.Pty
