import ColossalCode.Pty.Session
import ColossalCode.Pty.Chunking

/-! Whose bytes a command's exit code and output are made of. -/
namespace ColossalCode.Pty
open List

open Transition

variable {s t u : Session} {a : Action} {as : List Action} {e : Execution} {chunk : List Written}
  {command : List Char} {pastDeadline : Bool} {K : Nat → Prop} {n : Nat}

/-- Everything that the command has been forwarded was written while it ran. -/
def Execution.IsOwn (e : Execution) : Prop := ∀ chunk ∈ e.heard, ∀ x ∈ chunk, x.1 = .within e.number

/-- The results of these commands, and what they are being made of, are their own. -/
structure Own (K : Nat → Prop) (s : Session) : Prop where
  current : ∀ e, s.current = some e → K e.number → e.IsOwn
  reports : ∀ r ∈ s.reports, K r.execution.number → r.execution.IsOwn

/-- No read of a command goes on into the prompt that follows it. -/
def StopsAtEnd (s : Session) : Action → Prop
  | .deliver size _ =>
    ∀ e, s.current = some e → ∀ b, (Author.after (some e.number), b) ∉ s.pipe.take size
  | _ => True

/-- The shell waits at its prompt, with nothing typed ahead and no job in the background, and all
that it has written has been read. -/
structure Quiet (s : Session) : Prop where
  phase : s.phase = .waiting
  queue : s.queue = []
  jobs : s.jobs = 0
  pipe : s.pipe = []

/-- The commands are sent to a quiet shell. -/
def SentQuiet (K : Nat → Prop) (s : Session) : Action → Prop
  | .send _ => K s.sent → Quiet s
  | _ => True

/-- While a command is executed that was sent to a quiet shell, it is about to begin, or all that
is in the pipe was written in its turn. -/
def Tidy (n : Nat) (s : Session) : Prop :=
  (s.phase = .waiting ∧ s.queue = [n] ∧ s.jobs = 0 ∧ s.pipe = []) ∨
    (s.queue = [] ∧ s.turn = some n ∧ ∀ x ∈ s.pipe, x.1 = .within n ∨ x.1 = .after (some n))

/-- Where only bytes of a command's turn are in the pipe, a read that stops at its end is its own.
-/
theorem isOwn_hear (he : e.IsOwn) (hchunk : ∀ x ∈ chunk, x.1 = .within e.number) :
    (e.hear chunk).IsOwn := by
  intro heard hmem x hx
  rcases mem_append.mp hmem with hmem | hmem
  · exact he heard hmem x hx
  · rw [mem_singleton.mp hmem] at hx
    exact hchunk x hx

theorem tidy_sending (h : Quiet s) (command : List Char) : Tidy s.sent (s.sending command) := by
  left
  refine ⟨h.phase, ?_, h.jobs, h.pipe⟩
  show s.queue ++ [s.sent] = [s.sent]
  rw [h.queue, nil_append]

/-- What is written in a command's turn carries its number. -/
theorem author_of_turn (h : s.turn = some n) :
    s.author = .within n ∨ s.author = .after (some n) := by
  cases hphase : s.phase <;> simp [Session.author, hphase, h]

theorem inTurn_emit (hturn : s.turn = some n)
    (hpipe : ∀ x ∈ s.pipe, x.1 = .within n ∨ x.1 = .after (some n)) (bytes : List UInt8) :
    ∀ x ∈ (s.emit bytes).pipe, x.1 = .within n ∨ x.1 = .after (some n) := by
  intro x hx
  rcases mem_emit hx with hx | hx
  · exact hpipe x hx
  · rw [hx]
    exact author_of_turn hturn

/-- The shell's own steps leave the pipe tidy. -/
theorem tidy_step (hs : step s a = some t) (h : Tidy n s) (hsend : ∀ c, a ≠ .send c)
    (hdeliver : ∀ size late, a ≠ .deliver size late) : Tidy n t := by
  have hdoes := step_does hs
  cases a with
  | send command => exact absurd rfl (hsend command)
  | deliver size late => exact absurd rfl (hdeliver size late)
  | begin =>
    obtain ⟨k, queue, -, hqueue, rfl⟩ := hdoes
    rcases h with ⟨-, hn, -, hpipe⟩ | ⟨hnil, -, -⟩
    · rw [hqueue] at hn
      obtain ⟨rfl, rfl⟩ := List.cons.inj hn
      right
      refine ⟨rfl, rfl, ?_⟩
      intro x hx
      rw [hpipe] at hx
      exact absurd hx not_mem_nil
    · rw [hqueue] at hnil
      exact absurd hnil (cons_ne_nil k queue)
  | write bytes =>
    obtain ⟨-, hphase, rfl⟩ := hdoes
    rcases h with ⟨hwaiting, -, hjobs, -⟩ | ⟨hqueue, hturn, hpipe⟩
    · rcases hphase with hphase | hphase
      · exact absurd hwaiting hphase
      · omega
    · exact .inr ⟨hqueue, hturn, inTurn_emit hturn hpipe bytes⟩
  | finish code =>
    obtain ⟨hphase, rfl⟩ := hdoes
    rcases h with ⟨hwaiting, -, -, -⟩ | ⟨hqueue, hturn, hpipe⟩
    · rw [hwaiting] at hphase
      exact absurd hphase Phase.noConfusion
    · exact .inr ⟨hqueue, hturn, inTurn_emit hturn hpipe (finishMarker code)⟩
  | settle =>
    obtain ⟨hphase, rfl⟩ := hdoes
    rcases h with ⟨hwaiting, -, -, -⟩ | h
    · rw [hwaiting] at hphase
      exact absurd hphase Phase.noConfusion
    · exact .inr h
  | fork =>
    obtain ⟨hphase, rfl⟩ := hdoes
    rcases h with ⟨hwaiting, -, -, -⟩ | h
    · rw [hwaiting] at hphase
      exact absurd hphase Phase.noConfusion
    · exact .inr h
  | reap =>
    obtain ⟨hjobs, rfl⟩ := hdoes
    rcases h with ⟨-, -, hnone, -⟩ | h
    · omega
    · exact .inr h
  | giveUp late =>
    obtain ⟨e, -, rfl⟩ := hdoes
    exact h

/-- The results are own, and the command in execution has a tidy pipe. -/
structure Kept (K : Nat → Prop) (s : Session) : Prop where
  own : Own K s
  tidy : ∀ e, s.current = some e → K e.number → Tidy e.number s

theorem kept_reported (h : Kept K s) (he : K e.number → e.IsOwn) :
    Kept K (s.reported e pastDeadline) := by
  refine ⟨⟨?_, ?_⟩, ?_⟩
  · intro e' he'
    exact absurd he' (by simp [Session.reported])
  · intro r hr hk
    rcases mem_append.mp hr with hr | hr
    · exact h.own.reports r hr hk
    · rw [mem_singleton.mp hr] at hk ⊢
      exact he hk
  · intro e' he'
    exact absurd he' (by simp [Session.reported])

theorem kept_deliver {size : Nat} (h : Kept K s)
    (hstop : StopsAtEnd s (.deliver size pastDeadline)) :
    Kept K ((s.read size).forwarded (s.pipe.take size) pastDeadline) := by
  have hread : ∀ e, s.current = some e → K e.number → Tidy e.number (s.read size) ∧
      ∀ x ∈ s.pipe.take size, x.1 = .within e.number := by
    intro e he hk
    rcases h.tidy e he hk with ⟨hphase, hqueue, hjobs, hpipe⟩ | ⟨hqueue, hturn, hpipe⟩
    · refine ⟨.inl ⟨hphase, hqueue, hjobs, ?_⟩, ?_⟩
      · show s.pipe.drop size = []
        rw [hpipe, drop_nil]
      · intro x hx
        rw [hpipe, take_nil] at hx
        exact absurd hx not_mem_nil
    · refine ⟨.inr ⟨hqueue, hturn, fun x hx => hpipe x (mem_of_mem_drop hx)⟩, ?_⟩
      intro x hx
      rcases hpipe x (mem_of_mem_take hx) with hx' | hx'
      · exact hx'
      · have hafter : (Author.after (some e.number), x.2) ∈ s.pipe.take size := by
          rw [← hx']
          exact hx
        exact absurd hafter (hstop e he x.2)
  have hkept : Kept K (s.read size) := by
    refine ⟨⟨h.own.current, h.own.reports⟩, ?_⟩
    intro e he hk
    exact (hread e he hk).1
  unfold Session.forwarded
  split
  · exact hkept
  · rename_i e he
    have hown : K e.number → (e.hear (s.pipe.take size)).IsOwn := fun hk =>
      isOwn_hear (h.own.current e he hk) (hread e he hk).2
    split
    · exact kept_reported hkept hown
    · refine ⟨⟨?_, h.own.reports⟩, ?_⟩
      · intro e' he' hk
        rw [← Option.some.inj he'] at hk ⊢
        exact hown hk
      · intro e' he' hk
        rw [← Option.some.inj he'] at hk ⊢
        exact hkept.tidy e he hk

/-- The steps of the shell do not touch what the manager has read. -/
theorem shell_step (hs : step s a = some t) (hsend : ∀ c, a ≠ .send c)
    (hdeliver : ∀ size late, a ≠ .deliver size late) (hgive : ∀ late, a ≠ .giveUp late) :
    t.current = s.current ∧ t.reports = s.reports := by
  have hdoes := step_does hs
  cases a with
  | send command => exact absurd rfl (hsend command)
  | deliver size late => exact absurd rfl (hdeliver size late)
  | giveUp late => exact absurd rfl (hgive late)
  | begin =>
    obtain ⟨k, queue, -, -, rfl⟩ := hdoes
    exact ⟨rfl, rfl⟩
  | write bytes =>
    obtain ⟨-, -, rfl⟩ := hdoes
    exact ⟨rfl, rfl⟩
  | finish code =>
    obtain ⟨-, rfl⟩ := hdoes
    exact ⟨rfl, rfl⟩
  | settle =>
    obtain ⟨-, rfl⟩ := hdoes
    exact ⟨rfl, rfl⟩
  | fork =>
    obtain ⟨-, rfl⟩ := hdoes
    exact ⟨rfl, rfl⟩
  | reap =>
    obtain ⟨-, rfl⟩ := hdoes
    exact ⟨rfl, rfl⟩

theorem kept_shell (hs : step s a = some t) (hsend : ∀ c, a ≠ .send c)
    (hdeliver : ∀ size late, a ≠ .deliver size late) (hgive : ∀ late, a ≠ .giveUp late)
    (h : Kept K s) : Kept K t := by
  obtain ⟨hcurrent, hreports⟩ := shell_step hs hsend hdeliver hgive
  refine ⟨⟨?_, ?_⟩, ?_⟩
  · rw [hcurrent]
    exact h.own.current
  · rw [hreports]
    exact h.own.reports
  · rw [hcurrent]
    intro e he hk
    exact tidy_step hs (h.tidy e he hk) hsend hdeliver

theorem kept_sending (h : Kept K s) (hquiet : K s.sent → Quiet s) (command : List Char) :
    Kept K (s.sending command) := by
  refine ⟨⟨?_, h.own.reports⟩, ?_⟩
  · intro e he _
    rw [← Option.some.inj he]
    intro chunk hchunk
    exact absurd hchunk not_mem_nil
  · intro e he hk
    rw [← Option.some.inj he] at hk ⊢
    exact tidy_sending (hquiet hk) command

theorem kept_step (hs : step s a = some t) (hstop : StopsAtEnd s a) (hquiet : SentQuiet K s a)
    (h : Kept K s) : Kept K t := by
  cases a with
  | send command =>
    obtain ⟨-, rfl⟩ := step_does hs
    exact kept_sending h hquiet command
  | deliver size late =>
    obtain ⟨-, -, rfl⟩ := step_does hs
    exact kept_deliver h hstop
  | giveUp late =>
    obtain ⟨e, he, rfl⟩ := step_does hs
    exact kept_reported h (h.own.current e he)
  | begin => exact kept_shell hs nofun nofun nofun h
  | write bytes => exact kept_shell hs nofun nofun nofun h
  | finish code => exact kept_shell hs nofun nofun nofun h
  | settle => exact kept_shell hs nofun nofun nofun h
  | fork => exact kept_shell hs nofun nofun nofun h
  | reap => exact kept_shell hs nofun nofun nofun h

theorem sent_le (hs : step s a = some t) : s.sent ≤ t.sent := by
  have hdoes := step_does hs
  cases a with
  | send command =>
    obtain ⟨-, rfl⟩ := hdoes
    exact Nat.le_succ s.sent
  | deliver size late =>
    obtain ⟨-, -, rfl⟩ := hdoes
    unfold Session.forwarded
    split
    · exact Nat.le_refl s.sent
    · split
      · exact Nat.le_refl s.sent
      · exact Nat.le_refl s.sent
  | giveUp late =>
    obtain ⟨e, -, rfl⟩ := hdoes
    exact Nat.le_refl s.sent
  | begin =>
    obtain ⟨k, queue, -, -, rfl⟩ := hdoes
    exact Nat.le_refl s.sent
  | write bytes =>
    obtain ⟨-, -, rfl⟩ := hdoes
    exact Nat.le_refl s.sent
  | finish code =>
    obtain ⟨-, rfl⟩ := hdoes
    exact Nat.le_refl s.sent
  | settle =>
    obtain ⟨-, rfl⟩ := hdoes
    exact Nat.le_refl s.sent
  | fork =>
    obtain ⟨-, rfl⟩ := hdoes
    exact Nat.le_refl s.sent
  | reap =>
    obtain ⟨-, rfl⟩ := hdoes
    exact Nat.le_refl s.sent

/-- A byte of another turn that stands first in the pipe can be read by the command at once. -/
theorem not_own_of_pipe (hcurrent : s.current = some e) (hk : K e.number)
    {x : Written} {rest : List Written} (hpipe : s.pipe = x :: rest)
    (hx : ¬ (x.1 = .within e.number ∨ x.1 = .after (some e.number))) :
    ∃ as t, Steps step StopsAtEnd s as t ∧ ¬ Own K t := by
  have hread : s.pipe.take 1 = [x] := by rw [hpipe, take_succ_cons, take_zero]
  have hstop : StopsAtEnd s (.deliver 1 false) := by
    intro e' he' b hb
    rw [hcurrent] at he'
    rw [hread, ← Option.some.inj he', mem_singleton] at hb
    apply hx
    rw [← hb]
    exact .inr rfl
  have hstep : step s (.deliver 1 false) =
      some ((s.read 1).forwarded (s.pipe.take 1) false) := if_pos (by simp [hpipe])
  have hforeign : ¬ (e.hear [x]).IsOwn := by
    intro hown
    apply hx
    left
    exact hown [x] (mem_append_right _ (mem_singleton_self _)) x
      (mem_singleton_self x)
  refine ⟨[.deliver 1 false], _, .head hstop hstep (.refl _), ?_⟩
  intro hown
  have hreading : (s.read 1).current = some e := hcurrent
  unfold Session.forwarded at hown
  rw [hreading, hread] at hown
  dsimp only at hown
  split at hown
  · exact hforeign (hown.reports _ (mem_append_right _ (mem_singleton_self _)) hk)
  · exact hforeign (hown.current _ rfl hk)

/-- Bytes of another turn that the shell can still write can be read by the command. -/
theorem not_own_of_emit {bytes : List UInt8} (hcurrent : s.current = some e) (hk : K e.number)
    (hpipe : s.pipe = []) (hturn : s.turn ≠ some e.number) (hne : bytes ≠ [])
    (hstep : step s a = some t) (hstop : StopsAtEnd s a) (hwritten : t.pipe = (s.emit bytes).pipe)
    (hkept : t.current = s.current) : ∃ as u, Steps step StopsAtEnd s as u ∧ ¬ Own K u := by
  obtain ⟨b, bytes, rfl⟩ := exists_cons_of_ne_nil hne
  have hfirst : t.pipe = (s.author, b) :: bytes.map fun b => (s.author, b) := by
    rw [hwritten]
    show s.pipe ++ _ = _
    rw [hpipe]
    rfl
  have hforeign : ¬ (s.author = .within e.number ∨ s.author = .after (some e.number)) := fun h =>
    hturn (turn_of_author h)
  rw [← hkept] at hcurrent
  obtain ⟨as, u, hsteps, hu⟩ := not_own_of_pipe hcurrent hk hfirst hforeign
  exact ⟨a :: as, u, .head hstop hstep hsteps, hu⟩

theorem finishMarker_ne_nil (code : UInt8) : finishMarker code ≠ [] := cons_ne_nil _ _

/-- A shell that runs an earlier command can end it while the next one is read. -/
theorem not_own_of_running (hcurrent : s.current = some e) (hk : K e.number) (hpipe : s.pipe = [])
    (hturn : s.turn ≠ some e.number) (hphase : s.phase = .running) :
    ∃ as u, Steps step StopsAtEnd s as u ∧ ¬ Own K u :=
  not_own_of_emit (a := .finish 0) hcurrent hk hpipe hturn (finishMarker_ne_nil 0) (if_pos hphase)
    trivial rfl rfl

/-- Sent to a shell that is not quiet, a command can read what is not its own. -/
theorem not_own_of_noisy (h : Numbered s) (hnoisy : ¬ Quiet s) (command : List Char) :
    ∃ as t, Steps step StopsAtEnd (s.sending command) as t ∧ ¬ Own (· = s.sent) t := by
  have hturn : s.turn ≠ some s.sent := fun ht => absurd (h.turn _ ht) (Nat.lt_irrefl s.sent)
  have hwrite : s.pipe = [] → s.phase ≠ .waiting ∨ 0 < s.jobs →
      ∃ as t, Steps step StopsAtEnd (s.sending command) as t ∧ ¬ Own (· = s.sent) t := by
    intro hpipe hphase
    have hne : ([0x24] : List UInt8) ≠ [] := cons_ne_nil _ _
    exact not_own_of_emit (a := .write [0x24]) rfl rfl hpipe hturn hne
      (if_pos ⟨by decide, hphase⟩) trivial rfl rfl
  cases hpipe : s.pipe with
  | cons x rest =>
    have hpiped : (s.sending command).pipe = x :: rest := hpipe
    refine not_own_of_pipe rfl rfl hpiped ?_
    intro hx
    have hlt := h.pipe x (by simp [hpipe]) s.sent hx
    exact absurd hlt (Nat.lt_irrefl s.sent)
  | nil =>
    cases hphase : s.phase with
    | running => exact hwrite hpipe (.inl (by simp [hphase]))
    | prompting => exact hwrite hpipe (.inl (by simp [hphase]))
    | waiting =>
      cases hqueue : s.queue with
      | nil =>
        apply hwrite hpipe
        right
        by_contra hjobs
        exact hnoisy ⟨hphase, hqueue, by omega, hpipe⟩
      | cons k queue =>
        -- an earlier command is still typed ahead: it begins, and can end
        have hk : k < s.sent := h.queue k (by simp [hqueue])
        let v : Session := { s.sending command with
          phase := .running, turn := some k, queue := queue ++ [s.sent] }
        have hbegin : step (s.sending command) .begin = some v := by
          have hsent : (s.sending command).queue = k :: (queue ++ [s.sent]) := by
            show s.queue ++ [s.sent] = _
            rw [hqueue]
            rfl
          have hwaiting : (s.sending command).phase = .waiting := hphase
          simp only [step, hsent, hwaiting]
          rfl
        have hkturn : v.turn ≠ some s.sent := by
          intro heq
          have hkn := Option.some.inj heq
          omega
        have hvpipe : v.pipe = [] := hpipe
        obtain ⟨as, t, hsteps, ht⟩ := not_own_of_running (K := (· = s.sent)) (s := v) rfl rfl hvpipe
          hkturn rfl
        exact ⟨.begin :: as, t, .head trivial hbegin hsteps, ht⟩

/-- Before a command is sent nothing has been read for it. -/
theorem kept_unsent (h : Numbered s) (hidle : s.current = none) : Kept (· = s.sent) s := by
  refine ⟨⟨?_, ?_⟩, ?_⟩
  · intro e he
    rw [hidle] at he
    cases he
  · intro r hr hk
    have hlt := h.reports r hr
    exact absurd hk (Nat.ne_of_lt hlt)
  · intro e he
    rw [hidle] at he
    cases he

theorem kept_opened (settled : Bool) (jobs : Nat) (banner : List UInt8) :
    Kept K (opened settled jobs banner) := by
  refine ⟨⟨?_, ?_⟩, ?_⟩
  · intro e he
    cases he
  · intro r hr
    cases hr
  · intro e he
    cases he

/-- The commands of a session whose sends all find the shell quiet. -/
theorem own_of_quiet_sends {settled : Bool} {jobs : Nat} {banner : List UInt8}
    (h : Steps step (fun s a => StopsAtEnd s a ∧ SentQuiet K s a)
      (opened settled jobs banner) as t) :
    Own K t := by
  have hkept : Kept K t := h.invariant
    (fun s a t hok hs hk => kept_step hs hok.1 hok.2 hk) (kept_opened settled jobs banner)
  exact hkept.own

/-- A command that is sent to a quiet shell, whatever follows. -/
theorem own_of_quiet (hnumbered : Numbered s) (hidle : s.current = none) (hquiet : Quiet s)
    (h : Steps step StopsAtEnd (s.sending command) as t) : Own (· = s.sent) t := by
  have hstart : Kept (· = s.sent) (s.sending command) :=
    kept_sending (kept_unsent hnumbered hidle) (fun _ => hquiet) command
  have hinv : Kept (· = s.sent) t ∧ s.sent < t.sent := by
    apply h.invariant (P := fun t => Kept (· = s.sent) t ∧ s.sent < t.sent)
    · rintro v a w hstop hs ⟨hkept, hlt⟩
      refine ⟨kept_step hs hstop ?_ hkept, Nat.lt_of_lt_of_le hlt (sent_le hs)⟩
      cases a with
      | send _ => exact fun heq => absurd heq (Nat.ne_of_gt hlt)
      | _ => trivial
    · exact ⟨hstart, Nat.lt_succ_self s.sent⟩
  exact hinv.1.own

/-- Where every command is sent to a quiet shell, and no read of it goes on into the next prompt,
every exit code and every output is made of what the shell has written while the command ran. And
whenever the shell is not quiet, the command that is sent can be given what is another's. -/
theorem results_own_iff_quiet (settled : Bool) (jobs : Nat) (banner : List UInt8) :
    (∀ as t, Steps step (fun s a => StopsAtEnd s a ∧ SentQuiet (fun _ => True) s a)
      (opened settled jobs banner) as t → Own (fun _ => True) t) ∧
    ∀ as s command u, run step (opened settled jobs banner) as = some s →
      step s (.send command) = some u →
        ((∀ bs t, Steps step StopsAtEnd u bs t → Own (· = s.sent) t) ↔ Quiet s) := by
  refine ⟨fun as t h => own_of_quiet_sends h, ?_⟩
  intro as s command u h hsend
  have hnumbered := numbered_run h
  obtain ⟨hidle, rfl⟩ := step_does hsend
  constructor
  · intro hown
    by_contra hnoisy
    obtain ⟨bs, t, hsteps, ht⟩ := not_own_of_noisy hnumbered hnoisy command
    exact ht (hown bs t hsteps)
  · intro hquiet bs t hsteps
    exact own_of_quiet hnumbered hidle hquiet hsteps

/-- `false` is sent to a quiet shell and reports its exit code. -/
theorem results_own_false :
    ∃ t, run step (opened true 0 []) [.send "false".toList, .begin, .finish 1, .deliver 10 false] =
        some t ∧
      (t.reports.map fun r => (r.execution.number, (r.output dropControls).exitStatus)) =
        [(0, .completed 1)] ∧ Own (fun _ => True) t := by
  refine ⟨_, rfl, by decide, (results_own_iff_quiet true 0 []).1
    [.send "false".toList, .begin, .finish 1, .deliver 10 false] _ ?_⟩
  refine .head ⟨trivial, fun _ => ⟨rfl, rfl, rfl, rfl⟩⟩ rfl (.head ⟨trivial, trivial⟩ rfl
    (.head ⟨trivial, trivial⟩ rfl (.head ⟨?_, trivial⟩ rfl (.refl _))))
  intro e _ b hb
  have hwithin : ∀ x ∈ (finishMarker 1).map fun b => (Author.within 0, b), x.1 =
    .within 0 := by decide
  exact absurd (hwithin _ (mem_of_mem_take hb)) Author.noConfusion

/-- `true` is sent after `sleep 99; false` has timed out, and reports its exit code 1 before it has
begun. -/
theorem late_marker_taken :
    ∃ t, run step (opened true 0 []) [.send "sleep 99; false".toList, .begin, .giveUp true,
        .send "true".toList, .finish 1, .deliver 10 false] = some t ∧
      t.turn = some 0 ∧ t.queue = [1] ∧
      (t.reports.map fun r => (r.execution.number, (r.output dropControls).exitStatus)) =
        [(0, .timeout), (1, .completed 1)] ∧ ¬ Own (fun _ => True) t := by
  refine ⟨_, rfl, rfl, rfl, by decide, ?_⟩
  intro hown
  have hreport := hown.reports ⟨⟨1, "true".toList,
    [(finishMarker 1).map fun b => (Author.within 0, b)]⟩, false⟩ (by decide) trivial
  have hfirst := hreport _ (mem_singleton_self _) (.within 0, esc) (by decide)
  exact absurd hfirst (by decide)

end ColossalCode.Pty
