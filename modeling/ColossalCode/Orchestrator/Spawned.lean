import ColossalCode.Orchestrator.Terminal

/-! The task that the interface spawns for a run, and the channel that both send their events on:
the run reports its own end, and the task reports it once more. -/
namespace ColossalCode.Orchestrator
open List Option OrchestratorEvent

open Protocol Transition

/-- A spawned run with what its channel has received; `listening` as long as the receiver is there,
`reported` when the task has sent its own event. -/
structure Spawned where
  run : State
  channel : List OrchestratorEvent
  listening : Bool
  reported : Bool

def Entry.emitted : Entry → Option OrchestratorEvent
  | .event e => some e
  | _ => none

/-- The events among some entries. -/
def emitted (entries : List Entry) : List OrchestratorEvent := entries.filterMap Entry.emitted

/-- Events after which the interface drops the receiver, in `handle_orchestrator_stopped`. -/
def OrchestratorEvent.stops : OrchestratorEvent → Bool
  | .completed | .aborted => true
  | _ => false

/-- `Completed`, `Aborted` or `Error`. -/
def OrchestratorEvent.terminal : OrchestratorEvent → Bool
  | .completed | .aborted | .error _ => true
  | _ => false

namespace Spawned

/-- `start_orchestrator_run`. -/
def init (spec : SpecSheet) : Spawned where
  run := .init spec
  channel := []
  listening := true
  reported := false

/-- Events that are sent arrive as long as the receiver is there. -/
def send (p : Spawned) (events : List OrchestratorEvent) : Spawned :=
  if p.listening then { p with channel := p.channel ++ events } else p

/-- What the task sends when `run` has returned. -/
def report : Except String Unit → OrchestratorEvent
  | .ok () => .completed
  | .error err => .error err

end Spawned

/-- A step of the run or of a control call, the event of the task, or the interface that handles an
event which stops the run. -/
inductive SpawnedAction where
  | run (action : Action)
  | report
  | stop

namespace Spawned

def step (rt : Runtime) (p : Spawned) : SpawnedAction → Option Spawned
  | .run action => (Orchestrator.step rt p.run action).map fun t =>
      { p with run := t }.send (emitted (t.log.drop p.run.log.length))
  | .report =>
    match p.run.pc with
    | .finished result _ =>
      if p.reported then none else some { p.send [report result] with reported := true }
    | _ => none
  | .stop =>
    if p.listening && p.channel.any stops then some { p with listening := false }
    else none

/-- The run took an `Abort`. -/
def Aborted (p : Spawned) : Prop := .handled .abort ∈ p.run.log

def Failed (p : Spawned) : Prop := ∃ err held, p.run.pc = .finished (.error err) held

/-- The channel got one terminal event; it is the last one and says how the run ended. -/
structure EndsOnce (p : Spawned) : Prop where
  once : ∃ e, p.channel.filter terminal = [e] ∧ p.channel.getLast? = some e
  aborted : .aborted ∈ p.channel ↔ p.Aborted
  failed : (∃ message, .error message ∈ p.channel) ↔ p.Failed

/-- No rerun of the verifier fails, and the task does not report a run that has returned without an
error while the interface is still listening. -/
def Single (p : Spawned) : SpawnedAction → Prop
  | .run action => ¬ p.run.RerunFails action
  | .report => p.Failed ∨ p.listening = false
  | .stop => True

variable {rt : Runtime} {spec : SpecSheet} {p q : Spawned} {action : SpawnedAction}
  {actions : List SpawnedAction} {s t : State}

inductive Does (rt : Runtime) (p : Spawned) : SpawnedAction → Spawned → Prop
  | run {a t} (h : Orchestrator.step rt p.run a = some t) :
      Does rt p (.run a) ({ p with run := t }.send (emitted (t.log.drop p.run.log.length)))
  | report {result held} (hpc : p.run.pc = .finished result held) (hnew : p.reported = false) :
      Does rt p .report { p.send [Spawned.report result] with reported := true }
  | stop (hlistening : p.listening = true) (hstops : ∃ e ∈ p.channel, e.stops = true) :
      Does rt p .stop { p with listening := false }

theorem does_of_step (h : p.step rt action = some q) : Does rt p action q := by
  cases action with
  | run a =>
    obtain ⟨t, ht, rfl⟩ := Option.map_eq_some_iff.mp h
    exact .run ht
  | report =>
    simp only [step] at h
    split at h
    · rename_i hpc
      split at h
      · cases h
      · rename_i hnew
        obtain rfl := Option.some.inj h
        exact .report hpc (by simpa using hnew)
    · cases h
  | stop =>
    simp only [step] at h
    split at h
    · rename_i hstop
      obtain rfl := Option.some.inj h
      rw [Bool.and_eq_true, List.any_eq_true] at hstop
      exact .stop hstop.1 hstop.2
    · cases h

@[simp] theorem send_run (p : Spawned) (events : List OrchestratorEvent) :
    (p.send events).run = p.run := by
  unfold send
  split <;> rfl

@[simp] theorem send_listening (p : Spawned) (events : List OrchestratorEvent) :
    (p.send events).listening = p.listening := by
  unfold send
  split <;> rfl

@[simp] theorem send_reported (p : Spawned) (events : List OrchestratorEvent) :
    (p.send events).reported = p.reported := by
  unfold send
  split <;> rfl

theorem send_channel (p : Spawned) (events : List OrchestratorEvent) :
    (p.send events).channel = if p.listening then p.channel ++ events else p.channel := by
  unfold send
  split <;> rfl

theorem emitted_append (entries more : List Entry) :
    emitted (entries ++ more) = emitted entries ++ emitted more := filterMap_append

variable {e : OrchestratorEvent} {entries : List Entry} {held : Option Frame}

theorem mem_emitted :
    e ∈ emitted entries ↔ .event e ∈ entries := by
  rw [emitted, mem_filterMap]
  constructor
  · rintro ⟨entry, hentry, he⟩
    cases entry with
    | event e' =>
      obtain rfl := some.inj he
      exact hentry
    | _ => cases he
  · exact fun h => ⟨_, h, rfl⟩

/-- A run that has returned leaves its log as it is. -/
theorem finished_step {a : Action} (h : Orchestrator.step rt s a = some t)
    {result : Except String Unit} (hpc : s.pc = .finished result held) :
    t.pc = .finished result held ∧ t.log = s.log := by
  have hc : s.core.pc = .finished result held := core_pc_of_eq hpc
  obtain ⟨shared, ht⟩ := (step_move h).of_finished hc
  have htpc : t.pc = .finished result held := by
    refine pc_of_core_pc (s := t) ?_ fun next => next.pc_ne_finished _ _
    rw [ht]
    exact hc
  have htrace : t.core.trace = s.core.trace := by rw [ht]
  simp only [State.core, hpc, htpc, Pc.todo, append_nil] at htrace
  exact ⟨htpc, htrace⟩

/-- The channel holds what the run has emitted, and at most one more event when the task has
reported; the interface stops listening only to a run that has returned without an error. -/
structure Tells (p : Spawned) : Prop where
  closing : p.run.core.Closing
  calm : p.run.Calm
  unreported : p.reported = false → p.channel = emitted p.run.log
  reported : p.reported = true → ∃ result held, p.run.pc = .finished result held ∧
    (p.channel = emitted p.run.log ++ [report result] ∨
      p.channel = emitted p.run.log ∧ p.listening = false)
  stopped : p.listening = false → ∃ held, p.run.pc = .finished (.ok ()) held

theorem tells_init (spec : SpecSheet) : (init spec).Tells where
  closing := closing_init
  calm := fun h => by simpa [State.core, State.init, Pc.todo, init] using h
  unreported := fun _ => rfl
  reported := fun h => by cases h
  stopped := fun h => by cases h

theorem emitted_grows (h : s.log <+: t.log) :
    emitted s.log ++ emitted (t.log.drop s.log.length) = emitted t.log := by
  obtain ⟨more, hmore⟩ := h
  rw [← hmore, drop_left, emitted_append]

/-- Only a run that has returned without an error has emitted an event that stops it. -/
theorem Tells.ok_of_stops (hp : p.Tells) (he : e.stops = true)
    (hlog : .event e ∈ p.run.log) : ∃ held, p.run.pc = .finished (.ok ()) held := by
  by_contra hnone
  have hrun : ∀ held, p.run.core.pc ≠ .finished (.ok ()) held := fun held hpc =>
    hnone ⟨held, pc_of_core_pc hpc fun next => next.pc_ne_finished _ _⟩
  have hstops := hp.closing.goesOn hrun _ ((log_prefix_trace p.run).subset hlog)
  cases e with
  | completed | aborted => simp [Entry.stops] at hstops
  | _ => cases he

theorem tells_does (hd : Does rt p action q) (hp : p.Tells) : q.Tells := by
  cases hd with
  | @run a t h =>
    have hlog := step_log h
    have hclosing : t.core.Closing := closing_move (step_move h) hp.closing
    have hfinished : ∀ {result held}, p.run.pc = .finished result held →
        t.pc = .finished result held ∧ emitted t.log = emitted p.run.log ∧
          emitted (t.log.drop p.run.log.length) = [] := by
      intro result held hpc
      obtain ⟨hpc, hsame⟩ := finished_step h hpc
      rw [hsame, drop_length]
      exact ⟨hpc, rfl, rfl⟩
    constructor
    · simpa using hclosing
    · simpa using calm_step h hp.calm
    · intro hnew
      rw [send_reported] at hnew
      rw [send_channel, send_run]
      split
      · exact (congrArg (· ++ _) (hp.unreported hnew)).trans (emitted_grows hlog)
      · rename_i hlistening
        obtain ⟨held, hpc⟩ := hp.stopped (by simpa using hlistening)
        exact (hp.unreported hnew).trans (hfinished hpc).2.1.symm
    · intro hreported
      rw [send_reported] at hreported
      obtain ⟨result, held, hpc, hchannel⟩ := hp.reported hreported
      obtain ⟨hpc, hsame, hnothing⟩ := hfinished hpc
      refine ⟨result, held, by simpa using hpc, ?_⟩
      simpa [send_channel, hnothing, hsame] using hchannel
    · intro hlistening
      obtain ⟨held, hpc⟩ := hp.stopped (by simpa using hlistening)
      exact ⟨held, by simpa using (hfinished hpc).1⟩
  | @report result held hpc hnew =>
    constructor
    · simpa using hp.closing
    · simpa using hp.calm
    · intro h
      cases h
    · intro _
      refine ⟨result, held, by simpa using hpc, ?_⟩
      have hchannel := hp.unreported hnew
      by_cases hlistening : p.listening = true
      · exact .inl (by simp [send_channel, hlistening, hchannel])
      · exact .inr (by simp [send_channel, hlistening, hchannel])
    · intro hlistening
      simpa using hp.stopped (by simpa using hlistening)
  | stop hlistening hstops =>
    refine ⟨hp.closing, hp.calm, hp.unreported, fun hreported => ?_, fun _ => ?_⟩
    · obtain ⟨result, held, hpc, hchannel⟩ := hp.reported hreported
      exact ⟨result, held, hpc, hchannel.imp_right fun h => ⟨h.1, rfl⟩⟩
    · obtain ⟨e, he, hstop⟩ := hstops
      cases hreported : p.reported with
      | false =>
        rw [hp.unreported hreported] at he
        exact hp.ok_of_stops hstop (mem_emitted.mp he)
      | true =>
        obtain ⟨result, held, hpc, hchannel⟩ := hp.reported hreported
        rcases hchannel with hchannel | ⟨-, hnot⟩
        · rw [hchannel] at he
          rcases mem_append.mp he with he | he
          · exact hp.ok_of_stops hstop (mem_emitted.mp he)
          · obtain rfl := mem_singleton.mp he
            cases result with
            | ok => exact ⟨held, hpc⟩
            | error err => cases hstop
        · rw [hlistening] at hnot
          cases hnot

/-- Nothing has gone to the channel beside what the run has emitted, or the run has failed. -/
def Unrepeated (p : Spawned) : Prop :=
  NoError p.run.log ∧ (p.reported = true → p.Failed ∨ p.channel = emitted p.run.log)

theorem unrepeated_does (hd : Does rt p action q) (hp : p.Tells) (hkept : p.Unrepeated) :
    q.Unrepeated ↔ p.Single action := by
  obtain ⟨hlog, hone⟩ := hkept
  cases hd with
  | @run a t h =>
    rw [Unrepeated, send_run, noError_step_iff h hp.calm hlog]
    refine and_iff_left fun hreported => ?_
    rw [send_reported] at hreported
    obtain ⟨result, held, hpc, -⟩ := hp.reported hreported
    obtain ⟨hpc', hsame⟩ := finished_step h hpc
    rcases hone hreported with ⟨err, held', herr⟩ | hchannel
    · rw [hpc] at herr
      cases herr
      exact .inl ⟨err, held, by simpa using hpc'⟩
    · exact .inr (by simp [send_channel, hsame, hchannel, emitted])
  | @report result held hpc hnew =>
    have hchannel := hp.unreported hnew
    rw [Unrepeated, Single]
    simp only [send_run]
    rw [and_iff_right hlog]
    rw [forall_const]
    refine or_congr Iff.rfl ?_
    rw [send_channel, hchannel]
    cases p.listening <;> simp
  | stop _ _ => exact iff_of_true ⟨hlog, hone⟩ trivial

theorem unrepeated_back (hd : Does rt p action q) (hp : p.Tells) (hq : q.Unrepeated) :
    p.Unrepeated := by
  obtain ⟨hlog, hone⟩ := hq
  cases hd with
  | @run a t h =>
    rw [send_run] at hlog
    refine ⟨NoError.before hlog (step_log h), fun hreported => ?_⟩
    obtain ⟨result, held, hpc, -⟩ := hp.reported hreported
    obtain ⟨hpc', hsame⟩ := finished_step h hpc
    rcases hone (by simpa using hreported) with ⟨err, held', herr⟩ | hchannel
    · rw [send_run, hpc'] at herr
      cases herr
      exact .inl ⟨err, held, hpc⟩
    · exact .inr (by simpa [send_channel, hsame, emitted] using hchannel)
  | report hpc hnew =>
    rw [send_run] at hlog
    exact ⟨hlog, fun h => absurd h (by simp [hnew])⟩
  | stop _ _ => exact ⟨hlog, hone⟩

theorem once_iff (front : List OrchestratorEvent) (he : e.terminal = true) :
    (∃ e', (front ++ [e]).filter terminal = [e'] ∧
      (front ++ [e]).getLast? = some e') ↔ front.filter terminal = [] := by
  rw [filter_append, filter_cons_of_pos he, filter_nil, getLast?_append]
  constructor
  · rintro ⟨e', hone, -⟩
    have hlength := congrArg List.length hone
    rw [length_append, length_singleton, length_singleton] at hlength
    exact length_eq_zero_iff.mp (by omega)
  · intro hfront
    exact ⟨e, by rw [hfront]; rfl, rfl⟩

/-- Entries that stop nothing have emitted terminal events only if a rerun failed. -/
theorem filter_emitted (h : ∀ e ∈ entries, e.stops = false) :
    (emitted entries).filter terminal = [] ↔ NoError entries := by
  rw [filter_eq_nil_iff]
  constructor
  · intro hnone entry hentry
    unfold Entry.isError
    split
    · exact absurd rfl (hnone _ (mem_emitted.mpr hentry))
    · rfl
  · intro hnone e he
    have hentry := mem_emitted.mp he
    have hstops := h _ hentry
    have herror := hnone _ hentry
    cases e with
    | completed | aborted => simp [Entry.stops] at hstops
    | error => simp [Entry.isError] at herror
    | _ => simp [terminal]

theorem not_mem_of_stops {e : Entry}
    (h : ∀ e ∈ entries, e.stops = false) (he : e.stops = true) : e ∉ entries := by
  intro hmem
  rw [h e hmem] at he
  cases he

theorem errors_iff :
    (∃ message, .error message ∈ emitted entries) ↔ ¬ NoError entries := by
  simp only [mem_emitted, NoError, not_forall, Bool.not_eq_false]
  constructor
  · rintro ⟨message, hmem⟩
    exact ⟨_, hmem, rfl⟩
  · rintro ⟨entry, hmem, herror⟩
    unfold Entry.isError at herror
    split at herror
    · exact ⟨_, hmem⟩
    · cases herror

/-- The run has failed: the task's event is the only one that can be terminal. -/
theorem Tells.endsOnce_failed (hp : p.Tells) {err : String}
    (hpc : p.run.pc = .finished (.error err) held)
    (hchannel : p.channel = emitted p.run.log ++ [.error err]) :
    p.EndsOnce ↔ NoError p.run.log := by
  have hcore : p.run.core.pc = .finished (.error err) held := core_pc_of_eq hpc
  have hstops : ∀ e ∈ p.run.log, e.stops = false := fun e he =>
    hp.closing.goesOn (by simp [hcore]) e ((log_prefix_trace _).subset he)
  have honce := once_iff (emitted p.run.log) (show (error err).terminal = true from rfl)
  rw [filter_emitted hstops, ← hchannel] at honce
  constructor
  · exact fun h => honce.mp h.once
  · intro hnone
    refine ⟨honce.mpr hnone, iff_of_false ?_ (not_mem_of_stops hstops rfl), iff_of_true ?_ ?_⟩
    · rw [hchannel, mem_append, mem_emitted, mem_singleton]
      rintro (h | h)
      · exact not_mem_of_stops hstops rfl h
      · cases h
    · exact ⟨err, by rw [hchannel]; simp⟩
    · exact ⟨err, held, hpc⟩

/-- The run has returned without an error: its own event is the only one that can be terminal, if
the task's did not arrive. -/
theorem Tells.endsOnce_ok (hp : p.Tells)
    (hpc : p.run.pc = .finished (.ok ()) held) (hchannel : p.channel = emitted p.run.log) :
    p.EndsOnce ↔ NoError p.run.log := by
  have hcore : p.run.core.pc = .finished (.ok ()) held := core_pc_of_eq hpc
  have htrace : p.run.core.trace = p.run.log := by simp [State.core, hpc, Pc.todo]
  have hfailed : ¬ p.Failed := by simp [Failed, hpc]
  obtain ⟨entries, hstops, hlog⟩ := hp.closing.ended held hcore
  rw [htrace] at hlog
  have hlast : ∃ e, e.terminal = true ∧ p.channel = emitted entries ++ [e] ∧
      (NoError p.run.log ↔ NoError entries) := by
    rcases hlog with hlog | hlog
    · exact ⟨.completed, rfl, by rw [hchannel, hlog, emitted_append]; rfl,
        by simp [NoError, hlog, or_imp, forall_and, Entry.isError]⟩
    · exact ⟨.aborted, rfl, by rw [hchannel, hlog, emitted_append]; rfl,
        by simp [NoError, hlog, or_imp, forall_and, Entry.isError]⟩
  obtain ⟨e, he, hemitted, hnoError⟩ := hlast
  have honce := once_iff (emitted entries) he
  rw [filter_emitted hstops, ← hemitted, ← hnoError] at honce
  constructor
  · exact fun h => honce.mp h.once
  · intro hnone
    refine ⟨honce.mpr hnone, ?_, iff_of_false ?_ hfailed⟩
    · rw [hchannel, mem_emitted, Aborted]
      have haborted := not_mem_of_stops (e := .event .aborted) hstops rfl
      have hhandled := not_mem_of_stops (e := .handled .abort) hstops rfl
      rcases hlog with hlog | hlog <;> simp [hlog, haborted, hhandled]
    · rw [hchannel, errors_iff]
      exact fun h => h hnone

/-- Both the run and the task have reported the end. -/
theorem Tells.not_endsOnce (hp : p.Tells) (hpc : p.run.pc = .finished (.ok ()) held)
    (hchannel : p.channel = emitted p.run.log ++ [.completed]) : ¬ p.EndsOnce := by
  intro h
  have hcore : p.run.core.pc = .finished (.ok ()) held := core_pc_of_eq hpc
  have htrace : p.run.core.trace = p.run.log := by simp [State.core, hpc, Pc.todo]
  obtain ⟨entries, -, hlog⟩ := hp.closing.ended held hcore
  have hcompleted : completed.terminal = true := rfl
  have hnone := (once_iff (emitted p.run.log) hcompleted).mp (hchannel ▸ h.once)
  rw [htrace] at hlog
  rcases hlog with hlog | hlog <;>
    simp [hlog, emitted, Entry.emitted, terminal] at hnone

theorem Tells.endsOnce_iff (hp : p.Tells) (hreported : p.reported = true) :
    p.EndsOnce ↔ p.Unrepeated := by
  obtain ⟨result, held, hpc, hchannel⟩ := hp.reported hreported
  rw [Unrepeated]
  rcases hchannel with hchannel | ⟨hchannel, hnot⟩
  · cases result with
    | error err =>
      rw [hp.endsOnce_failed hpc hchannel]
      exact (and_iff_left fun _ => .inl ⟨err, held, hpc⟩).symm
    | ok =>
      refine iff_of_false (hp.not_endsOnce hpc hchannel) fun ⟨_, h⟩ => ?_
      rcases h hreported with ⟨err, held', herr⟩ | hsame
      · rw [hpc] at herr
        cases herr
      · simp [hchannel] at hsame
  · obtain ⟨held, hpc⟩ := hp.stopped hnot
    rw [hp.endsOnce_ok hpc hchannel]
    exact (and_iff_left fun _ => .inr hchannel).symm

/-- When the task has reported, the channel has had one terminal event that tells how the run ended
exactly if no rerun of the verifier failed, and the task did not report a run that had told its end
already, unless no one was listening any more. -/
theorem ends_once_iff (hrun : Transition.run (step rt) (init spec) actions = some p)
    (hreported : p.reported = true) :
    p.EndsOnce ↔ Steps (step rt) Single (init spec) actions p := by
  have htells : p.Tells := run_invariant hrun (fun _ _ _ h => tells_does (does_of_step h))
    (tells_init spec)
  rw [htells.endsOnce_iff hreported]
  exact end_iff_steps (I := Tells) (fun _ _ _ h => tells_does (does_of_step h))
    (fun _ _ _ hp h hkept => unrepeated_does (does_of_step h) hp hkept)
    (fun _ _ _ hp h hq => unrepeated_back (does_of_step h) hp hq) hrun (tells_init spec)
    ⟨fun _ h => absurd h not_mem_nil, fun h => by cases h⟩

end Spawned

/-- The main agent cannot be told of the first step. -/
def refuseFirst : List Action := ticks 5 ++ [.ack (.error "channel closed")]

theorem ends_once_failed : ∃ p,
    Transition.run (Spawned.step sampleRuntime) (.init (sampleSheet "root" [sampleStep "1"]))
      (refuseFirst.map .run ++ [.report]) = some p ∧ p.EndsOnce := by
  have htick : ∀ s : State, ¬ s.RerunFails .tick := fun _ h => h
  have hack : ∀ (s : State) (todo : List Entry) (next : Next), s.pc = .perform todo next →
      ¬ s.RerunFails (.ack (.error "channel closed")) := by
    rintro s todo next hpc ⟨_, _, _, _, h⟩
    rw [hpc] at h
    cases h
  have hsteps : Steps (Spawned.step sampleRuntime) Spawned.Single
      (.init (sampleSheet "root" [sampleStep "1"])) (refuseFirst.map .run ++ [.report]) _ :=
    .head (htick _) rfl <| .head (htick _) rfl <| .head (htick _) rfl <| .head (htick _) rfl <|
      .head (htick _) rfl <| .head (hack _ _ _ rfl) rfl <| .head (.inl ⟨_, _, rfl⟩) rfl <| .refl _
  exact ⟨_, hsteps.run_eq, (Spawned.ends_once_iff hsteps.run_eq rfl).mpr hsteps⟩

/-- The only step is accepted. -/
def acceptOnly : List Action :=
  toExecution ++ [.subAgentDone (.ok (sampleDone "1"))] ++ toAcceptance ++ ticks 1

/-- The end of a completed run is told twice. -/
theorem completed_twice : ¬ ∀ (rt : Runtime) (spec : SpecSheet) (actions : List SpawnedAction)
    (p : Spawned), Transition.run (Spawned.step rt) (.init spec) actions = some p →
      p.reported = true → p.EndsOnce := by
  intro hall
  obtain ⟨p, hrun, hreported, htwice⟩ : ∃ p,
      Transition.run (Spawned.step sampleRuntime) (.init (sampleSheet "root" [sampleStep "1"]))
        (acceptOnly.map .run ++ [.report]) = some p ∧ p.reported = true ∧
      p.channel.filter terminal = [.completed, .completed] :=
    ⟨_, rfl, rfl, rfl⟩
  obtain ⟨e, hone, -⟩ := (hall _ _ _ p hrun hreported).once
  rw [htwice] at hone
  cases hone

end ColossalCode.Orchestrator
