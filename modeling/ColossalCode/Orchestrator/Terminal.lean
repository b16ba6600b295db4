import ColossalCode.Orchestrator.Stop

/-! The terminal events of a run: which of its moves emit one, and in which state they leave it. -/
namespace ColossalCode.Orchestrator
open List Option Core

open Protocol Transition

/-- An entry that a run leaves only where it ends, or where a rerun of the verifier fails. -/
def Entry.terminal : Entry → Bool
  | .event .completed | .event .aborted | .event (.error _) | .handled .abort => true
  | _ => false

def Plain (entries : List Entry) : Prop := ∀ e ∈ entries, e.terminal = false

/-- What a move does to the terminal entries. -/
inductive Ends (c d : Core) : Prop
  | goesOn (entries) (hplain : Plain entries) (htrace : d.trace = c.trace ++ entries)
      (hpc : d.Finished → d.pc = c.pc ∧ entries = [])
  | completes (hrun : ¬ c.Finished) (hpc : d.pc = .finished (.ok ()) none)
      (htrace : d.trace = c.trace ++ [.event .completed])
  | aborts {held} (hrun : ¬ c.Finished) (hpc : d.pc = .finished (.ok ()) held)
      (htrace : d.trace = c.trace ++ [.handled .abort, .event .aborted])
  | rerunFails {report todo site rest summary message}
      (hc : c.pc = .reporting (report :: todo) site rest summary) (hd : d.pc = .handle site rest)
      (htrace : d.trace = c.trace ++ [report.entry, .event (.error message)])
  | fails {err held} (hrun : ¬ c.Finished) (hpc : d.pc = .finished (.error err) held)
      (htrace : ∀ e ∈ d.trace, e ∈ c.trace ∨ e.terminal = false)

variable {rt : Runtime} {spec : SpecSheet} {s t : State} {c d : Core} {entries : List Entry}
  {action : Action}

theorem plain_nil : Plain [] := fun _ h => absurd h not_mem_nil

theorem plain_cons {e : Entry} : Plain (e :: entries) ↔ e.terminal = false ∧ Plain entries := by
  simp [Plain]

theorem plain_append {more : List Entry} :
    Plain (entries ++ more) ↔ Plain entries ∧ Plain more := by
  simp [Plain, or_imp, forall_and]

theorem plain_announce (a : Active) : Plain (announce a) := by
  simp [Plain, announce, Entry.terminal, statusEvent]

theorem report_plain (report : Report) : report.entry.terminal = false := by
  cases report <;> rfl

theorem plain_reports (reports : List Report) : Plain (reports.map Report.entry) := by
  intro e he
  obtain ⟨report, -, rfl⟩ := mem_map.mp he
  exact report_plain report

variable {result : Except String Task}

theorem AgentReport.plain (h : AgentReport entries) : Plain entries := by
  cases h with
  | nothing => exact plain_nil
  | ended => exact plain_cons.mpr ⟨rfl, plain_nil⟩

theorem plain_reply {sh sh' : Shared} {command : OrchestratorCommand} {reply : List Entry}
    (h : sh.Takes command reply sh') : Plain (.handled command :: reply) := by
  cases h <;> simp [Plain, Entry.terminal]

theorem ends_move (hm : Move rt c d) : Ends c d := by
  cases hm with
  | stutter | control | pop => exact .goesOn [] plain_nil (by simp) (by simp [Finished])
  | complete hpc => exact .completes (by simp [Finished, hpc]) rfl rfl
  | abort hpc => exact .aborts (by simp [Finished, hpc]) rfl rfl
  | ignore hpc htakes => exact .goesOn _ (plain_reply htakes) rfl (by simp [Finished, Core.goto])
  | reportFailed message hpc => exact .rerunFails hpc rfl rfl
  | report hpc =>
    exact .goesOn _ (plain_cons.mpr ⟨report_plain _, plain_nil⟩) rfl
      (by simp [Finished, Core.goto])
  | summarizerFailed hpc hresult | summarized hpc _ hresult | summarizedPass hpc _ hresult =>
    have hentries := (summarizer_report hresult).plain
    refine .goesOn _ (plain_cons.mpr ⟨rfl, plain_append.mpr ⟨hentries, ?_⟩⟩) rfl
      (by simp [Finished, Core.goto])
    first
      | exact plain_reports _
      | simp [Plain, verifierStart, Entry.terminal, verifierEvent, agentEvent]
  | verified hpc hresult =>
    have hentries := (verifier_report hresult).plain
    exact .goesOn _ (plain_cons.mpr ⟨rfl, plain_append.mpr ⟨hentries, plain_reports _⟩⟩) rfl
      (by simp [Finished, Core.goto])
  | reverified hpc hresult =>
    exact .goesOn _ (plain_cons.mpr ⟨rfl, (verifier_report hresult).plain⟩) rfl
      (by simp [Finished, Core.goto])
  | fail err ran trace hran htrace hrun =>
    have hunfinished : ¬ c.Finished := by
      rintro ⟨result, held, hpc⟩
      exact hrun result held hpc
    refine .fails hunfinished rfl fun e he => ?_
    rcases mem_append.mp (htrace.subset he) with hold | hnew
    · exact .inl hold
    · obtain ⟨p, result, rfl⟩ := hran e hnew
      exact .inr rfl
  | pass => exact .goesOn _ (plain_reports _) rfl (by simp [Finished, Core.goto])
  | start | taskFailed | retry | accept | reject =>
    exact .goesOn _ (plain_announce _) rfl (by simp [Finished, Core.goto])
  | _ =>
    exact .goesOn _ (by simp [Plain, Entry.terminal, verifierEvent, summarizerEvent, agentEvent]) rfl
      (by simp [Finished, Core.goto])

/-- An entry that the end of a run leaves, or the command that ends it. -/
def Entry.stops : Entry → Bool
  | .event .completed | .event .aborted | .handled .abort => true
  | _ => false

def Entry.isError : Entry → Bool
  | .event (.error _) => true
  | _ => false

theorem terminal_eq (e : Entry) : e.terminal = (e.stops || e.isError) := by
  unfold Entry.terminal Entry.stops Entry.isError
  split <;> simp_all

theorem stops_of_plain (h : Plain entries) : ∀ e ∈ entries, e.stops = false := by
  intro e he
  have hplain := h e he
  rw [terminal_eq, Bool.or_eq_false_iff] at hplain
  exact hplain.1

theorem isError_of_plain (h : Plain entries) : ∀ e ∈ entries, e.isError = false := by
  intro e he
  have hplain := h e he
  rw [terminal_eq, Bool.or_eq_false_iff] at hplain
  exact hplain.2

/-- Only a run that has returned without an error has left a terminal entry that is none of an
error, and has left it last. -/
structure Core.Closing (c : Core) : Prop where
  goesOn : (∀ held, c.pc ≠ .finished (.ok ()) held) → ∀ e ∈ c.trace, e.stops = false
  ended : ∀ held, c.pc = .finished (.ok ()) held → ∃ entries : List Entry,
    (∀ e ∈ entries, e.stops = false) ∧ (c.trace = entries ++ [.event .completed] ∨
      c.trace = entries ++ [.handled .abort, .event .aborted])

theorem not_ok_of_unfinished (h : ¬ c.Finished) : ∀ held, c.pc ≠ .finished (.ok ()) held :=
  fun _ hpc => h ⟨_, _, hpc⟩

theorem closing_move (hm : Move rt c d) (hc : c.Closing) : d.Closing := by
  cases ends_move hm with
  | goesOn entries hplain htrace hpc =>
    by_cases hd : d.Finished
    · obtain ⟨hsame, rfl⟩ := hpc hd
      rw [append_nil] at htrace
      constructor
      · rw [hsame, htrace]
        exact hc.goesOn
      · rw [hsame, htrace]
        exact hc.ended
    · refine ⟨fun _ e he => ?_, fun held hpc => absurd ⟨_, _, hpc⟩ hd⟩
      have hrun : ∀ held, c.pc ≠ .finished (.ok ()) held := by
        intro held hfinished
        obtain ⟨shared, rfl⟩ := hm.of_finished hfinished
        exact hd ⟨_, _, hfinished⟩
      rw [htrace] at he
      rcases mem_append.mp he with he | he
      · exact hc.goesOn hrun e he
      · exact stops_of_plain hplain e he
  | completes hrun hpc htrace =>
    exact ⟨fun h => absurd hpc (h _),
      fun _ _ => ⟨c.trace, hc.goesOn (not_ok_of_unfinished hrun), .inl htrace⟩⟩
  | aborts hrun hpc htrace =>
    exact ⟨fun h => absurd hpc (h _),
      fun _ _ => ⟨c.trace, hc.goesOn (not_ok_of_unfinished hrun), .inr htrace⟩⟩
  | @rerunFails report _ _ _ _ _ hpc hd htrace =>
    have hrun : ∀ held, c.pc ≠ .finished (.ok ()) held := by simp [hpc]
    refine ⟨fun _ e he => ?_, fun held hfinished => by simp [hd] at hfinished⟩
    rw [htrace] at he
    rcases mem_append.mp he with he | he
    · exact hc.goesOn hrun e he
    · rcases mem_cons.mp he with rfl | he
      · exact stops_of_plain (plain_cons.mpr ⟨report_plain report, plain_nil⟩) _
          mem_cons_self
      · rw [mem_singleton.mp he]
        rfl
  | fails hrun hpc htrace =>
    refine ⟨fun _ e he => ?_, fun held hfinished => by simp [hpc] at hfinished⟩
    rcases htrace e he with he | he
    · exact hc.goesOn (not_ok_of_unfinished hrun) e he
    · rw [terminal_eq, Bool.or_eq_false_iff] at he
      exact he.1

theorem closing_init : (State.init spec).core.Closing := by
  constructor
  · intro _ e he
    simp [State.core, State.init, Pc.todo] at he
  · intro held hpc
    simp [State.core, State.init, Pc.after] at hpc

/-- The main agent refuses a report of a verifier that was run again. -/
def State.RerunFails (s : State) : Action → Prop
  | .ack (.error _) => ∃ todo site rest summary, s.pc = .reporting todo site rest summary
  | _ => False

def NoError (entries : List Entry) : Prop := ∀ e ∈ entries, e.isError = false

theorem NoError.before {more : List Entry} (h : NoError more) (hp : entries <+: more) :
    NoError entries := fun e he => h e (hp.subset he)

theorem rerunFails_error (h : step rt s action = some t) (hfails : s.RerunFails action) :
    ¬ NoError t.log := by
  unfold State.RerunFails at hfails
  split at hfails
  · rename_i err
    obtain ⟨todo, site, rest, summary, hpc⟩ := hfails
    simp only [step, State.ack, hpc] at h
    intro hnone
    cases todo with
    | nil => simp at h
    | cons report todo =>
      simp only at h
      split at h
      · obtain rfl := some.inj h
        have := hnone (.event (.error s!"Failed to rerun verifier: {err}"))
          (mem_append_right _ (mem_singleton_self _))
        simp [Entry.isError] at this
      · simp at h
  · exact hfails.elim

/-- Of a run that reports on its verifier only a refused report emits an error. -/
theorem reporting_step {report : Report} {todo : List Report} {site : Site}
    {rest : List OrchestratorCommand} {summary : TaskSummary} (h : step rt s action = some t)
    (hpc : s.pc = .reporting (report :: todo) site rest summary) (hok : ¬ s.RerunFails action) :
    t.pc = .reporting todo site rest summary ∨ t.pc = s.pc := by
  cases action with
  | tick =>
    simp only [step, State.tick, hpc] at h
    split at h
    · simp at h
    · obtain rfl := some.inj h
      exact .inl rfl
  | ack result =>
    simp only [step, State.ack, hpc] at h
    split at h
    · cases result with
      | ok =>
        obtain rfl := some.inj h
        exact .inl rfl
      | error err => exact absurd ⟨_, _, _, _, hpc⟩ hok
    · simp at h
  | subAgentDone result => simp [step, State.subAgentDone, hpc] at h
  | call method =>
    obtain rfl := some.inj h
    exact .inr rfl
  | control i =>
    obtain ⟨_, _, _, _, _, rfl⟩ := control_eq h
    exact .inr rfl

/-- The reports under way are none of an error. -/
def State.Calm (s : State) : Prop := NoError s.log → NoError s.core.trace

theorem noError_step (h : step rt s action = some t) (hcalm : s.Calm) (hs : NoError s.log)
    (hok : ¬ s.RerunFails action) : NoError t.core.trace := by
  have htrace := hcalm hs
  cases ends_move (step_move h) with
  | goesOn entries hplain hnew _ =>
    rw [hnew]
    intro e he
    rcases mem_append.mp he with he | he
    · exact htrace e he
    · exact isError_of_plain hplain e he
  | completes _ _ hnew | aborts _ _ hnew =>
    rw [hnew]
    intro e he
    rcases mem_append.mp he with he | he
    · exact htrace e he
    · simp at he
      rcases he with rfl | rfl <;> rfl
  | rerunFails hc hd _ =>
    have hpc := pc_of_core_pc hc fun next => by cases next <;> simp [Next.pc]
    rcases reporting_step h hpc hok with ht | ht
    · simp [State.core, ht, Pc.after] at hd
    · simp [State.core, ht, hpc, Pc.after] at hd
  | fails _ _ hnew =>
    intro e he
    rcases hnew e he with he | he
    · exact htrace e he
    · rw [terminal_eq, Bool.or_eq_false_iff] at he
      exact he.2

theorem log_prefix_trace (s : State) : s.log <+: s.core.trace := prefix_append _ _

theorem calm_step (h : step rt s action = some t) (hcalm : s.Calm) : t.Calm := by
  intro ht
  exact noError_step h hcalm (ht.before (step_log h)) fun hfails => rerunFails_error h hfails ht

/-- An error is emitted exactly where a rerun fails. -/
theorem noError_step_iff (h : step rt s action = some t) (hcalm : s.Calm) (hs : NoError s.log) :
    NoError t.log ↔ ¬ s.RerunFails action := by
  constructor
  · exact fun ht hfails => rerunFails_error h hfails ht
  · exact fun hok => (noError_step h hcalm hs hok).before (log_prefix_trace t)

end ColossalCode.Orchestrator
