import ColossalCode.Orchestrator.Drive
import ColossalCode.Orchestrator.Notices
import Mathlib.Data.List.Nodup

/-! The status recorded in a frame against the status last announced for its step. -/
namespace ColossalCode.Orchestrator
open List Option State Core

open Protocol Transition

variable {rt : Runtime} {spec : SpecSheet} {s t : State} {c d : Core} {action : Action}
  {actions : List Action} {a b : Active} {p : String} {entries : List Entry}
  {notice : Entry → Option (String × StepStatus)} {notes : List (String × StepStatus)}

/-- The notice that an entry gives of a step itself on the event channel, and not of the agents
that verify it. -/
def stepNotice : Entry → Option (String × StepStatus)
  | .event (.stepStatusChanged _ _ _ _ p .implementor status) => some (p, status)
  | .event (.stepCancelled p) => some (p, .pending)
  | _ => none

/-- A channel that notes the statuses of steps: each announcement, and nothing but these. -/
structure StepChannel (notice : Entry → Option (String × StepStatus)) : Prop where
  announces : ∀ a, (announce a).filterMap notice = [(a.currentPrefix, a.step.status)]
  agents : ∀ context step suffix role status, role ≠ .implementor →
    notice (.event (agentEvent context step suffix role status)) = none
  quiet : ∀ e : Entry, e.Quiet → notice e = none

/-- The last status noted for the current step of a frame, if any, is the status it has there, and
nothing is noted for the steps after it. -/
structure Frame.Agrees (notes : List (String × StepStatus)) (frame : Frame) : Prop where
  current : ∀ a : Active, a.toFrame = frame →
    ∀ status, (notesOf a.currentPrefix notes).getLast? = some status → status = a.step.status
  later : ∀ p ∈ frame.upcoming.tail, notesOf p notes = []

/-- The inductive invariant: where no two steps pushed share a prefix, all frames agree with what
was announced. -/
structure Core.Agreeing (notice : Entry → Option (String × StepStatus)) (c : Core) : Prop where
  no_pending : c.pending = none
  no_cancel : c.pc.cancelling = none
  spent : ∀ p, ((c.stack ++ c.pc.live).flatMap Frame.upcoming).count p ≤
    (stepsPushed (c.born ++ c.pc.fresh)).count p
  announced : ∀ p, notesOf p (c.trace.filterMap notice) ≠ [] → p ∈ stepsPushed c.born
  agrees : ∀ frame ∈ c.stack ++ c.pc.live, frame.Agrees (c.trace.filterMap notice)

/-- No two steps pushed, or about to be, share a prefix. -/
def Core.Distinct (c : Core) : Prop := (stepsPushed (c.born ++ c.pc.fresh)).Nodup

/-- The frames that wait, on the stack or in `pending_resume`. -/
def State.waiting (s : State) : List Frame :=
  s.stack ++ (s.pendingResume.map (·.toFrame)).toList

/-- The status recorded for the current step of each frame that waits is the one announced last, if
any was announced. -/
structure StatusKept (s : State) : Prop where
  events : ∀ a : Active, a.toFrame ∈ s.waiting → ∀ status,
    (notesOf a.currentPrefix (s.log.filterMap stepNotice)).getLast? = some status →
      status = a.step.status
  calls : ∀ a : Active, a.toFrame ∈ s.waiting → ∀ status,
    (notesOf a.currentPrefix (s.log.filterMap callNotice)).getLast? = some status →
      status = a.step.status

/-- A step that neither parks nor splits a step, nor takes from a summarizer or a verifier a result
that is no answer. -/
structure SettlesEach (rt : Runtime) (s : State) (action : Action) : Prop where
  no_park : action = .tick → ¬ s.Parks
  no_split : ∀ a task, s.pc = .handle (.afterExecute a task) [] →
    task.status.state = .submitted → ∀ child, extractSubSpec rt task ≠ .ok (some child)
  summarized : ∀ a task context result, s.pc = .summarizing a task context →
    action = .subAgentDone result → ∃ task, result = .ok task ∧
      (task.status.state = .failed ∨ ∃ summary, extractSummary rt task = .ok summary)
  verified : ∀ context result, s.pc.Verifies context → action = .subAgentDone result →
    ∃ task, result = .ok task ∧ (task.status.state = .failed ∨
      ∃ payload, extractVerificationPayload rt task = .ok payload ∧ payload.endConvo = true)
  rerun : ∀ a task rest context, s.pc = .handle (.afterExecute a task) (.rerunVerifiers :: rest) →
    s.lastVerification = some context → context.stepPrefix ++ ".verify" ≠ a.currentPrefix

/-- What the move from `c` to `d` adds to the trace notes no step of a frame on the stack. -/
def Core.Clear (notice : Entry → Option (String × StepStatus)) (c d : Core) : Prop :=
  ∃ entries, d.trace = c.trace ++ entries ∧
    ∀ note ∈ entries.filterMap notice, note.1 ∉ d.stack.flatMap Frame.upcoming

theorem stepNotice_channel : StepChannel stepNotice where
  announces _ := rfl
  agents _ _ _ role _ hrole := by cases role <;> first | rfl | exact absurd rfl hrole
  quiet e he := by
    obtain ⟨hevent, -⟩ := he
    unfold stepNotice
    split <;> simp_all [eventNotice]

theorem callNotice_channel : StepChannel callNotice where
  announces _ := rfl
  agents _ _ _ _ _ _ := rfl
  quiet _ he := he.2

theorem StepChannel.silent (hn : StepChannel notice) (h : ∀ e ∈ entries, e.Quiet) :
    entries.filterMap notice = [] :=
  filterMap_eq_nil_iff.mpr fun e he => hn.quiet e (h e he)

@[simp] theorem StepChannel.reports (hn : StepChannel notice) (reports : List Report) :
    (reports.map Report.entry).filterMap notice = [] := hn.silent (by simp)

theorem StepChannel.ran (hn : StepChannel notice) (role : StepRole) (p : String)
    (result : Except String Task) (entries : List Entry) :
    (Entry.ran role p result :: entries).filterMap notice = entries.filterMap notice :=
  filterMap_cons_none (hn.quiet _ (quiet_ran role p result))

variable {context : VerificationContext} {result : Except String Task}

theorem StepChannel.report (hn : StepChannel notice) (h : AgentReport entries) :
    entries.filterMap notice = [] := by
  cases h with
  | nothing => rfl
  | ended context step suffix hrole status => exact filterMap_cons_none (hn.agents _ _ _ _ _ hrole)

theorem StepChannel.verifierStart (hn : StepChannel notice) (context : VerificationContext) :
    (verifierStart context).filterMap notice = [] := by
  have hcall := hn.quiet (.call (.updateTaskSummary context.summary)) ⟨rfl, rfl⟩
  have hevent := hn.quiet (.event (.summaryUpdated context.summary)) ⟨rfl, rfl⟩
  have hagent := hn.agents context (buildVerifierStep context) ".verify" .verifier .inProgress
    (by simp)
  rw [Orchestrator.verifierStart, filterMap_cons_none hcall, filterMap_cons_none hevent]
  exact filterMap_cons_none hagent

theorem Active.count_next_upcoming_le (a : Active) (p : String) :
    a.next.upcoming.count p ≤ a.toFrame.upcoming.count p := by
  rw [a.upcoming_eq]
  exact count_le_count_cons

theorem agrees_of_silent {frame : Frame} (h : ∀ p ∈ frame.upcoming, notesOf p notes = []) :
    frame.Agrees notes := by
  refine ⟨fun a ha status hlast => ?_, fun p hp => h p (mem_of_mem_tail hp)⟩
  rw [h a.currentPrefix (by rw [← ha, a.upcoming_eq]; exact mem_cons_self)] at hlast
  simp at hlast

/-- A note on a step that a frame has not to take does not concern it. -/
theorem Frame.Agrees.frame {frame : Frame} {q : String} {status : StepStatus}
    (h : frame.Agrees notes) (hq : q ∉ frame.upcoming) : frame.Agrees (notes ++ [(q, status)]) := by
  have hsame : ∀ p ∈ frame.upcoming, notesOf p (notes ++ [(q, status)]) = notesOf p notes := by
    intro p hp
    have hne : q ≠ p := by
      rintro rfl
      exact hq hp
    rw [notesOf_append, notesOf_of_ne hne, append_nil]
  refine ⟨fun a ha => ?_, fun p hp => ?_⟩
  · rw [hsame _ (by rw [← ha, a.upcoming_eq]; exact mem_cons_self)]
    exact h.current a ha
  · rw [hsame p (mem_of_mem_tail hp)]
    exact h.later p hp

/-- A move that announces nothing and keeps the frames where a run looks for them. -/
theorem agreeing_quiet (hc : c.Agreeing notice) (htrace : d.trace = c.trace ++ entries)
    (hnotes : entries.filterMap notice = []) (hpending : d.pending = none)
    (hcancel : d.pc.cancelling = none)
    (hframes : (d.stack ++ d.pc.live).Perm (c.stack ++ c.pc.live))
    (hborn : d.born ++ d.pc.fresh = c.born ++ c.pc.fresh) (hgrows : c.born <+: d.born) :
    d.Agreeing notice ∧ Clear notice c d := by
  have htrace' : d.trace.filterMap notice = c.trace.filterMap notice := by
    rw [htrace, filterMap_append, hnotes, append_nil]
  refine ⟨⟨hpending, hcancel, fun p => ?_, fun p hp => ?_, fun frame hframe => ?_⟩, entries, htrace,
    by simp [hnotes]⟩
  · rw [hborn, (hframes.flatMap_right _).count_eq]
    exact hc.spent p
  · rw [htrace'] at hp
    obtain ⟨fresh, hfresh⟩ := hgrows
    rw [← hfresh, stepsPushed_append]
    exact mem_append_left _ (hc.announced p hp)
  · rw [htrace']
    exact hc.agrees frame (hframes.mem_iff.mp hframe)

/-- The step in hand is announced as it is in `b`, and what is live after that is its frame there,
or frames whose steps were never announced. -/
theorem agreeing_announce (hn : StepChannel notice) (hc : c.Agreeing notice)
    (hdistinct : d.Distinct) (hlive : c.pc.live = [a.toFrame]) (hfresh : c.pc.fresh = [])
    (htrace : d.trace = c.trace ++ announce b) (hb : b.currentPrefix = a.currentPrefix)
    (hstack : d.stack = c.stack) (hborn : d.born = c.born) (hpending : d.pending = none)
    (hcancel : d.pc.cancelling = none)
    (hspent : ∀ p, (d.pc.live.flatMap Frame.upcoming).count p ≤
      a.toFrame.upcoming.count p + (stepsPushed d.pc.fresh).count p)
    (hframes : ∀ frame ∈ d.pc.live,
      frame = b.toFrame ∧ b.toFrame.upcoming = a.toFrame.upcoming ∨
      ∀ p ∈ frame.upcoming, p ∈ a.next.upcoming ∨ p ∈ stepsPushed d.pc.fresh) :
    d.Agreeing notice ∧ Clear notice c d := by
  have hspent' : ∀ p, (c.stack.flatMap Frame.upcoming).count p + a.toFrame.upcoming.count p ≤
      (stepsPushed c.born).count p := by
    intro p
    have h := hc.spent p
    simpa [hlive, hfresh] using h
  have honce : ∀ p, (stepsPushed c.born).count p + (stepsPushed d.pc.fresh).count p ≤ 1 := by
    intro p
    have h := nodup_iff_count_le_one.mp hdistinct p
    rw [stepsPushed_append, count_append, hborn] at h
    exact h
  have hcount : ∀ p, a.toFrame.upcoming.count p =
      [a.currentPrefix].count p + a.next.upcoming.count p := by
    intro p
    rw [a.upcoming_eq, ← singleton_append, count_append]
  have hself : [a.currentPrefix].count a.currentPrefix = 1 := count_singleton_self
  have htrace' : d.trace.filterMap notice =
      c.trace.filterMap notice ++ [(a.currentPrefix, b.step.status)] := by
    rw [htrace, filterMap_append, hn.announces, hb]
  -- the step announced is taken by no other frame, and was not pushed again
  have hstackClear : a.currentPrefix ∉ c.stack.flatMap Frame.upcoming := by
    intro hmem
    have h₁ := count_pos_iff.mpr hmem
    have h₂ := hspent' a.currentPrefix
    have h₃ := honce a.currentPrefix
    have h₄ := hcount a.currentPrefix
    omega
  have hpushed : a.currentPrefix ∈ stepsPushed c.born := by
    have h₂ := hspent' a.currentPrefix
    have h₄ := hcount a.currentPrefix
    exact count_pos_iff.mp (by omega)
  have hnew : ∀ p, p ∈ a.next.upcoming ∨ p ∈ stepsPushed d.pc.fresh →
      notesOf p (d.trace.filterMap notice) = [] := by
    intro p hp
    have hne : a.currentPrefix ≠ p := by
      rintro rfl
      have h₂ := hspent' a.currentPrefix
      have h₃ := honce a.currentPrefix
      have h₄ := hcount a.currentPrefix
      rcases hp with hp | hp
      · have := count_pos_iff.mpr hp
        omega
      · have := count_pos_iff.mpr hp
        omega
    rw [htrace', notesOf_append, notesOf_of_ne hne, append_nil]
    rcases hp with hp | hp
    · refine (hc.agrees a.toFrame (by simp [hlive])).later p ?_
      rw [a.upcoming_eq]
      exact hp
    · by_contra hsome
      have h₁ := count_pos_iff.mpr (hc.announced p hsome)
      have h₂ := count_pos_iff.mpr hp
      have h₃ := honce p
      omega
  refine ⟨⟨hpending, hcancel, fun p => ?_, fun p hp => ?_, fun frame hframe => ?_⟩,
    announce b, htrace,
    by simpa [hn.announces, hb, hstack] using hstackClear⟩
  · have h₁ := hspent' p
    have h₂ := hspent p
    rw [hstack, hborn, flatMap_append, count_append, stepsPushed_append,
      count_append]
    omega
  · rw [hborn]
    by_cases hk : a.currentPrefix = p
    · rw [← hk]
      exact hpushed
    · rw [htrace', notesOf_append, notesOf_of_ne hk, append_nil] at hp
      exact hc.announced p hp
  · rcases mem_append.mp hframe with hframe | hframe
    · rw [hstack] at hframe
      rw [htrace']
      refine (hc.agrees frame (mem_append_left _ hframe)).frame fun hmem => hstackClear ?_
      exact mem_flatMap.mpr ⟨frame, hframe, hmem⟩
    · rcases hframes frame hframe with ⟨rfl, hupcoming⟩ | hsilent
      · refine ⟨fun b' hb' status' hlast => ?_, fun p hp => hnew p (.inl ?_)⟩
        · obtain rfl : b' = b := by
            cases b
            cases b'
            simpa using hb'
          rw [hb, htrace', notesOf_append, notesOf_self, getLast?_concat] at hlast
          exact (some.inj hlast).symm
        · rw [hupcoming, a.upcoming_eq] at hp
          exact hp
      · exact agrees_of_silent fun p hp => hnew p (hsilent p hp)

/-- A spec is pushed on the stack. -/
theorem agreeing_inject {frame : Frame} (hc : c.Agreeing notice) (hdistinct : d.Distinct)
    (htrace : d.trace = c.trace ++ entries) (hnotes : entries.filterMap notice = [])
    (hpending : d.pending = none) (hcancel : d.pc.cancelling = none)
    (hstack : d.stack = frame :: c.stack) (hborn : d.born = c.born ++ [frame])
    (hstart : frame.stepIdx = 0) (hlive : d.pc.live = c.pc.live)
    (hfresh : d.pc.fresh = []) (hfresh' : c.pc.fresh = []) :
    d.Agreeing notice ∧ Clear notice c d := by
  have htrace' : d.trace.filterMap notice = c.trace.filterMap notice := by
    rw [htrace, filterMap_append, hnotes, append_nil]
  have hpushed : stepsPushed [frame] = frame.upcoming := by simp [stepsPushed, hstart]
  have hborn' : stepsPushed d.born = stepsPushed c.born ++ frame.upcoming := by
    rw [hborn, stepsPushed_append, hpushed]
  refine ⟨⟨hpending, hcancel, fun p => ?_, fun p hp => ?_, fun f hf => ?_⟩, entries, htrace,
    by simp [hnotes]⟩
  · have h := hc.spent p
    rw [hfresh', append_nil] at h
    rw [hfresh, append_nil, hborn', count_append, hstack, hlive, cons_append,
      flatMap_cons, count_append]
    omega
  · rw [htrace'] at hp
    rw [hborn']
    exact mem_append_left _ (hc.announced p hp)
  · rw [htrace']
    rw [hstack, hlive, cons_append] at hf
    rcases mem_cons.mp hf with rfl | hf
    · refine agrees_of_silent fun p hp => ?_
      by_contra hsome
      rw [Distinct, hfresh, append_nil, hborn'] at hdistinct
      exact (nodup_append.mp hdistinct).2.2 p (hc.announced p hsome) p hp rfl
    · exact hc.agrees f hf

section Moves

attribute [local simp] Core.goto Site.held Pc.live Pc.fresh Pc.inHand Pc.cancelling eventNotice

theorem agreeing_move (hn : StepChannel notice) (hm : Move rt c d)
    (hsettling : Settling rt c d)
    (hd : d.Lasting) (hdistinct : d.Distinct) (hc : c.Lasting → c.Agreeing notice) :
    d.Agreeing notice ∧ Clear notice c d := by
  cases hm with
  | stutter =>
    have hc := hc hd
    exact agreeing_quiet hc (append_nil _).symm rfl hc.no_pending hc.no_cancel (.refl _) rfl
      (prefix_refl _)
  | control =>
    have hc := hc hd
    exact agreeing_quiet hc (append_nil _).symm rfl hc.no_pending hc.no_cancel (.refl _) rfl
      (prefix_refl _)
  | fail err => exact absurd (hd _ _ rfl).1 (by simp)
  | abort hpc => exact absurd (hd _ _ rfl).2 (by simp)
  | cancelBefore hpc => exact absurd ⟨_, .inl ⟨rfl, _, hpc⟩⟩ hsettling.no_park
  | cancelAfter hpc | taskCancelled hpc => exact absurd ⟨_, .inr ⟨rfl, _, hpc⟩⟩ hsettling.no_park
  | split hpc _ hstate hchild => exact absurd hchild (hsettling.no_split _ _ hpc hstate _)
  | clearedParked hpc | parked hpc =>
    have hcancel := (hc (by simp [Lasting, hpc])).no_cancel
    simp [hpc] at hcancel
  | resume hpc hpending =>
    have hnone := (hc (by simp [Lasting, hpc])).no_pending
    simp [hnone] at hpending
  | complete hpc | execute hpc | report hpc | executed task hpc | reportFailed message hpc
  | setPrefix hpc | setCancel hpc | cleared hpc | pass hpc | reported hpc
  | receive hpc | received hpc | wait hpc | commandsDone hpc =>
    have hc := hc (by simp [Lasting, hpc])
    exact agreeing_quiet hc rfl (hn.silent (by simp)) hc.no_pending rfl (by simp [hpc])
      (by simp [hpc]) (prefix_refl _)
  | @clearCancel a task hpc =>
    have hc := hc (by simp [Lasting, hpc])
    have hcancel := hc.no_cancel
    cases task with
    | none => simp [hpc] at hcancel
    | some task =>
      exact agreeing_quiet hc rfl (hn.silent (by simp)) hc.no_pending rfl (by simp [hpc])
        (by simp [hpc]) (prefix_refl _)
  | @pop frame rest hpc hstack =>
    have hc := hc (by simp [Lasting, hpc])
    refine agreeing_quiet hc (append_nil _).symm rfl hc.no_pending rfl ?_ (by simp [hpc])
      (prefix_refl _)
    simp [hpc, hstack]
  | @push back fresh hpc =>
    have hc := hc (by simp [Lasting, hpc])
    refine agreeing_quiet hc rfl (hn.silent (by simp)) hc.no_pending rfl ?_ (by simp [hpc])
      (prefix_append _ _)
    have hmoved : (fresh.reverse ++ (back.toList ++ c.stack)).Perm
        ((c.stack ++ back.toList) ++ fresh) :=
      ((reverse_perm fresh).append_right _).trans
        (perm_append_comm.trans (perm_append_comm.append_right fresh))
    simpa [hpc] using hmoved
  | ignore hpc htakes =>
    have hc := hc (by simp [Lasting, hpc])
    refine agreeing_quiet hc rfl (hn.silent ?_) hc.no_pending rfl (by simp [hpc]) (by simp [hpc])
      (prefix_refl _)
    cases htakes <;> simp
  | inject hpc hframe =>
    have hc := hc (by simp [Lasting, hpc])
    exact agreeing_inject hc hdistinct rfl (hn.silent (by simp)) hc.no_pending rfl rfl rfl
      (by simp [hframe]) (by simp [hpc]) rfl (by simp [hpc])
  | exhausted hpc hpaused hlast =>
    have hc := hc (by simp [Lasting, hpc])
    have hgone := upcoming_eq_nil hlast
    obtain ⟨hpending, hcancel, hspent, hannounced, hagrees⟩ := hc
    simp only [hpc, Pc.live, Pc.inHand, Pc.fresh, toList_some] at hspent hagrees
    refine ⟨⟨hpending, rfl, fun p => ?_, fun p hp => ?_, fun frame hframe => ?_⟩, [], rfl, by simp⟩
    · simpa [hgone] using hspent p
    · exact hannounced p (by simpa using hp)
    · simpa using hagrees frame (mem_append_left _ (by simpa using hframe))
  | summarize hpc =>
    have hc := hc (by simp [Lasting, hpc])
    exact agreeing_quiet hc rfl (filterMap_cons_none (hn.agents _ _ _ _ _ (by simp)))
      hc.no_pending rfl (by simp [hpc]) (by simp [hpc]) (prefix_refl _)
  | rerun hpc =>
    have hc := hc (by simp [Lasting, hpc])
    refine agreeing_quiet hc rfl ?_ hc.no_pending rfl (by simp [hpc]) (by simp [hpc])
      (prefix_refl _)
    rw [filterMap_cons_none (hn.quiet _ (quiet_handled _))]
    exact filterMap_cons_none (hn.agents _ _ _ _ _ (by simp))
  | summarizerFailed hpc hresult | summarized hpc _ hresult | summarizedPass hpc _ hresult =>
    have hc := hc (by simp [Lasting, hpc])
    refine agreeing_quiet hc rfl ?_ hc.no_pending rfl (by simp [hpc]) (by simp [hpc])
      (prefix_refl _)
    simp only [hn.ran, filterMap_append, hn.report (summarizer_report hresult), hn.reports,
      hn.verifierStart, append_nil]
  | verified hpc hresult | reverified hpc hresult =>
    have hc := hc (by simp [Lasting, hpc])
    refine agreeing_quiet hc rfl ?_ hc.no_pending rfl (by simp [hpc]) (by simp [hpc])
      (prefix_refl _)
    simp only [hn.ran, filterMap_append, hn.report (verifier_report hresult), hn.reports,
      append_nil]
  | @start a hpc =>
    have hc := hc (by simp [Lasting, hpc])
    exact agreeing_announce (a := a) hn hc hdistinct (by simp [hpc]) (by simp [hpc]) rfl (by simp)
      rfl rfl hc.no_pending rfl (by simp) (by simp)
  | @retry a task hpc =>
    have hc := hc (by simp [Lasting, hpc])
    exact agreeing_announce (a := a) hn hc hdistinct (by simp [hpc]) (by simp [hpc]) rfl (by simp)
      rfl rfl hc.no_pending rfl (by simp) (by simp)
  | @taskFailed a task hpc =>
    have hc := hc (by simp [Lasting, hpc])
    refine agreeing_announce (a := a) hn hc hdistinct (by simp [hpc]) (by simp [hpc]) rfl (by simp)
      rfl rfl hc.no_pending rfl ?_ (by simp)
    simpa using a.count_next_upcoming_le
  | @reject a task summary value hpc =>
    have hc := hc (by simp [Lasting, hpc])
    exact agreeing_announce (a := a) hn hc hdistinct (by simp [hpc]) (by simp [hpc]) rfl
      (by simp [rejectedStep]) rfl rfl hc.no_pending rfl (by simp) (by simp)
  | @accept a task summary child value hpc =>
    have hc := hc (by simp [Lasting, hpc])
    have hcount := fun p => (count_acceptedFrames (p := p) a child value).le
    refine agreeing_announce (a := a) hn hc hdistinct (by simp [hpc]) (by simp [hpc]) rfl
      (completedStep_currentPrefix a child value) rfl rfl hc.no_pending rfl ?_ ?_
    · intro p
      simpa using (hcount p).trans (Nat.add_le_add_right (a.count_next_upcoming_le p) _)
    · intro frame hframe
      refine .inr fun p hp => ?_
      have hmem : p ∈ (acceptedFrames a (completedStep a child value) child).flatMap
          Frame.upcoming := mem_flatMap.mpr ⟨frame, by simpa using hframe, hp⟩
      have h₁ := hcount p
      have h₂ := count_pos_iff.mpr hmem
      by_cases hlater : p ∈ a.next.upcoming
      · exact .inl hlater
      · rw [count_eq_zero_of_not_mem hlater] at h₁
        exact .inr (count_pos_iff.mp (by simpa using Nat.lt_of_lt_of_le h₂ h₁))

theorem distinct_back (hm : Move rt c d) (hd : d.Lasting) (hdistinct : d.Distinct) :
    c.Distinct := by
  refine hdistinct.sublist ?_
  cases hm with
  | fail err => exact absurd (hd _ _ rfl).1 (by simp)
  | @clearCancel a task hpc => cases task <;> simp [hpc]
  | stutter | control => exact .refl _
  | _ => simp_all

end Moves

theorem lasting_back (hm : Move rt c d) (hd : d.Lasting) : c.Lasting := by
  intro result held hpc
  obtain ⟨shared, rfl⟩ := hm.of_finished hpc
  exact hd result held hpc

theorem subAgentDone_ran (h : s.subAgentDone rt result = some t) :
    ∃ role p, s.log ++ [.ran role p result] <+: t.log := by
  unfold subAgentDone at h
  split at h
  · cases result <;> obtain rfl := some.inj h <;> exact ⟨_, _, prefix_refl _⟩
  · rename_i a task context _
    obtain rfl := some.inj h
    refine ⟨.summarizer, context.stepPrefix ++ ".summary", ?_⟩
    unfold summarized
    split
    · exact prefix_append _ _
    · rw [verify_log]
      exact prefix_append _ _
  · obtain rfl := some.inj h
    exact ⟨_, _, prefix_append _ _⟩
  · obtain rfl := some.inj h
    exact ⟨_, _, prefix_append _ _⟩
  · simp at h

/-- The result of an agent of a verification is recorded as it returns. -/
theorem ran_step {role : StepRole} {rest : List Entry}
    (h : step rt s action = some t) (hagent : s.core.pc.agent ≠ none)
    (htrace : t.core.trace = s.core.trace ++ .ran role p result :: rest) :
    action = .subAgentDone result ∧ s.core.pc = s.pc := by
  cases hpc : s.pc with
  | perform todo next =>
    obtain ⟨-, -, -, hle⟩ := perform_step hpc h
    rw [htrace] at hle
    have hlength := hle.length_le
    rw [length_append, length_cons] at hlength
    omega
  | summarizing | verifying | rerunning =>
    have hcore : s.core.trace = s.log := by simp [core, hpc, Pc.todo]
    refine ⟨?_, by simp [core, hpc, Pc.after]⟩
    cases action with
    | tick => simp [step, tick, hpc] at h
    | ack => simp [step, State.ack, hpc] at h
    | subAgentDone result' =>
      obtain ⟨role', p', hran⟩ := subAgentDone_ran h
      have hle := hran.trans (prefix_append t.log t.pc.todo)
      have htrace' : t.log ++ t.pc.todo = s.log ++ .ran role p result :: rest := hcore ▸ htrace
      rw [htrace', prefix_append_right_inj] at hle
      obtain ⟨heq, -⟩ := cons_prefix_cons.mp hle
      cases heq
      rfl
    | call method =>
      obtain rfl := some.inj h
      simp [core] at htrace
    | control i =>
      obtain ⟨_, _, _, _, _, rfl⟩ := control_eq h
      simp [core] at htrace
  | _ => simp [core, hpc, Pc.after, Pc.agent] at hagent

theorem settling_step (h : step rt s action = some t) (hok : SettlesEach rt s action) :
    Settling rt s.core t.core where
  no_park hp := by
    obtain ⟨htick, hparks⟩ := parking_step h hp
    exact hok.no_park htick hparks
  no_split a task hpc hstate child := by
    refine hok.no_split a task (pc_of_core_pc hpc fun next => ?_) hstate child
    cases next <;> simp [Next.pc]
  summarized a task context result rest hpc htrace := by
    obtain ⟨haction, hcore⟩ := ran_step h (by simp [hpc, Pc.agent]) htrace
    obtain ⟨task, rfl, hfailed | ⟨summary, hsummary⟩⟩ :=
      hok.summarized a task context result (hcore ▸ hpc) haction
    · simp [summarizerResult, hfailed]
    · simp only [summarizerResult, hsummary]
      split <;> simp
  verified context result rest hverifies htrace := by
    have hagent : s.core.pc.agent ≠ none := by
      obtain ⟨a, task, hpc⟩ | ⟨site, rest, hpc⟩ := hverifies <;> simp [hpc, Pc.agent]
    obtain ⟨haction, hcore⟩ := ran_step h hagent htrace
    obtain ⟨task, rfl, hfailed | ⟨payload, hpayload, hend⟩⟩ :=
      hok.verified context result (hcore ▸ hverifies) haction
    · simp [verifierResult, hfailed]
    · simp only [verifierResult, hpayload, hend, if_true]
      split <;> simp
  rerun a task rest context hpc hcontext :=
    hok.rerun a task rest context (pc_of_core_pc hpc fun next => by cases next <;> simp [Next.pc])
      hcontext

/-- The frames agree with what was announced, also before the reports under way are made. -/
structure State.Agreeing (notice : Entry → Option (String × StepStatus)) (s : State) : Prop where
  core : s.core.Agreeing notice
  todo : ∀ note ∈ s.pc.todo.filterMap notice, note.1 ∉ s.stack.flatMap Frame.upcoming

theorem todo_step (h : step rt s action = some t) (hclear : Clear notice s.core t.core)
    (hs : ∀ note ∈ s.pc.todo.filterMap notice, note.1 ∉ s.stack.flatMap Frame.upcoming) :
    ∀ note ∈ t.pc.todo.filterMap notice, note.1 ∉ t.stack.flatMap Frame.upcoming := by
  cases hpc : s.pc with
  | perform todo next =>
    obtain ⟨-, hstack, hsubset, -⟩ := perform_step hpc h
    intro note hnote
    obtain ⟨e, he, hnotice⟩ := mem_filterMap.mp hnote
    rw [hstack]
    exact hs note (mem_filterMap.mpr ⟨e, hsubset he, hnotice⟩)
  | _ =>
    obtain ⟨entries, htrace, hclear⟩ := hclear
    obtain ⟨grown, hgrown⟩ := step_log h
    have hentries : grown ++ t.pc.todo = entries := by
      simp only [core, hpc, Pc.todo, ← hgrown, append_nil, append_assoc,
        append_cancel_left_eq] at htrace
      exact htrace
    intro note hnote
    refine hclear note ?_
    rw [← hentries, filterMap_append]
    exact mem_append_right _ hnote

/-- A run that comes to its end, with no prefix pushed twice. -/
def State.Proper (s : State) : Prop := s.core.Lasting ∧ s.core.Distinct

theorem agreeing_step (hn : StepChannel notice) (h : step rt s action = some t)
    (hok : SettlesEach rt s action) (ht : t.Proper) (hs : s.Agreeing notice) :
    t.Agreeing notice := by
  obtain ⟨hcore, hclear⟩ := agreeing_move hn (step_move h) (settling_step h hok) ht.1 ht.2
    fun _ => hs.core
  exact ⟨hcore, todo_step h hclear hs.todo⟩

theorem agreeing_init (notice : Entry → Option (String × StepStatus)) :
    (init spec).Agreeing notice where
  core := {
    no_pending := rfl
    no_cancel := rfl
    spent p := by simp [core, init, Pc.after, Pc.live, Pc.inHand, Pc.fresh, rootFrame]
    announced p hp := absurd rfl hp
    agrees _ _ := agrees_of_silent fun _ _ => rfl }
  todo _ hnote := absurd hnote not_mem_nil

theorem bracketing_init : (init spec).core.Bracketing where
  no_cancel := rfl
  apart _ hp := by simp [core, init, Pc.after, Pc.underWay] at hp
  events := open_nil
  calls := open_nil

/-- Reports under way announce nothing of the frames on the stack. -/
theorem State.Agreeing.kept (hs : s.Agreeing notice) (ha : a.toFrame ∈ s.waiting)
    {status : StepStatus}
    (hlast : (notesOf a.currentPrefix (s.log.filterMap notice)).getLast? = some status) :
    status = a.step.status := by
  have hstack : a.toFrame ∈ s.stack := by
    have hnone : s.pendingResume = none := hs.core.no_pending
    simpa [waiting, hnone] using ha
  refine (hs.core.agrees a.toFrame (mem_append_left _ hstack)).current a rfl status ?_
  have hsilent : notesOf a.currentPrefix (s.pc.todo.filterMap notice) = [] := by
    refine notesOf_eq_nil fun note hnote heq => hs.todo note hnote ?_
    rw [heq]
    refine mem_flatMap.mpr ⟨a.toFrame, hstack, ?_⟩
    rw [a.upcoming_eq]
    exact mem_cons_self
  have htrace : s.core.trace = s.log ++ s.pc.todo := rfl
  rw [htrace, filterMap_append, notesOf_append, hsilent, append_nil]
  exact hlast

theorem proper_of_completed (hrun : run rt (.init spec) actions = some t)
    (hlog : .event .completed ∈ t.log) (hdistinct : (stepsPushed t.born).Nodup) :
    t.pc = .finished (.ok ()) none ∧ t.Proper := by
  have hcore := core_pc_of_completed hrun hlog
  have hpc : t.pc = .finished (.ok ()) none :=
    pc_of_core_pc hcore fun next => next.pc_ne_finished _ _
  refine ⟨hpc, fun result held hfinished => ?_, ?_⟩
  · rw [hcore] at hfinished
    cases hfinished
    exact ⟨rfl, rfl⟩
  · rw [Distinct, hcore]
    change (stepsPushed (t.born ++ [])).Nodup
    rwa [append_nil]

/-- A run that neither parks nor splits a step and whose summarizers and verifiers answer brackets
the statuses of each prefix on both channels, and what was announced last is what the frames that
wait record, if no prefix is pushed twice. -/
theorem statuses_settled (h : Steps (step rt) (SettlesEach rt) (.init spec) actions t)
    (hlog : .event .completed ∈ t.log) (hdistinct : (stepsPushed t.born).Nodup) :
    (∀ p, Bracketed .inProgress (notesOf p (t.log.filterMap eventNotice)) ∧
      Bracketed .inProgress (notesOf p (t.log.filterMap callNotice))) ∧
    Throughout (step rt) StatusKept (.init spec) actions := by
  obtain ⟨hpc, hproper⟩ := proper_of_completed h.run_eq hlog hdistinct
  have hthroughout : Throughout (step rt) State.Proper (.init spec) actions :=
    throughout_of_end h.run_eq (fun _ _ _ hstep ht =>
      have hm := step_move hstep
      ⟨lasting_back hm ht.1, distinct_back hm ht.1 ht.2⟩) hproper
  have hsteps : Steps (step rt) (fun s action => SettlesEach rt s action ∧
      ∀ t, step rt s action = some t → t.Proper) (.init spec) actions t :=
    h.mono_throughout hthroughout fun s action t hok hstep _ ht =>
      ⟨hok, fun t' ht' => some.inj (hstep.symm.trans ht') ▸ ht⟩
  refine ⟨?_, ?_⟩
  · have hbracketing : t.core.Bracketing := hsteps.invariant (P := fun s => s.core.Bracketing)
      (fun _ _ _ hok hstep hs => bracketing_move (step_move hstep) (settling_step hstep hok.1)
        (hok.2 _ hstep).1 fun _ => hs) bracketing_init
    have htrace : t.core.trace = t.log := by simp [core, hpc, Pc.todo]
    have hevents := hbracketing.events
    have hcalls := hbracketing.calls
    simp only [core, hpc, Pc.after, Pc.underWay, Pc.agent, Pc.todo, toList_none,
      append_nil] at hevents hcalls
    exact fun p => ⟨hevents.bracketed p, hcalls.bracketed p⟩
  · refine hsteps.throughout (I := fun s => s.Agreeing stepNotice ∧ s.Agreeing callNotice)
      (fun s action t hok hstep hs => ?_) (fun s hs => ?_)
      ⟨agreeing_init stepNotice, agreeing_init callNotice⟩
    · exact ⟨agreeing_step stepNotice_channel hstep hok.1 (hok.2 _ hstep) hs.1,
        agreeing_step callNotice_channel hstep hok.1 (hok.2 _ hstep) hs.2⟩
    · exact ⟨fun a ha status => hs.1.kept ha, fun a ha status => hs.2.kept ha⟩

/-- A test that a state is not about to park or split a step, or to take up a command, and that a
result is an answer. -/
def settlesEachTest (rt : Runtime) (s : State) (action : Action) : Bool :=
  (match s.pc with
    | .cancelCheck a _ => s.cancelPrefix ≠ some a.currentPrefix
    | .handle (.afterExecute a task) [] =>
      s.cancelPrefix ≠ some a.currentPrefix && task.status.state = .completed
    | .handle _ (_ :: _) | .rerunning .. => false
    | _ => true) &&
  match s.pc, action with
  | .summarizing .., .subAgentDone result => summarizes rt result
  | .verifying .., .subAgentDone result => (submitted rt result).isOk
  | _, _ => true

theorem settlesEach_of_test (h : settlesEachTest rt s action = true) :
    SettlesEach rt s action where
  no_park _ hparks := by
    unfold State.Parks at hparks
    split at hparks
    · rename_i hpc
      simp [settlesEachTest, hpc, hparks] at h
    · rename_i a task hpc
      have hcalm : s.cancelPrefix ≠ some a.currentPrefix ∧ task.status.state = .completed := by
        simpa [settlesEachTest, hpc] using h
      rcases hparks with hcancel | hstate
      · exact hcalm.1 hcancel
      · simp [hcalm.2] at hstate
    · exact hparks
  no_split a task hpc hstate child := by
    simp [settlesEachTest, hpc, hstate] at h
  summarized a task context result hpc haction := by
    have hsummary : summarizes rt result = true := by
      simpa [settlesEachTest, hpc, haction] using h
    rcases result with err | task
    · simp [summarizes] at hsummary
    · refine ⟨task, rfl, .inr ?_⟩
      rcases he : extractSummary rt task with err | summary
      · simp [summarizes, he, Except.isOk, Except.toBool] at hsummary
      · exact ⟨summary, rfl⟩
  verified context result hpc haction := by
    rcases hpc with ⟨a, task, hpc⟩ | ⟨site, rest, hpc⟩
    · have hok : (submitted rt result).isOk = true := by
        simpa [settlesEachTest, hpc, haction] using h
      rcases result with err | task
      · simp [submitted, Except.isOk, Except.toBool] at hok
      · refine ⟨task, rfl, ?_⟩
        by_cases hfailed : task.status.state = .failed
        · exact .inl hfailed
        · rcases he : extractVerificationPayload rt task with err | payload
          · simp [submitted, hfailed, he, bind, Except.bind, Except.isOk, Except.toBool] at hok
          · refine .inr ⟨payload, rfl, ?_⟩
            by_contra hend
            simp [submitted, hfailed, he, hend, bind, Except.bind, Except.isOk,
              Except.toBool] at hok
    · simp [settlesEachTest, hpc] at h
  rerun a task rest context hpc := by
    simp [settlesEachTest, hpc] at h

/-- A plan whose only step is verified. -/
def verifiedOnly : SpecSheet :=
  sampleSheet "root" [{ sampleStep "1" with requiresVerification := true }]

/-- A verifier asks for a revision of the only step, and that of its second attempt accepts it. -/
def reviseOnly : List Action :=
  toExecution ++ toVerdict "1" "needs_revision" ++ toRejection ++ ticks 1 ++ toExecution ++
    toVerdict "1" "verified" ++ [.ack (.ok ()), .tick, .ack (.ok ()), .tick, .ack (.ok ())] ++
    ticks 3 ++ [.ack (.ok ())] ++ ticks 3

set_option maxRecDepth 2000 in
theorem statuses_settled_revised : ∃ t,
    Steps (step sampleRuntime) (SettlesEach sampleRuntime) (.init verifiedOnly) reviseOnly t ∧
    .event .completed ∈ t.log ∧
    (∀ p, Bracketed .inProgress (notesOf p (t.log.filterMap eventNotice)) ∧
      Bracketed .inProgress (notesOf p (t.log.filterMap callNotice))) ∧
    Throughout (step sampleRuntime) StatusKept (.init verifiedOnly) reviseOnly := by
  obtain ⟨t, ht, hlast, hborn⟩ : ∃ t,
      check (step sampleRuntime) (settlesEachTest sampleRuntime) (.init verifiedOnly) reviseOnly =
        some t ∧ t.log.getLast? = some (.event .completed) ∧ stepsPushed t.born = ["1"] :=
    ⟨_, rfl, rfl, rfl⟩
  have hsteps := steps_of_check ht fun _ _ => settlesEach_of_test
  have hlog := mem_of_getLast? hlast
  exact ⟨t, hsteps, hlog, statuses_settled hsteps hlog
    (by rw [hborn]; exact nodup_singleton _)⟩

/-- The only step is split, and accepted when its child is done. -/
def splitOnly : List Action :=
  toExecution ++ [.subAgentDone (.ok (sampleSplit "half" ["1"]))] ++ ticks 7 ++
    toExecution ++ [.subAgentDone (.ok (sampleDone "1"))] ++ toAcceptance ++
    toExecution ++ [.subAgentDone (.ok (sampleDone "1"))] ++ toAcceptance ++ ticks 1

/-- A split step is in progress twice and settled once, while a step that its verifier sends back
is pending in between. -/
theorem split_step_stays_in_progress : ∃ t u,
    run sampleRuntime (.init (sampleSheet "root" [sampleStep "1"])) splitOnly = some t ∧
    .event .completed ∈ t.log ∧
    ¬ Bracketed .inProgress (notesOf "1" (t.log.filterMap eventNotice)) ∧
    ¬ Bracketed .inProgress (notesOf "1" (t.log.filterMap callNotice)) ∧
    run sampleRuntime (.init verifiedOnly) reviseOnly = some u ∧
    notesOf "1" (u.log.filterMap eventNotice) =
      [.inProgress, .pending, .inProgress, .completed] := by
  obtain ⟨t, ht, hlast, hevents, hcalls⟩ : ∃ t,
      run sampleRuntime (.init (sampleSheet "root" [sampleStep "1"])) splitOnly = some t ∧
      t.log.getLast? = some (.event .completed) ∧
      notesOf "1" (t.log.filterMap eventNotice) = [.inProgress, .inProgress, .completed] ∧
      notesOf "1" (t.log.filterMap callNotice) = [.inProgress, .inProgress, .completed] :=
    ⟨_, rfl, rfl, rfl, rfl⟩
  obtain ⟨u, hu, hrevised⟩ : ∃ u, run sampleRuntime (.init verifiedOnly) reviseOnly = some u ∧
      notesOf "1" (u.log.filterMap eventNotice) =
        [.inProgress, .pending, .inProgress, .completed] :=
    ⟨_, rfl, rfl⟩
  have htwice : ¬ Bracketed StepStatus.inProgress [.inProgress, .inProgress, .completed] := by
    intro h
    cases h with
    | cons ha _ => exact ha rfl
  exact ⟨t, u, ht, mem_of_getLast? hlast, hevents ▸ htwice, hcalls ▸ htwice, hu, hrevised⟩

end ColossalCode.Orchestrator
