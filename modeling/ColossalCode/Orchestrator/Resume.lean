import ColossalCode.Orchestrator.Frames

/-! What a `ResumeStep` command does to the step whose cancellation was announced. -/
namespace ColossalCode.Orchestrator
open State

open Protocol

variable {rt : Runtime} {u s t : State} {a b : Active} {site : Site} {note : String}
  {rest : List OrchestratorCommand} {actions : List Action}

/-- A step that is pending again, its instructions extended by the user's note. -/
def Active.withNote (a : Active) (note : String) : Active :=
  a.setStep { a.step with
    status := .pending
    instructions :=
      if (Text.trim note).isEmpty then a.step.instructions
      else Text.trimEnd a.step.instructions ++ "\n\nUser note: " ++ note }

theorem Active.resumed_eq_withNote (a : Active) (note : String) :
    a.resumed note = a.withNote note := by
  unfold Active.resumed Active.withNote Active.setStatus
  by_cases hnote : (Text.trim note).isEmpty = true <;> simp [hnote]

@[simp] theorem Active.withNote_framePrefix (a : Active) :
    (a.withNote note).framePrefix = a.framePrefix := rfl

theorem Active.toFrame_injective (h : a.toFrame = b.toFrame) : a = b := by
  cases a
  cases b
  cases h
  rfl

/-- The command that took `s` to `t` resumed the step of `a` with the user's note. -/
structure Resumes (s t : State) (a : Active) (note : String) : Prop where
  requeued : t.stack = (a.withNote note).toFrame :: s.stack
  unparked : t.pendingResume = none
  first : ∀ frame, t.pc.inHand = some frame → ¬ frame.stepIdx < frame.spec.steps.length
  kept : (t.places.map Frame.key).Perm (s.places.map Frame.key)

/-- `pending_resume` holds the step of `a`, whose frame prefix is the announced one, and the frame
in hand has no step left. -/
structure Resumable (s : State) (a : Active) (note : String) : Prop where
  parked : s.pendingResume.map (·.withNote note) = some (a.withNote note)
  framePrefix_eq : a.framePrefix = ""
  index_eq : a.step.index = ""
  exhausted : ∀ frame, s.pc.inHand = some frame → ¬ frame.stepIdx < frame.spec.steps.length

variable {p : String}

theorem resumeStep_of_none (h : s.pendingResume = none) :
    (s.resumeStep p note).stack = s.stack := by
  simp [resumeStep, h, output]

theorem resumeStep_of_ne (h : s.pendingResume = some b) (hp : b.framePrefix ≠ p) :
    s.resumeStep p note = s := by
  simp [resumeStep, h, hp]

theorem resumeStep_of_eq (h : s.pendingResume = some b) (hp : b.framePrefix = p) :
    s.resumeStep p note = { s.output [.event .resumed] with
      pendingResume := none
      stack := (b.withNote note).toFrame :: s.stack
      paused := false } := by
  simp [resumeStep, h, hp, Active.resumed_eq_withNote]

theorem resumeStep_inHand : (s.resumeStep p note).pc.inHand = s.pc.inHand := by
  unfold resumeStep
  split
  · rfl
  · split <;> rfl

/-- The frame that leaves `pending_resume` is the one that is put on the stack. -/
theorem resumeStep_places (h : s.pendingResume = some b) (hp : b.framePrefix = p) :
    ((s.resumeStep p note).places.map Frame.key).Perm (s.places.map Frame.key) := by
  have hkey : (b.withNote note).toFrame.key = b.toFrame.key := rfl
  rw [List.perm_iff_count]
  intro k
  simp only [places, resumeStep_inHand]
  simp [resumeStep_of_eq h hp, h, hkey, output, List.count_cons]
  omega

/-- A `ResumeStep` with the announced prefix of a step resumes it exactly if it is resumable. -/
theorem resumes_iff_resumable (hpc : s.pc = .handle site (.resumeStep a.currentPrefix note :: rest))
    (h : step rt s .tick = some t) : Resumes s t a note ↔ Resumable s a note := by
  obtain ⟨v, rfl, hstack, hpending, hplaces, hhand⟩ : ∃ v : State,
      v.resumeStep a.currentPrefix note = t ∧ v.stack = s.stack ∧
      v.pendingResume = s.pendingResume ∧ v.places = s.places ∧ v.pc.inHand = s.pc.inHand :=
    ⟨(s.output [.handled (.resumeStep a.currentPrefix note)]).goto (.handle site rest),
      by simpa [step, tick, hpc, handleCommand] using h, rfl, rfl,
      by simp [places, goto, output, hpc, Pc.inHand],
      by simp [goto, hpc, Pc.inHand]⟩
  have hheld : (v.resumeStep a.currentPrefix note).pc.inHand = s.pc.inHand :=
    resumeStep_inHand.trans hhand
  constructor
  · intro hr
    have hrequeued := hr.requeued
    cases hv : v.pendingResume with
    | none =>
      rw [resumeStep_of_none hv, hstack] at hrequeued
      simp at hrequeued
    | some b =>
      by_cases hp : b.framePrefix = a.currentPrefix
      · rw [resumeStep_of_eq hv hp] at hrequeued
        have hba : b.withNote note = a.withNote note :=
          Active.toFrame_injective (List.head_eq_of_cons_eq hrequeued)
        have hframe : b.framePrefix = a.framePrefix := by
          simpa using congrArg (fun c : Active => c.framePrefix) hba
        obtain ⟨hempty, hindex⟩ := composePrefix_eq_self_iff.mp (hp.symm.trans hframe)
        refine ⟨?_, hempty, hindex, fun f hf => hr.first f (hheld.trans hf)⟩
        rw [← hpending, hv, Option.map_some, hba]
      · rw [resumeStep_of_ne hv hp, hstack] at hrequeued
        simp at hrequeued
  · intro hr
    obtain ⟨b, hb, hba⟩ := Option.map_eq_some_iff.mp hr.parked
    have hframe : b.framePrefix = a.framePrefix := by
      simpa using congrArg (fun c : Active => c.framePrefix) hba
    have hp : b.framePrefix = a.currentPrefix :=
      hframe.trans (composePrefix_eq_self_iff.mpr ⟨hr.framePrefix_eq, hr.index_eq⟩).symm
    have hv := hpending.trans hb
    refine ⟨?_, ?_, fun f hf => hr.exhausted f (hheld.symm.trans hf), ?_⟩
    · rw [resumeStep_of_eq hv hp, hstack, hba]
    · rw [resumeStep_of_eq hv hp]
    · rw [← hplaces]
      exact resumeStep_places hv hp

/-- Once the cancellation of a step is announced, a later `ResumeStep` with the announced prefix
resumes it exactly if it is resumable. -/
theorem announced_step_resumes_iff (hpark : u.pc = .park a)
    (hrun : run rt u (.tick :: actions) = some s)
    (hpc : s.pc = .handle site (.resumeStep a.currentPrefix note :: rest))
    (h : step rt s .tick = some t) :
    .event (.stepCancelled a.currentPrefix) ∈ s.log ∧
      (Resumes s t a note ↔ Resumable s a note) := by
  refine ⟨?_, resumes_iff_resumable hpc h⟩
  obtain ⟨v, hv, hs⟩ := Transition.run_cons_eq_some.mp hrun
  obtain rfl : _ = v := by simpa [step, tick, hpark] using hv
  exact (run_log hs).subset (by simp [output])

/-- Step 1 is split in two, and `cancel_step("1.1")` is called while the first half runs. -/
def cancelFirstHalf : List Action :=
  toExecution ++ [.subAgentDone (.ok (sampleSplit "half" ["1", "2"]))] ++ ticks 7 ++
    toExecution ++ [.call (.cancelStep "1.1"), .control 0, .control 0, .control 0, .control 0,
      .control 0, .subAgentDone (.ok (sampleTask .cancelled))] ++ ticks 6

/-- From its cancellation on, `resume_step("1.1", "again")` is called. -/
def resumeFirstHalf : List Action :=
  ticks 2 ++ [.call (.resumeStep "1.1" "again"), .control 0, .tick, .tick]

theorem announced_step_resumes_first_half : ∃ u s t a site,
    run sampleRuntime (.init (sampleSheet "root" [sampleStep "1"])) cancelFirstHalf = some u ∧
    u.pc = .park a ∧ run sampleRuntime u resumeFirstHalf = some s ∧
    s.pc = .handle site [.resumeStep a.currentPrefix "again"] ∧
    step sampleRuntime s .tick = some t ∧ .event (.stepCancelled a.currentPrefix) ∈ s.log ∧
    (Resumes s t a "again" ↔ Resumable s a "again") := by
  obtain ⟨u, s, t, a, site, hu, hpark, hs, hpc, ht⟩ : ∃ u s t a site,
      run sampleRuntime (.init (sampleSheet "root" [sampleStep "1"])) cancelFirstHalf = some u ∧
      u.pc = .park a ∧ run sampleRuntime u resumeFirstHalf = some s ∧
      s.pc = .handle site [.resumeStep a.currentPrefix "again"] ∧
      step sampleRuntime s .tick = some t :=
    ⟨_, _, _, _, _, rfl, rfl, rfl, rfl, rfl⟩
  exact ⟨u, s, t, a, site, hu, hpark, hs, hpc, ht, announced_step_resumes_iff hpark hs hpc ht⟩

theorem announced_prefix_resumes_nothing : ∃ u s t a site,
    run sampleRuntime (.init (sampleSheet "root" [sampleStep "1"])) cancelFirstHalf = some u ∧
    u.pc = .park a ∧ a.currentPrefix = "1.1" ∧ run sampleRuntime u resumeFirstHalf = some s ∧
    s.pc = .handle site [.resumeStep "1.1" "again"] ∧
    s.pendingResume = some (a.setStatus .pending) ∧ step sampleRuntime s .tick = some t ∧
    ¬ Resumes s t a "again" := by
  obtain ⟨u, s, t, a, site, hu, hpark, ha, hs, hpc, hpending, ht, hstack⟩ : ∃ u s t a site,
      run sampleRuntime (.init (sampleSheet "root" [sampleStep "1"])) cancelFirstHalf = some u ∧
      u.pc = .park a ∧ a.currentPrefix = "1.1" ∧ run sampleRuntime u resumeFirstHalf = some s ∧
      s.pc = .handle site [.resumeStep "1.1" "again"] ∧
      s.pendingResume = some (a.setStatus .pending) ∧ step sampleRuntime s .tick = some t ∧
      t.stack.length = s.stack.length :=
    ⟨_, _, _, _, _, rfl, rfl, rfl, rfl, rfl, rfl, rfl, rfl⟩
  refine ⟨u, s, t, a, site, hu, hpark, ha, hs, hpc, hpending, ht, fun hr => ?_⟩
  simp [hr.requeued] at hstack

end ColossalCode.Orchestrator
