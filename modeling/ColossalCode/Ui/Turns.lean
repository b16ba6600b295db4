import ColossalCode.Ui.Accounts

/-! Messages of interrupted turns, read while a later turn is under way. -/
namespace ColossalCode.Ui

open Transition

variable {Stats : Type*} {texts : Texts Stats} {full : Bool} {turn : Option Nat}
  {message : AgentMessage Stats}

/-- The parts of the state that a turn ends or adds to. -/
structure Standing where
  agentProcessing : Bool
  isCompacting : Bool
  rewindPoints : List (List Row)
  shown : List (Option Nat × String)
  interruptPending : Option String

def App.standing (a : App Stats) : Standing :=
  ⟨a.agentProcessing, a.isCompacting, a.rewindPoints, a.shown, a.interruptPending⟩

/-- A message has neither ended a turn nor added to one. -/
structure Spares (before after : App Stats) (outcome : Outcome) : Prop where
  standing : after.standing = before.standing
  noRewind : outcome.createRewind = false
  noQueued : outcome.processQueued = false
  noInterrupt : outcome.processInterrupt = none

/-- No message of an interrupted turn, an error apart, has touched the turn after it. -/
def Unharmed (s : State Stats) : Prop :=
  ∀ reading ∈ s.log, reading.stale = true → reading.message.isError = false →
    Spares reading.before reading.after reading.outcome

/-- A `Done`, or a response with a text. -/
def AgentMessage.counts : AgentMessage Stats → Bool
  | .done => true
  | .agentResponse text => !text.isEmpty
  | _ => false

/-- While a later turn is under way, the end and the responses of an interrupted one are read only as
long as the interface is marked as interrupted, or an orchestration is in progress. -/
def ReadsMarked (s : State Stats) : Action Stats → Prop
  | .read _ => ∀ turn message channel, s.channel = (turn, message) :: channel →
      s.stale turn = true → message.counts = true →
        s.app.agentInterrupted = true ∨ s.app.orchestrationInProgress = true
  | _ => True

namespace App

variable {a b : App Stats}

theorem Redrawn.standing (h : Redrawn a b) : b.standing = a.standing := (congrArg App.standing h :)

@[simp] theorem standing_push (row : Row) : (a.push row).standing = a.standing := rfl

@[simp] theorem standing_removePlaceholder : a.removePlaceholder.standing = a.standing := rfl

@[simp] theorem standing_ensurePlaceholder : a.ensurePlaceholder.standing = a.standing := rfl

@[simp] theorem standing_closePrompts : a.closePrompts.standing = a.standing := rfl

@[simp] theorem standing_flushSummary (isFinal : Bool) :
    (a.flushSummary isFinal).standing = a.standing := (redrawn_flushSummary isFinal).standing

@[simp] theorem standing_ensureGenerationStatsMarker :
    (a.ensureGenerationStatsMarker texts).standing = a.standing :=
  (redrawn_ensureGenerationStatsMarker texts).standing

@[simp] theorem standing_generationStatsArrived (stats : Stats) :
    (a.generationStatsArrived texts stats).standing = a.standing :=
  (redrawn_generationStatsArrived stats).standing

theorem spares_thinkingContent : Spares a (a.thinkingContent full).1 (a.thinkingContent full).2 := by
  simp only [thinkingContent]
  split
  · exact ⟨rfl, rfl, rfl, rfl⟩
  · refine ⟨?_, rfl, rfl, rfl⟩
    dsimp only
    split <;> rfl

theorem standing_contextCleared : a.contextCleared.standing = a.standing := by
  unfold contextCleared
  split <;> rfl

theorem shown_showResponse (text : String) :
    (a.showResponse turn text).shown = a.shown ++ [(turn, text)] := by
  unfold showResponse
  split <;> rfl

/-- A response that is read is shown. -/
theorem not_spares_agentResponse {text : String} (htext : text.isEmpty = false) :
    ¬ Spares a (a.agentResponse turn text full).1 (a.agentResponse turn text full).2 := by
  intro h
  have hshown := congrArg Standing.shown h.standing
  have hgrown : (a.agentResponse turn text full).1.shown = a.shown ++ [(turn, text)] := by
    have hflushed := congrArg Standing.shown (standing_flushSummary (a := a.removePlaceholder) true)
    unfold agentResponse
    rw [if_neg (by rw [htext]; exact Bool.false_ne_true)]
    exact (shown_showResponse text).trans (congrArg (· ++ [(turn, text)]) hflushed)
  have hsame : a.shown ++ [(turn, text)] = a.shown := hgrown.symm.trans hshown
  have hlength := congrArg List.length hsame
  rw [List.length_append, List.length_singleton] at hlength
  omega

theorem spares_agentResponse {text : String} (htext : text.isEmpty = true) :
    Spares a (a.agentResponse turn text full).1 (a.agentResponse turn text full).2 := by
  unfold agentResponse
  rw [if_pos htext]
  exact ⟨rfl, rfl, rfl, rfl⟩

theorem standing_finish : a.finish.standing = { a.standing with agentProcessing := false } := by
  have hflushed := standing_flushSummary (a := a.removePlaceholder) true
  have hcompacting := congrArg Standing.isCompacting hflushed
  have hpoints := congrArg Standing.rewindPoints hflushed
  have hshown := congrArg Standing.shown hflushed
  have hpending := congrArg Standing.interruptPending hflushed
  simp only [standing, finish, closePrompts, Standing.mk.injEq] at *
  exact ⟨trivial, hcompacting, hpoints, hshown, hpending⟩

theorem not_compacting_finishCompaction : a.finishCompaction.isCompacting = false := by
  unfold finishCompaction
  split <;> rfl

/-- A `Done` that is read ends something. -/
theorem not_spares_done : ¬ Spares a (a.done texts).1 (a.done texts).2 := by
  intro h
  obtain ⟨hstanding, hrewind, -, hinterrupt⟩ := h
  have hcompacting : a.finish.isCompacting = a.isCompacting :=
    congrArg Standing.isCompacting standing_finish
  unfold done at hstanding hrewind hinterrupt
  dsimp only at hstanding hrewind hinterrupt
  by_cases hbefore : a.finish.isCompacting = true
  · rw [if_pos hbefore] at hstanding
    have hafter := congrArg Standing.isCompacting hstanding
    have hended : a.finish.finishCompaction.isCompacting = a.isCompacting := hafter
    rw [not_compacting_finishCompaction, ← hcompacting, hbefore] at hended
    cases hended
  · rw [if_neg hbefore] at hrewind hinterrupt
    cases hpending : a.finish.interruptPending with
    | some message =>
      rw [hpending] at hinterrupt
      cases hinterrupt
    | none =>
      rw [hpending] at hrewind
      cases hrewind

theorem spares_doneInterrupted : Spares a (a.doneInterrupted texts).1 (a.doneInterrupted texts).2 := by
  refine ⟨?_, rfl, rfl, rfl⟩
  exact standing_ensureGenerationStatsMarker (a := { a.removePlaceholder with
    thinkingIndicatorActive := false, thinkingCurrentSummary := none })

theorem spares_handleInterrupted :
    Spares a (a.handleInterrupted texts message).1 (a.handleInterrupted texts message).2 := by
  cases message with
  | generationStats stats => exact ⟨standing_generationStatsArrived stats, rfl, rfl, rfl⟩
  | done => exact spares_doneInterrupted
  | thinkingContent | thinkingSummary | agentResponse | toolCallStarted | toolCallCompleted
  | requestApproval | error | contextCleared | contextInjected | modelLoaded =>
    exact ⟨rfl, rfl, rfl, rfl⟩

theorem spares_handleLive_iff (herror : message.isError = false) :
    Spares a (a.handleLive texts full turn message).1 (a.handleLive texts full turn message).2 ↔
      message.counts = false := by
  cases message with
  | thinkingContent => exact iff_of_true spares_thinkingContent rfl
  | thinkingSummary text => exact iff_of_true ⟨(redrawn_thinkingSummary text).standing, rfl, rfl, rfl⟩ rfl
  | agentResponse text =>
    cases htext : text.isEmpty with
    | true =>
      exact iff_of_true (spares_agentResponse htext) (congrArg Bool.not htext)
    | false =>
      refine iff_of_false (not_spares_agentResponse htext) ?_
      intro hcounts
      have hempty : (!text.isEmpty) = false := hcounts
      rw [htext] at hempty
      cases hempty
  | toolCallStarted toolName arguments =>
    exact iff_of_true ⟨(redrawn_toolStarted toolName arguments).standing, rfl, rfl, rfl⟩ rfl
  | toolCallCompleted toolName result =>
    obtain ⟨_, _, hredrawn, -⟩ := @redrawn_toolCompleted _ texts a toolName result
    exact iff_of_true ⟨hredrawn.standing, rfl, rfl, rfl⟩ rfl
  | requestApproval => exact iff_of_true ⟨rfl, rfl, rfl, rfl⟩ rfl
  | error => cases herror
  | generationStats stats =>
    exact iff_of_true ⟨standing_generationStatsArrived stats, rfl, rfl, rfl⟩ rfl
  | contextCleared => exact iff_of_true ⟨standing_contextCleared, rfl, rfl, rfl⟩ rfl
  | contextInjected => exact iff_of_true ⟨rfl, rfl, rfl, rfl⟩ rfl
  | modelLoaded => exact iff_of_true ⟨rfl, rfl, rfl, rfl⟩ rfl
  | done => exact iff_of_false not_spares_done (fun hcounts => by cases hcounts)

theorem counts_discarded (hcounts : message.counts = true) : message.discarded = true := by
  cases message with
  | agentResponse | done => rfl
  | thinkingContent | thinkingSummary | toolCallStarted | toolCallCompleted | requestApproval
  | error | generationStats | contextCleared | contextInjected | modelLoaded => cases hcounts

theorem spares_handle_iff (herror : message.isError = false) :
    Spares a (a.handle texts full turn message).1 (a.handle texts full turn message).2 ↔
      (message.counts = true → a.agentInterrupted = true ∨ a.orchestrationInProgress = true) := by
  unfold handle
  by_cases hmarked : a.agentInterrupted = true
  · rw [if_pos hmarked]
    exact iff_of_true spares_handleInterrupted fun _ => .inl hmarked
  · rw [if_neg hmarked]
    by_cases hleft : (a.orchestrationInProgress && message.discarded) = true
    · rw [if_pos hleft]
      exact iff_of_true ⟨rfl, rfl, rfl, rfl⟩ fun _ => .inr (Bool.and_eq_true_iff.mp hleft).1
    · rw [if_neg hleft, spares_handleLive_iff herror]
      constructor
      · intro hquiet hcounts
        rw [hquiet] at hcounts
        cases hcounts
      · intro hallowed
        cases hcounts : message.counts with
        | false => rfl
        | true =>
          rcases hallowed hcounts with hyes | hyes
          · exact absurd hyes hmarked
          · exact absurd (Bool.and_eq_true_iff.mpr ⟨hyes, counts_discarded hcounts⟩) hleft

end App

section Runs

variable {start s t : State Stats} {action : Action Stats} {actions : List (Action Stats)}

theorem unharmed_step_iff (h : step texts s action = some t) (hs : Unharmed s) :
    Unharmed t ↔ ReadsMarked s action := by
  have hentry : Unharmed t ↔ ∀ reading ∈ entry texts s action, reading.stale = true →
      reading.message.isError = false →
        Spares reading.before reading.after reading.outcome := by
    rw [Unharmed, log_step (does_of_step h)]
    constructor
    · intro hall reading hmem
      exact hall reading (List.mem_append_right _ hmem)
    · intro hnew reading hmem
      rcases List.mem_append.mp hmem with hmem | hmem
      · exact hs reading hmem
      · exact hnew reading hmem
  rw [hentry]
  cases action with
  | read full =>
    cases hchannel : s.channel with
    | nil =>
      refine iff_of_true ?_ ?_
      · intro reading hmem
        simp only [entry, hchannel] at hmem
        cases hmem
      · intro turn message channel hcons
        rw [hchannel] at hcons
        cases hcons
    | cons first channel =>
      obtain ⟨turn, message⟩ := first
      simp only [entry, hchannel, List.mem_singleton, forall_eq]
      constructor
      · intro hspared turn' message' channel' hcons hstale hcounts
        obtain ⟨hfirst, -⟩ := List.cons_eq_cons.mp (hchannel.symm.trans hcons)
        cases hfirst
        have herror : message.isError = false := by
          cases message with
          | error => cases hcounts
          | thinkingContent | thinkingSummary | agentResponse | toolCallStarted | toolCallCompleted
          | requestApproval | generationStats | contextCleared | contextInjected | modelLoaded
          | done => rfl
        exact (App.spares_handle_iff herror).mp (hspared hstale herror) hcounts
      · intro hmarked hstale herror
        exact (App.spares_handle_iff herror).mpr (hmarked turn message channel hchannel hstale)
  | emit | tick | drained | orchestrated | handled | part | key =>
    refine iff_of_true (fun reading hmem => ?_) trivial
    cases hmem

variable {limitThinkingToFirstToken : Bool} {commandHistory : List String}

/-- The turns that have been interrupted leave the later ones alone as long as the mark of the
interruption is up while they are read, and no longer. -/
theorem unharmed_iff
    (h : run (step texts) (.new limitThinkingToFirstToken commandHistory) actions = some t) :
    Throughout (step texts) Unharmed (.new limitThinkingToFirstToken commandHistory) actions ↔
      Steps (step texts) ReadsMarked (.new limitThinkingToFirstToken commandHistory) actions t := by
  have hnone : Unharmed (.new limitThinkingToFirstToken commandHistory : State Stats) := by
    intro reading hmem
    cases hmem
  exact throughout_iff_steps (I := fun _ => True) (fun _ _ _ _ _ => trivial)
    (fun _ _ _ _ hstep hs => unharmed_step_iff hstep hs) h trivial hnone

/-- A turn is interrupted, and another one submitted. -/
def resubmitted : List (Action Unit) :=
  [.key (.type "a"), .key (.submit false ""), .key .escape, .key (.type "b"),
    .key (.submit false "")]

def endOfFirst : List (Action Unit) := [.emit (some 0) .done, .tick, .read false]

/-- The second turn is interrupted before the end of the first is read. -/
theorem unharmed_interrupted_again :
    ∃ t, run (step bareTexts) (.new false []) (resubmitted ++ .key .escape :: endOfFirst) = some t ∧
      Throughout (step bareTexts) Unharmed (.new false [])
        (resubmitted ++ .key .escape :: endOfFirst) := by
  have hmarked : ∃ t, Steps (step bareTexts) ReadsMarked (.new false [])
      (resubmitted ++ .key .escape :: endOfFirst) t := by
    refine ⟨_, .head trivial rfl (.head trivial rfl (.head trivial rfl (.head trivial rfl
      (.head trivial rfl (.head trivial rfl (.head trivial rfl (.head trivial rfl
        (.head ?_ rfl (.refl _)))))))))⟩
    intro turn message channel hchannel hstale hcounts
    exact .inl rfl
  obtain ⟨t, ht⟩ := hmarked
  exact ⟨t, ht.run_eq, (unharmed_iff ht.run_eq).mpr ht⟩

/-- Otherwise its `Done` ends the second turn: a rewind point and the next queued message are due. -/
theorem interrupted_turn_ends_next : ¬ ∀ actions t,
    run (step bareTexts) (.new false []) actions = some t →
      Throughout (step bareTexts) Unharmed (.new false []) actions := by
  intro hall
  have hthrough := hall (resubmitted ++ endOfFirst) _ rfl
  have hunharmed := hthrough (resubmitted ++ endOfFirst) _ List.prefix_rfl rfl
  have hspares := hunharmed _ List.mem_cons_self rfl rfl
  cases hspares.noRewind

end Runs

end ColossalCode.Ui
