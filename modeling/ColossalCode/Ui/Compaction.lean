import ColossalCode.Ui.Writers

/-! When the transcript is replaced by a summary, and by whose. -/
namespace ColossalCode.Ui
open List Option

open Transition
open Text (startsWith)

variable {Stats : Type*} {texts : Texts Stats}

/-- Nothing in the row is of another turn, or of none. -/
def Row.OnlyOf (turn : Nat) (row : Row) : Prop := ∀ writer ∈ row.writers, writer = some turn

/-- A row that could be taken for a summary is of the turn alone, if it is of it at all. -/
def Row.Pure (turn : Nat) (row : Row) : Prop :=
  row.plain = true → some turn ∈ row.writers → row.OnlyOf turn

/-- The context of the agent has been cleared for the summary, as the transcript has. -/
def Reading.Replaces (reading : Reading Stats) (summary : String) : Prop :=
  reading.after.told = reading.before.told ++ [.clearContext, .injectContext summary]

/-- A compaction ends with the `Done` of its own turn, and what it records is a text that the turn has
responded with, unless it was cancelled or has failed. -/
structure Reading.Faithful (reading : Reading Stats) : Prop where
  ended : reading.before.isCompacting = true → reading.after.isCompacting = false →
    reading.turn.isSome = true ∧ reading.turn = reading.compaction
  replaced : ∀ summary, reading.Replaces summary → ∃ turn writers,
    reading.message.isDone = true ∧ reading.turn = some turn ∧ reading.compaction = some turn ∧
      reading.spoilt = false ∧ summary ≠ "" ∧ writers ≠ [] ∧ (∀ w ∈ writers, w = some turn) ∧
      reading.after.compactionHistory.getLast? = some ⟨summary, writers⟩

def Faithful (s : State Stats) : Prop := ∀ reading ∈ s.log, reading.Faithful

/-- The rows that come below the transcript are none that a response or a summary is taken from. -/
def AddsEvents (rows rows' : List Row) : Prop :=
  ∃ more, (rows' = rows ++ more ∨ rows' = removeThinkingAnimationPlaceholder rows ++ more) ∧
    ∀ row ∈ more, row.plain = true → isEventLine row.text = true

/-- While a compaction is under way no other turn is started and none is cancelled, and once it has
responded the transcript is not exchanged. -/
def Calm (a b : App Stats) : Prop :=
  a.isCompacting = true → b.turns = a.turns ∧ b.told.count .cancel = a.told.count .cancel ∧
    (a.agentResponseStarted = true → AddsEvents a.rows b.rows)

/-- A compaction is started when no turn is outstanding, and its response will go to a row of its
own. -/
def StartsApart (s : State Stats) : Prop :=
  s.outstandingTurns = [] ∧ (s.app.agentResponseStarted = true →
    ∃ row, s.app.rows.getLast? = some row ∧ row.isPlaceholder = false ∧ isEventLine row.text = true)

/-- Its turn does not fail, and ends with a response as the newest plain row, unless there is none. -/
def ReadsKept (s : State Stats) (turn : Option Nat) : AgentMessage Stats → Prop
  | .error _ => turn ≠ s.compaction
  | .modelLoaded => s.app.agentResponseStarted = false
  | .agentResponse text => text ≠ thinkingAnimation
  | .done => s.app.thinkingCurrentSummary = none ∧
      ∀ row, s.app.summaryRow = some row → s.compaction ∈ row.writers
  | _ => True

def Keeps (texts : Texts Stats) (s : State Stats) : Action Stats → Prop
  | .read _ => s.app.isCompacting = true → ∀ turn message channel,
      s.channel = (turn, message) :: channel → ReadsKept s turn message
  | .key key => Calm s.app (s.app.press texts key)
  | .part found => ∀ part, s.stage = .part part →
      Calm s.app (s.app.part texts s.outcome found part).1 ∧
        (part = .compaction → s.app.compactPending.isSome = true → StartsApart s)
  | .orchestrated error => Calm s.app (s.app.orchestrationEnded error)
  | _ => True

/-- A text that starts with a bracket. -/
def bracketed (text : String) : Bool := startsWith text "["

variable {row : Row}

theorem not_plain_of_bracketed (h : bracketed row.text = true) : row.plain = false := by
  have hstart : startsWith row.text "[" = true := h
  simp only [Row.plain, hstart, Bool.not_true, Bool.and_false, Bool.false_and]

theorem bracketed_append (text more : String) (h : bracketed text = true) :
    bracketed (text ++ more) = true := startsWith_append more h

theorem bracketed_of_startsWith {text start : String} (hstart : bracketed start = true)
    (h : startsWith text start = true) : bracketed text = true := by
  have hbracket : startsWith start "[" = true := hstart
  rw [startsWith, isPrefixOf_iff_prefix] at hbracket h
  rw [bracketed, startsWith, isPrefixOf_iff_prefix]
  exact hbracket.trans h

/-- A bracket comes from the first text that is not empty. -/
theorem bracketed_of_append {text more : String} (hne : text ≠ "")
    (h : bracketed (text ++ more) = true) : bracketed text = true := by
  rw [bracketed, startsWith, isPrefixOf_iff_prefix, String.toList_append] at h
  rw [bracketed, startsWith, isPrefixOf_iff_prefix]
  have hsome : 0 < text.toList.length := by
    apply length_pos_of_ne_nil
    intro hnil
    exact hne (String.toList_inj.mp hnil)
  exact prefix_of_prefix_length_le h (prefix_append _ _) hsome

theorem isPlaceholder_iff : row.isPlaceholder = true ↔ row.text = thinkingAnimation :=
  beq_iff_eq

theorem bracketed_of_isPlaceholder (h : row.isPlaceholder = true) :
    bracketed row.text = true := by
  rw [isPlaceholder_iff.mp h]
  decide

/-- What is appended makes no row plain. -/
theorem plain_of_append {text : String} {writers : List (Option Nat)}
    (h : ({ row with text := row.text ++ text, writers } : Row).plain = true) : row.plain = true := by
  have hnot : ∀ start, startsWith (row.text ++ text) start = false →
      startsWith row.text start = false := by
    intro start hfalse
    rw [Bool.eq_false_iff]
    intro htrue
    rw [startsWith_append text htrue] at hfalse
    cases hfalse
  simp only [Row.plain, Bool.and_eq_true, Bool.not_eq_true'] at h ⊢
  obtain ⟨⟨⟨htype, hbracket⟩, hbranch⟩, hbullet⟩ := h
  exact ⟨⟨⟨htype, hnot _ hbracket⟩, hnot _ hbranch⟩, hnot _ hbullet⟩

theorem plain_placeholder : placeholder.plain = false := by decide

theorem isTreeLine_format (summary : String) (isFinal : Bool) :
    isTreeLine (formatThinkingTreeLine summary isFinal) = true := by
  have hstart : ∀ start : String, startsWith (start ++ summary) start = true := by
    intro start
    rw [startsWith, isPrefixOf_iff_prefix, String.toList_append]
    exact prefix_append _ _
  cases isFinal with
  | true =>
    have hfinal : isTreeLine ("└── " ++ summary) = true := by
      rw [isTreeLine, hstart "└── ", Bool.or_true]
    exact hfinal
  | false =>
    have hbranch : isTreeLine ("├── " ++ summary) = true := by
      rw [isTreeLine, hstart "├── ", Bool.true_or]
    exact hbranch

theorem isEventLine_format (summary : String) (isFinal : Bool) :
    isEventLine (formatThinkingTreeLine summary isFinal) = true := by
  rw [isEventLine, isTreeLine_format, Bool.or_true]

theorem isEventLine_of_bracketed {text : String} (h : bracketed text = true) :
    isEventLine text = true := by
  have hstart : startsWith text "[" = true := h
  simp only [isEventLine, hstart, Bool.true_or]


/-- The turn has shown a row, and from there on no plain row is another's, tree lines apart. -/
def Begun (turn : Nat) (rows : List Row) : Prop :=
  ∃ front back, rows = front ++ back ∧ (∃ row ∈ back, row.isPlaceholder = false) ∧
    ∀ row ∈ back, row.plain = true → isEventLine row.text = false → row.OnlyOf turn

section Begun

variable {turn : Nat} {rows : List Row}

theorem Begun.append (h : Begun turn rows) {more : List Row}
    (hmore : ∀ row ∈ more, row.plain = true → isEventLine row.text = true) :
    Begun turn (rows ++ more) := by
  obtain ⟨front, back, rfl, ⟨row, hrow, hshown⟩, honly⟩ := h
  refine ⟨front, back ++ more, append_assoc _ _ _,
    ⟨row, mem_append_left _ hrow, hshown⟩, ?_⟩
  intro row' hmem hplain hevent
  rcases mem_append.mp hmem with hmem | hmem
  · exact honly row' hmem hplain hevent
  · rw [hmore row' hmem hplain] at hevent
    cases hevent

theorem Begun.push (h : Begun turn rows)
    (hrow : row.plain = true → isEventLine row.text = true) : Begun turn (rows ++ [row]) := by
  apply h.append
  intro row' hmem
  rw [mem_singleton.mp hmem]
  exact hrow

/-- Where a row is, events may come instead, one of them shown if the row was. -/
theorem Begun.replace {before after between : List Row} {old : Row}
    (h : Begun turn (before ++ old :: after))
    (hevents : ∀ row ∈ between, row.plain = true → isEventLine row.text = true)
    (hshown : old.isPlaceholder = true ∨ ∃ row ∈ between, row.isPlaceholder = false) :
    Begun turn (before ++ (between ++ after)) := by
  obtain ⟨front, back, hsplit, ⟨row, hrow, hrowshown⟩, honly⟩ := h
  have hkept : ∀ more : List Row, back = more ++ old :: after →
      (∃ row ∈ more ++ (between ++ after), row.isPlaceholder = false) ∧
        ∀ row ∈ more ++ (between ++ after), row.plain = true → isEventLine row.text = false →
          row.OnlyOf turn := by
    intro more hback
    constructor
    · rcases hshown with hold | ⟨row', hmem, hrow'⟩
      · refine ⟨row, ?_, hrowshown⟩
        rw [hback] at hrow
        rcases mem_append.mp hrow with hrow | hrow
        · exact mem_append_left _ hrow
        · rcases mem_cons.mp hrow with rfl | hrow
          · rw [hold] at hrowshown
            cases hrowshown
          · exact mem_append_right _ (mem_append_right _ hrow)
      · exact ⟨row', mem_append_right _ (mem_append_left _ hmem), hrow'⟩
    · intro row' hmem hplain hevent
      rcases mem_append.mp hmem with hmem | hmem
      · exact honly row' (hback ▸ mem_append_left _ hmem) hplain hevent
      · rcases mem_append.mp hmem with hmem | hmem
        · rw [hevents row' hmem hplain] at hevent
          cases hevent
        · exact honly row' (hback ▸ mem_append_right _ (mem_cons_of_mem _ hmem))
            hplain hevent
  rcases append_eq_append_iff.mp hsplit.symm with
    ⟨more, hbefore, hback⟩ | ⟨more, hfront, hafter⟩
  · obtain ⟨hsome, hrest⟩ := hkept more hback
    refine ⟨front, more ++ (between ++ after), ?_, hsome, hrest⟩
    rw [hbefore, append_assoc]
  · cases more with
    | nil =>
      obtain ⟨hsome, hrest⟩ := hkept [] hafter.symm
      exact ⟨before, between ++ after, rfl, hsome, hrest⟩
    | cons first more =>
      rw [cons_append] at hafter
      obtain ⟨-, hafter⟩ := cons_eq_cons.mp hafter
      refine ⟨before ++ (between ++ more), back, ?_, ⟨row, hrow, hrowshown⟩, honly⟩
      rw [hafter]
      simp only [append_assoc]

theorem Begun.remove (h : Begun turn rows) :
    Begun turn (removeThinkingAnimationPlaceholder rows) := by
  rcases removeLast_eq Row.isPlaceholder rows with hsame | ⟨before, out, after, hrows, hout, hremoved⟩
  · rw [removeThinkingAnimationPlaceholder, hsame]
    exact h
  · rw [removeThinkingAnimationPlaceholder, hremoved]
    rw [hrows] at h
    have hreplaced : Begun turn (before ++ ([] ++ after)) :=
      h.replace (fun row hmem => by cases hmem) (.inl hout)
    exact hreplaced

theorem Begun.ensure (h : Begun turn rows) (active : Bool) :
    Begun turn (ensureThinkingAnimationPlaceholder rows active) := by
  simp only [ensureThinkingAnimationPlaceholder]
  split
  · apply h.push
    intro hplain
    rw [plain_placeholder] at hplain
    cases hplain
  · exact h

/-- A row that is rewritten is an event afterwards. -/
theorem Begun.rewrite (h : Begun turn rows) {reads : String → Option String}
    (hreads : ∀ text new, reads text = some new →
      bracketed new = true ∧ new ≠ thinkingAnimation) : Begun turn (rewriteLast reads rows) := by
  rcases rewriteLast_eq reads rows with hsame | ⟨before, old, after, new, hrows, hold, hnew⟩
  · rw [hsame]
    exact h
  · obtain ⟨hbracketed, hother⟩ := hreads old.text new hold
    have htext : (old.rewrite new).text = new := by
      simp only [Row.rewrite]
      split
      · rename_i hsame
        exact hsame.symm
      · rfl
    have hplain : (old.rewrite new).plain = false :=
      not_plain_of_bracketed (htext.symm ▸ hbracketed)
    have hshown : (old.rewrite new).isPlaceholder = false := by
      rw [Bool.eq_false_iff]
      intro hyes
      exact hother (htext.symm.trans (isPlaceholder_iff.mp hyes))
    rw [hrows] at h
    rw [hnew]
    refine h.replace (fun row hmem hyes => ?_) (.inr ⟨_, mem_singleton_self _, hshown⟩)
    rw [mem_singleton.mp hmem, hplain] at hyes
    cases hyes

theorem Begun.addsEvents (h : Begun turn rows) {rows' : List Row} (hadds : AddsEvents rows rows') :
    Begun turn rows' := by
  obtain ⟨more, hrows | hrows, hmore⟩ := hadds
  · rw [hrows]
    exact h.append hmore
  · rw [hrows]
    exact h.remove.append hmore

/-- The last row is another one now. -/
theorem Begun.exchange (h : Begun turn rows) (hshown : row.isPlaceholder = false)
    (honly : row.plain = true → isEventLine row.text = false → row.OnlyOf turn) :
    Begun turn (rows.dropLast ++ [row]) := by
  obtain ⟨front, back, rfl, ⟨first, hfirst, -⟩, hrest⟩ := h
  refine ⟨front, back.dropLast ++ [row], ?_,
    ⟨row, mem_append_right _ (mem_singleton_self row), hshown⟩, ?_⟩
  · rw [dropLast_append_of_ne_nil (ne_nil_of_mem hfirst), append_assoc]
  · intro row' hmem hplain hevent
    rcases mem_append.mp hmem with hmem | hmem
    · exact hrest row' (mem_of_mem_dropLast hmem) hplain hevent
    · rw [mem_singleton.mp hmem] at hplain hevent ⊢
      exact honly hplain hevent

/-- A response is only appended to what the turn itself has responded. -/
theorem Begun.last (h : Begun turn rows) (hlast : rows.getLast? = some row)
    (hevent : isEventLine row.text = false) (hplain : row.plain = true) : row.OnlyOf turn := by
  obtain ⟨front, back, rfl, ⟨shown, hshown, -⟩, honly⟩ := h
  have hsome : back ≠ [] := ne_nil_of_mem hshown
  rw [List.getLast?_append_of_ne_nil _ hsome] at hlast
  exact honly row (mem_of_getLast? hlast) hplain hevent

end Begun

namespace App

/-- A compaction is as far as before, and no response has been shown since. -/
def Tame (a b : App Stats) : Prop :=
  b.isCompacting = a.isCompacting ∧ (b.agentResponseStarted = true → a.agentResponseStarted = true)

variable {a b : App Stats}

theorem Redrawn.agentResponseStarted (h : Redrawn a b) :
    b.agentResponseStarted = a.agentResponseStarted := (congrArg App.agentResponseStarted h :)

theorem tame_of_mode (h : b.mode = a.mode) : Tame a b := by
  refine ⟨congrArg Prod.fst h, ?_⟩
  intro hstarted
  exact (congrArg Prod.snd h).symm.trans hstarted

theorem mode_answerQueueChoice : a.answerQueueChoice.mode = a.mode := by
  simp only [answerQueueChoice]
  split
  · simp only [mode, closeQueueChoice, clearInput, enqueue,
      (redrawn_saveToHistory _).isCompacting, (redrawn_saveToHistory _).agentResponseStarted]
  · rfl
  · rfl
  · rfl

theorem tame_submitTyped : Tame a a.submitTyped := by
  refine ⟨?_, ?_⟩
  · simp only [submitTyped, startTurn, tell, push, clearInput,
      (redrawn_saveToHistory _).isCompacting]
  · intro hstarted
    cases hstarted

theorem tame_submitMessage (survey : Bool) (blockedPath : String) :
    Tame a (a.submitMessage texts survey blockedPath) := by
  simp only [submitMessage]
  split
  · exact tame_of_mode rfl
  · split
    · exact tame_of_mode rfl
    · split
      · exact tame_of_mode mode_answerQueueChoice
      · split
        · exact tame_of_mode held_answerApproval.1
        · split
          · exact tame_of_mode (held_answerSandbox blockedPath).1
          · split
            · exact tame_of_mode rfl
            · split
              · exact tame_of_mode rfl
              · split
                · exact tame_of_mode held_handleSlashCommand.1
                · exact tame_submitTyped

theorem mode_ctrlC : a.ctrlC.mode = a.mode := by
  simp only [ctrlC]
  split
  · rfl
  · split
    · split <;> rfl
    · rfl

theorem tame_press (texts : Texts Stats) (key : Key) : Tame a (a.press texts key) := by
  cases key with
  | type | panel => exact tame_of_mode rfl
  | submit survey blockedPath => exact tame_submitMessage survey blockedPath
  | escape => exact tame_of_mode held_escape.1
  | ctrlC => exact tame_of_mode mode_ctrlC
  | up => exact tame_of_mode redrawn_navigateHistoryBackwards.mode
  | down => exact tame_of_mode redrawn_navigateHistoryForwards.mode
  | rewind selected preview =>
    simp only [press, rewind]
    split <;> exact tame_of_mode rfl

theorem tame_orchestrationEnded (error : Option String) : Tame a (a.orchestrationEnded error) := by
  cases error <;> exact tame_of_mode rfl

theorem tame_maybeSendCompactionResumePrompt : Tame a a.maybeSendCompactionResumePrompt := by
  simp only [maybeSendCompactionResumePrompt]
  split
  · exact tame_of_mode rfl
  · split
    · exact tame_of_mode rfl
    · refine ⟨rfl, ?_⟩
      intro hstarted
      cases hstarted

theorem mode_processQueued : (a.processQueued texts).mode = a.mode := by
  simp only [processQueued]
  split
  · rfl
  · split
    · rfl
    · split
      · exact held_handleSlashCommand.1
      · rfl

/-- Only the request for a compaction sets it under way. -/
theorem tame_part (texts : Texts Stats) (outcome : Outcome) (found : Found) (part : Part)
    (h : ¬ (part = .compaction ∧ a.compactPending.isSome = true)) :
    Tame a (a.part texts outcome found part).1 := by
  refine part_cases (P := Tame a) part (tame_of_mode rfl) ?_ (tame_of_mode held_createRewindPoint.1)
    (tame_of_mode rfl) ?_ (tame_of_mode rfl) tame_maybeSendCompactionResumePrompt
    (fun _ => tame_of_mode mode_processQueued) (tame_of_mode rfl) ?_ ?_ ?_
  · exact fun message => tame_of_mode (held_processInterrupt message).1
  · rw [autoSummarize]
    split <;> exact tame_of_mode rfl
  · simp only [processReview]
    split
    · exact tame_of_mode rfl
    · split <;> exact tame_of_mode rfl
  · rintro rfl
    cases hpending : a.compactPending with
    | none =>
      simp only [startCompaction, hpending]
      exact tame_of_mode rfl
    | some customInstructions =>
      rw [hpending] at h
      exact absurd ⟨rfl, rfl⟩ h
  · simp only [App.part]
    cases found.loaded <;> exact tame_of_mode rfl

variable {turn : Nat}

/-- Nothing has been done to the rows below the first response either. -/
structure Stays (turn : Nat) (a b : App Stats) : Prop where
  tame : Tame a b
  rows : Begun turn a.rows → Begun turn b.rows

theorem Stays.refl (a : App Stats) : Stays turn a a := ⟨tame_of_mode rfl, id⟩

theorem Stays.trans {c : App Stats} (h : Stays turn a b) (h' : Stays turn b c) : Stays turn a c := by
  refine ⟨⟨h'.tame.1.trans h.tame.1, ?_⟩, fun hbegun => h'.rows (h.rows hbegun)⟩
  intro hstarted
  exact h.tame.2 (h'.tame.2 hstarted)

theorem stays_push (hrow : row.plain = true → isEventLine row.text = true) :
    Stays turn a (a.push row) := ⟨tame_of_mode rfl, fun hbegun => hbegun.push hrow⟩

theorem event_of_bracketed (h : bracketed row.text = true) :
    row.plain = true → isEventLine row.text = true := fun _ => isEventLine_of_bracketed h

theorem stays_removePlaceholder : Stays turn a a.removePlaceholder :=
  ⟨tame_of_mode rfl, fun hbegun => hbegun.remove⟩

theorem stays_ensurePlaceholder : Stays turn a a.ensurePlaceholder :=
  ⟨tame_of_mode rfl, fun hbegun => hbegun.ensure _⟩

theorem stays_flushSummary (isFinal : Bool) : Stays turn a (a.flushSummary isFinal) := by
  refine ⟨tame_of_mode (redrawn_flushSummary isFinal).mode, ?_⟩
  intro hbegun
  simp only [flushSummary]
  split
  · exact hbegun.push fun _ => isEventLine_format _ _
  · exact hbegun

theorem bracketed_encodeStats (texts : Texts Stats) (stats : Stats) :
    bracketed (encodeStats texts stats) = true :=
  bracketed_append _ _ (bracketed_append "[GEN_STATS:" _ (by decide))

theorem stays_ensureGenerationStatsMarker (texts : Texts Stats) :
    Stays turn a (a.ensureGenerationStatsMarker texts) := by
  refine ⟨tame_of_mode (redrawn_ensureGenerationStatsMarker texts).mode, ?_⟩
  intro hbegun
  simp only [ensureGenerationStatsMarker]
  split
  · exact hbegun
  · split
    · exact hbegun
    · split
      · exact hbegun
      · exact hbegun.push (event_of_bracketed (bracketed_encodeStats texts _))

theorem stays_generationStatsArrived (texts : Texts Stats) (stats : Stats) :
    Stays turn a (a.generationStatsArrived texts stats) := by
  simp only [generationStatsArrived]
  split
  · have hrecorded : Stays turn a (a.recordGenerationStats texts stats) := ⟨tame_of_mode rfl, id⟩
    exact hrecorded.trans (stays_ensureGenerationStatsMarker texts)
  · exact ⟨tame_of_mode rfl, id⟩

variable {text : String}

/-- What starts as a tool call does is bracketed, and no placeholder. -/
theorem bracketed_of_toolCall (start : String) (hbracketed : bracketed start = true)
    (hother : startsWith thinkingAnimation start = false) (h : startsWith text start = true) :
    bracketed text = true ∧ text ≠ thinkingAnimation := by
  refine ⟨bracketed_of_startsWith hbracketed h, ?_⟩
  rintro rfl
  rw [hother] at h
  cases h

theorem bracketed_of_parse {parsed : String × String}
    (h : parseToolCallStarted text = some parsed) :
    bracketed text = true ∧ text ≠ thinkingAnimation := by
  apply bracketed_of_toolCall "[TOOL_CALL_STARTED:" (by decide) (by decide)
  by_contra hnot
  rw [parseToolCallStarted, if_neg hnot] at h
  cases h

theorem bracketed_toolCallStarted (toolName args : String) :
    bracketed (toolCallStarted toolName args) = true ∧
      toolCallStarted toolName args ≠ thinkingAnimation := by
  apply bracketed_of_toolCall "[TOOL_CALL_STARTED:" (by decide) (by decide)
  unfold toolCallStarted
  iterate 4 apply startsWith_append
  exact startsWith_self _

theorem bracketed_toolCallCompleted (toolName args result rawArguments : String) :
    bracketed (toolCallCompleted toolName args result rawArguments) = true ∧
      toolCallCompleted toolName args result rawArguments ≠ thinkingAnimation := by
  apply bracketed_of_toolCall "[TOOL_CALL_COMPLETED:" (by decide) (by decide)
  unfold toolCallCompleted
  iterate 8 apply startsWith_append
  exact startsWith_self _

theorem stays_showToolCallStarted (toolName formattedArgs : String) :
    Stays turn a (a.showToolCallStarted toolName formattedArgs) := by
  simp only [showToolCallStarted]
  split
  · refine ⟨tame_of_mode rfl, fun hbegun => hbegun.rewrite ?_⟩
    intro text new hreads
    obtain ⟨⟨startedTool, existingArgs⟩, hparse, hnew⟩ := bind_eq_some_iff.mp hreads
    dsimp only at hnew
    split at hnew
    · split at hnew
      · cases hnew
        exact bracketed_of_parse hparse
      · cases hnew
        exact bracketed_toolCallStarted toolName formattedArgs
    · cases hnew
  · exact stays_push (event_of_bracketed (bracketed_toolCallStarted toolName formattedArgs).1)

theorem stays_showToolCallCompleted (toolName result : String) :
    Stays turn a (a.showToolCallCompleted texts toolName result) := by
  simp only [showToolCallCompleted]
  split
  · refine ⟨tame_of_mode rfl, fun hbegun => hbegun.rewrite ?_⟩
    intro text new hreads
    obtain ⟨⟨startedTool, args⟩, hparse, hnew⟩ := bind_eq_some_iff.mp hreads
    dsimp only at hnew
    split at hnew
    · cases hnew
      exact bracketed_toolCallCompleted _ _ _ _
    · cases hnew
  · exact stays_push (event_of_bracketed (bracketed_toolCallCompleted _ _ _ _).1)

theorem stays_startOrchestration (texts : Texts Stats) (toolName result : String) :
    Stays turn a (a.startOrchestration texts toolName result) := by
  simp only [startOrchestration]
  split
  · split
    · exact ⟨tame_of_mode rfl, fun hbegun => hbegun.remove⟩
    · exact .refl a
  · exact .refl a

theorem stays_askForPath (texts : Texts Stats) (result : String) :
    Stays turn a (a.askForPath texts result) := by
  simp only [askForPath]
  split <;> exact ⟨tame_of_mode rfl, id⟩

theorem stays_animate : Stays turn a a.animate := ⟨tame_of_mode rfl, fun hbegun => hbegun.ensure _⟩

theorem stays_toolCompleted (toolName result : String) :
    Stays turn a (a.toolCompleted texts toolName result) := by
  have hshown : Stays turn a ((((a.askForPath texts result).startOrchestration texts toolName
      result).removePlaceholder).showToolCallCompleted texts toolName result) :=
    (((stays_askForPath texts result).trans (stays_startOrchestration texts toolName result)).trans
      stays_removePlaceholder).trans (stays_showToolCallCompleted toolName result)
  simp only [toolCompleted]
  split
  · exact hshown
  · exact hshown.trans stays_animate

theorem stays_failed (error : String) : Stays turn a (a.failed error) := by
  have hbracketed : bracketed ("[Error: " ++ error ++ "]") = true :=
    bracketed_append _ _ (bracketed_append "[Error: " _ (by decide))
  refine ⟨⟨rfl, ?_⟩, fun hbegun => hbegun.remove.push (event_of_bracketed hbracketed)⟩
  intro hstarted
  cases hstarted

theorem stays_doneInterrupted : Stays turn a (a.doneInterrupted texts).1 := by
  have hremoved : Stays turn a { a.removePlaceholder with
      thinkingIndicatorActive := false
      thinkingCurrentSummary := none } := ⟨tame_of_mode rfl, fun hbegun => hbegun.remove⟩
  have hmarked := hremoved.trans (stays_ensureGenerationStatsMarker texts)
  exact ⟨hmarked.tame, hmarked.rows⟩

theorem stays_handleInterrupted (message : AgentMessage Stats) :
    Stays turn a (a.handleInterrupted texts message).1 := by
  cases message with
  | generationStats stats => exact stays_generationStatsArrived texts stats
  | done => exact stays_doneInterrupted
  | thinkingContent | thinkingSummary | agentResponse | toolCallStarted | toolCallCompleted
  | requestApproval | error | contextCleared | contextInjected | modelLoaded => exact .refl a

/-- What neither responds, nor ends the turn, nor is about the model. -/
theorem stays_handleLive {full : Bool} {owner : Option Nat} {message : AgentMessage Stats}
    (hresponse : ∀ text, message ≠ .agentResponse text) (hdone : message.isDone = false)
    (hmodel : message ≠ .modelLoaded) :
    Stays turn a (a.handleLive texts full owner message).1 := by
  cases message with
  | agentResponse text => exact absurd rfl (hresponse text)
  | done => cases hdone
  | modelLoaded => exact absurd rfl hmodel
  | thinkingContent =>
    simp only [handleLive, thinkingContent]
    split
    · exact .refl a
    · split
      · exact .refl a
      · refine ⟨tame_of_mode rfl, fun hbegun => hbegun.push ?_⟩
        exact event_of_bracketed (by decide)
  | thinkingSummary text =>
    simp only [handleLive, thinkingSummary]
    split
    · exact .refl a
    · split
      · have hmoved : Stays turn a (a.removePlaceholder.flushSummary false).ensurePlaceholder :=
          (stays_removePlaceholder.trans (stays_flushSummary false)).trans stays_ensurePlaceholder
        exact ⟨hmoved.tame, hmoved.rows⟩
      · exact ⟨tame_of_mode rfl, id⟩
  | toolCallStarted toolName arguments =>
    have hflushed : Stays turn a { a.removePlaceholder.flushSummary false with
        lastToolArgs := some (toolName, arguments) } := by
      have hmoved : Stays turn a (a.removePlaceholder.flushSummary false) :=
        stays_removePlaceholder.trans (stays_flushSummary false)
      exact ⟨hmoved.tame, hmoved.rows⟩
    exact (hflushed.trans (stays_showToolCallStarted toolName _)).trans stays_animate
  | toolCallCompleted toolName result => exact stays_toolCompleted toolName result
  | requestApproval | contextInjected => exact ⟨tame_of_mode rfl, id⟩
  | error error => exact stays_failed error
  | generationStats stats => exact stays_generationStatsArrived texts stats
  | contextCleared =>
    simp only [handleLive, contextCleared]
    split <;> exact ⟨tame_of_mode rfl, id⟩


theorem pure_of_newer {rows rows' : List Row} (hnewer : Newer rows rows')
    (h : ∀ row ∈ rows, row.Pure turn) : ∀ row ∈ rows', row.Pure turn := by
  intro row hmem
  rcases hnewer row hmem with hold | hnone
  · exact h row hold
  · intro _ hwriter
    rw [hnone] at hwriter
    cases mem_singleton.mp hwriter

theorem showResponse_kept (htext : text ≠ thinkingAnimation)
    (hpure : ∀ row ∈ a.allRows, row.Pure turn)
    (hbegun : a.agentResponseStarted = true → Begun turn a.rows) :
    (∀ row ∈ (a.showResponse (some turn) text).allRows, row.Pure turn) ∧
      Begun turn (a.showResponse (some turn) text).rows ∧
      (a.showResponse (some turn) text).isCompacting = a.isCompacting := by
  have hrows : ∀ (rows : List Row) (row : Row), (∀ row ∈ rows, row ∈ a.allRows) →
      row.Pure turn → ∀ row' ∈ rows ++ [row] ++ a.rewindPoints.flatten, row'.Pure turn := by
    intro rows row hold hrow row' hmem
    rcases mem_append.mp hmem with hmem | hmem
    · rcases mem_append.mp hmem with hmem | hmem
      · exact hpure row' (hold row' hmem)
      · rw [mem_singleton.mp hmem]
        exact hrow
    · exact hpure row' (mem_append_right _ hmem)
  have honly : (⟨text, .agent, [some turn]⟩ : Row).OnlyOf turn := by
    intro writer hmem
    exact mem_singleton.mp hmem
  simp only [showResponse]
  split
  · refine ⟨hrows a.rows _ (fun row hmem => mem_append_left _ hmem) fun _ _ => honly,
      ⟨a.rows, [⟨text, .agent, [some turn]⟩], rfl, ⟨_, mem_singleton_self _, ?_⟩, ?_⟩, rfl⟩
    · rw [Bool.eq_false_iff]
      exact fun hyes => htext (isPlaceholder_iff.mp hyes)
    · intro row hmem _ _
      rw [mem_singleton.mp hmem]
      exact honly
  · rename_i hcreate
    simp only [Bool.or_eq_true, Bool.not_eq_true', not_or, Bool.not_eq_false,
      Bool.not_eq_true] at hcreate
    obtain ⟨hstarted, hlast⟩ := hcreate
    cases hrow : a.rows.getLast? with
    | none =>
      rw [hrow] at hlast
      cases hlast
    | some row =>
      have hevent : isEventLine row.text = false := by
        rw [hrow] at hlast
        exact hlast
      have honly' : ∀ more : Row, more = { row with
          text := row.text ++ text
          writers := row.writers ++ [some turn] } → more.plain = true → more.OnlyOf turn := by
        rintro more rfl hplain writer hmem
        rcases mem_append.mp hmem with hmem | hmem
        · exact (hbegun hstarted).last hrow hevent (plain_of_append hplain) writer hmem
        · exact mem_singleton.mp hmem
      have hshown : ({ row with
          text := row.text ++ text
          writers := row.writers ++ [some turn] } : Row).isPlaceholder = false := by
        rw [Bool.eq_false_iff]
        intro hyes
        have hsame : row.text ++ text = thinkingAnimation := isPlaceholder_iff.mp hyes
        by_cases hempty : row.text = ""
        · rw [hempty, String.empty_append] at hsame
          exact htext hsame
        · have hbracketed : bracketed (row.text ++ text) = true := bracketed_of_isPlaceholder hyes
          rw [isEventLine_of_bracketed (bracketed_of_append hempty hbracketed)] at hevent
          cases hevent
      simp only [appendResponse, hrow]
      refine ⟨hrows a.rows.dropLast _ ?_ fun hplain _ => honly' _ rfl hplain,
        (hbegun hstarted).exchange hshown fun hplain _ => honly' _ rfl hplain, trivial⟩
      intro row' hmem
      exact mem_append_left _ (mem_of_mem_dropLast hmem)

/-- A response of the turn keeps its rows apart from all others. -/
theorem agentResponse_kept (full : Bool) (htext : text ≠ thinkingAnimation)
    (hpure : ∀ row ∈ a.allRows, row.Pure turn)
    (hbegun : a.agentResponseStarted = true → Begun turn a.rows) :
    (∀ row ∈ (a.agentResponse (some turn) text full).1.allRows, row.Pure turn) ∧
      ((a.agentResponse (some turn) text full).1.agentResponseStarted = true →
        Begun turn (a.agentResponse (some turn) text full).1.rows) ∧
      (a.agentResponse (some turn) text full).1.isCompacting = a.isCompacting := by
  simp only [agentResponse]
  split
  · exact ⟨hpure, hbegun, rfl⟩
  · have hflushed : Stays turn a (a.removePlaceholder.flushSummary true) :=
      stays_removePlaceholder.trans (stays_flushSummary true)
    have hpure := pure_of_newer (newer_flushed true) hpure
    obtain ⟨hpure', hbegun', hcompacting⟩ := showResponse_kept htext hpure
      fun hstarted => hflushed.rows (hbegun (hflushed.tame.2 hstarted))
    refine ⟨pure_of_newer ?_ hpure', fun _ => hbegun'.ensure _, hcompacting.trans hflushed.tame.1⟩
    exact newer_of_rows (newer_ensurePlaceholder _) rfl

end App

end ColossalCode.Ui
