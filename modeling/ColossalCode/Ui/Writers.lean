import ColossalCode.Ui.Accounts

/-! Where the rows come from: but for responses, a row is an old one or no turn has written it. -/
namespace ColossalCode.Ui
open List Option

variable {Stats : Type*} {texts : Texts Stats}

def Newer (rows rows' : List Row) : Prop := ∀ row ∈ rows', row ∈ rows ∨ row.writers = [none]

section Rows

variable {rows rows' rows'' : List Row} {row : Row}

theorem Newer.refl (rows : List Row) : Newer rows rows := fun _ hmem => .inl hmem

theorem Newer.trans (h : Newer rows rows') (h' : Newer rows' rows'') : Newer rows rows'' := by
  intro row hmem
  rcases h' row hmem with hold | hnone
  · exact h row hold
  · exact .inr hnone

theorem Newer.append (h : Newer rows rows') {more : List Row}
    (hmore : ∀ row ∈ more, row.writers = [none]) : Newer rows (rows' ++ more) := by
  intro row hmem
  rcases mem_append.mp hmem with hmem | hmem
  · exact h row hmem
  · exact .inr (hmore row hmem)

theorem newer_push (hrow : row.writers = [none]) : Newer rows (rows ++ [row]) := by
  refine (Newer.refl rows).append ?_
  intro row' hmem
  rw [mem_singleton.mp hmem]
  exact hrow

theorem newer_of_sublist (h : rows'.Sublist rows) : Newer rows rows' :=
  fun _ hmem => .inl (h.subset hmem)

/-- What has been taken out is one element with the property, or nothing. -/
theorem removeLast_eq {α : Type*} (p : α → Bool) (xs : List α) :
    removeLast p xs = xs ∨ ∃ before x after, xs = before ++ x :: after ∧ p x = true ∧
      removeLast p xs = before ++ after := by
  rcases exists_or_eq_self_of_eraseP p xs.reverse with hnone | ⟨x, l₁, l₂, -, hx, hxs, herase⟩
  · left
    rw [removeLast, hnone, reverse_reverse]
  · right
    refine ⟨l₂.reverse, x, l₁.reverse, ?_, hx, ?_⟩
    · rw [← reverse_reverse xs, hxs]
      simp only [reverse_append, reverse_cons, append_assoc, singleton_append]
    · rw [removeLast, herase, reverse_append]

theorem removeLast_sublist {α : Type*} (p : α → Bool) (xs : List α) :
    (removeLast p xs).Sublist xs := by
  rcases removeLast_eq p xs with hsame | ⟨before, x, after, hxs, -, hremoved⟩
  · rw [hsame]
  · rw [hremoved, hxs]
    exact List.Sublist.append_left (sublist_cons_self x after) before

theorem newer_removePlaceholder (rows : List Row) :
    Newer rows (removeThinkingAnimationPlaceholder rows) :=
  newer_of_sublist (removeLast_sublist _ rows)

theorem newer_ensurePlaceholder (active : Bool) :
    Newer rows (ensureThinkingAnimationPlaceholder rows active) := by
  simp only [ensureThinkingAnimationPlaceholder]
  split
  · exact newer_push rfl
  · exact .refl rows

theorem newer_popPlaceholder : Newer rows (popPlaceholder rows) := by
  simp only [popPlaceholder]
  split
  · exact newer_of_sublist (dropLast_sublist rows)
  · exact .refl rows

variable (reads : String → Option String)

/-- One row has been rewritten, or none. -/
theorem rewriteLast_eq (rows : List Row) :
    rewriteLast reads rows = rows ∨ ∃ before row after text, rows = before ++ row :: after ∧
      reads row.text = some text ∧ rewriteLast reads rows = before ++ row.rewrite text :: after := by
  induction rows with
  | nil => exact .inl rfl
  | cons row rows ih =>
    simp only [rewriteLast]
    split
    · rcases ih with hsame | ⟨before, row', after, text, hrows, hreads, hnew⟩
      · exact .inl (congrArg (row :: ·) hsame)
      · refine .inr ⟨row :: before, row', after, text, ?_, hreads, ?_⟩
        · rw [hrows, cons_append]
        · rw [hnew, cons_append]
    · cases hreads : reads row.text with
      | none => exact .inl rfl
      | some text => exact .inr ⟨[], row, rows, text, rfl, hreads, rfl⟩

theorem rewrite_writers (row : Row) (text : String) :
    row.rewrite text = row ∨ (row.rewrite text).writers = [none] := by
  simp only [Row.rewrite]
  split
  · exact .inl rfl
  · exact .inr rfl

theorem newer_rewriteLast : Newer rows (rewriteLast reads rows) := by
  rcases rewriteLast_eq reads rows with hsame | ⟨before, row, after, text, hrows, -, hnew⟩
  · rw [hsame]
    exact .refl rows
  · intro row' hmem
    rw [hnew] at hmem
    rcases mem_append.mp hmem with hmem | hmem
    · exact .inl (hrows ▸ mem_append_left _ hmem)
    · rcases mem_cons.mp hmem with rfl | hmem
      · rcases rewrite_writers row text with hold | hnone
        · rw [hold, hrows]
          exact .inl (mem_append_right _ mem_cons_self)
        · exact .inr hnone
      · rw [hrows]
        exact .inl (mem_append_right _ (mem_cons_of_mem _ hmem))

theorem writers_map_agent (notices : List String) :
    ∀ row ∈ notices.map Row.agent, row.writers = [none] := by
  intro row hmem
  obtain ⟨text, -, rfl⟩ := mem_map.mp hmem
  rfl

end Rows

namespace App

/-- The rows of the transcript, and those that can be gone back to. -/
def allRows (a : App Stats) : List Row := a.rows ++ a.rewindPoints.flatten

variable {a b : App Stats}

theorem newer_of_rows (hrows : Newer a.rows b.rows) (hpoints : b.rewindPoints = a.rewindPoints) :
    Newer a.allRows b.allRows := by
  intro row hmem
  rcases mem_append.mp hmem with hmem | hmem
  · rcases hrows row hmem with hold | hnone
    · exact .inl (mem_append_left _ hold)
    · exact .inr hnone
  · rw [hpoints] at hmem
    exact .inl (mem_append_right _ hmem)

theorem newer_rows_flushSummary (isFinal : Bool) : Newer a.rows (a.flushSummary isFinal).rows := by
  simp only [flushSummary]
  split
  · exact newer_push rfl
  · exact .refl _

theorem newer_rows_ensureGenerationStatsMarker (texts : Texts Stats) :
    Newer a.rows (a.ensureGenerationStatsMarker texts).rows := by
  simp only [ensureGenerationStatsMarker]
  split
  · exact .refl _
  · split
    · exact .refl _
    · split
      · exact .refl _
      · exact newer_push rfl

theorem newer_generationStatsArrived (stats : Stats) :
    Newer a.allRows (a.generationStatsArrived texts stats).allRows := by
  simp only [generationStatsArrived]
  split
  · exact newer_of_rows (newer_rows_ensureGenerationStatsMarker texts)
      (redrawn_ensureGenerationStatsMarker texts).rewindPoints
  · exact .refl _

/-- A rewind point has rows of the transcript. -/
theorem newer_createRewindPoint : Newer a.allRows a.createRewindPoint.allRows := by
  have hpoints : ∀ points : List (List Row), points.Sublist (a.rewindPoints ++ [a.rows]) →
      Newer a.allRows (a.rows ++ points.flatten) := by
    intro points hsub row hmem
    left
    rcases mem_append.mp hmem with hmem | hmem
    · exact mem_append_left _ hmem
    · obtain ⟨point, hpoint, hrow⟩ := mem_flatten.mp hmem
      rcases mem_append.mp (hsub.subset hpoint) with hold | hnew
      · exact mem_append_right _ (mem_flatten.mpr ⟨point, hold, hrow⟩)
      · rw [mem_singleton.mp hnew] at hrow
        exact mem_append_left _ hrow
  simp only [createRewindPoint]
  split
  · exact .refl _
  · split
    · exact hpoints _ (tail_sublist _)
    · exact hpoints _ (List.Sublist.refl _)

theorem newer_compacted (summary : Row) : Newer a.allRows (a.compacted summary).allRows := by
  intro row hmem
  rcases mem_append.mp hmem with hmem | hmem
  · refine .inr ?_
    have hrow : row ∈ compactedRows a.isAutoSummarize := hmem
    simp only [compactedRows, mem_cons, not_mem_nil, or_false] at hrow
    rcases hrow with rfl | rfl | rfl <;> rfl
  · exact newer_createRewindPoint row (mem_append_right _ hmem)

theorem newer_flushed (isFinal : Bool) :
    Newer a.allRows (a.removePlaceholder.flushSummary isFinal).allRows := by
  refine newer_of_rows ((newer_removePlaceholder _).trans ?_) ?_
  · exact newer_rows_flushSummary (a := a.removePlaceholder) isFinal
  · exact (redrawn_flushSummary (a := a.removePlaceholder) isFinal).rewindPoints

theorem newer_finish : Newer a.allRows a.finish.allRows := newer_flushed true

theorem newer_done : Newer a.allRows (a.done texts).1.allRows := by
  simp only [done]
  split
  · refine newer_finish.trans ?_
    simp only [finishCompaction]
    split
    · exact newer_of_rows (newer_push rfl) rfl
    · exact newer_compacted _
  · split
    · refine newer_finish.trans (newer_of_rows ?_ ?_)
      · refine Newer.trans ?_ (newer_rows_ensureGenerationStatsMarker texts)
        refine (Newer.refl _).append ?_
        intro row hmem
        simp only [interruptedRows, mem_cons, not_mem_nil, or_false] at hmem
        rcases hmem with rfl | rfl <;> rfl
      · exact (redrawn_ensureGenerationStatsMarker texts).rewindPoints
    · exact newer_finish.trans (newer_of_rows (newer_rows_ensureGenerationStatsMarker texts)
        (redrawn_ensureGenerationStatsMarker texts).rewindPoints)

theorem newer_startOrchestration (toolName result : String) :
    Newer a.allRows (a.startOrchestration texts toolName result).allRows := by
  simp only [startOrchestration]
  split
  · split
    · exact newer_of_rows (newer_removePlaceholder _) rfl
    · exact .refl _
  · exact .refl _

theorem newer_showToolCallStarted (toolName formattedArgs : String) :
    Newer a.allRows (a.showToolCallStarted toolName formattedArgs).allRows := by
  simp only [showToolCallStarted]
  split
  · exact newer_of_rows (newer_rewriteLast _) rfl
  · exact newer_of_rows (newer_push rfl) rfl

theorem newer_showToolCallCompleted (toolName result : String) :
    Newer a.allRows (a.showToolCallCompleted texts toolName result).allRows := by
  simp only [showToolCallCompleted]
  split
  · exact newer_of_rows (newer_rewriteLast _) rfl
  · exact newer_of_rows (newer_push rfl) rfl

theorem newer_askForPath (texts : Texts Stats) (result : String) :
    Newer a.allRows (a.askForPath texts result).allRows := by
  simp only [askForPath]
  split <;> exact .refl _

theorem newer_animate : Newer a.allRows a.animate.allRows :=
  newer_of_rows (newer_ensurePlaceholder true) rfl

theorem newer_toolCompleted (toolName result : String) :
    Newer a.allRows (a.toolCompleted texts toolName result).allRows := by
  have hremoved : ∀ b : App Stats, Newer b.allRows b.removePlaceholder.allRows := by
    intro b
    exact newer_of_rows (newer_removePlaceholder _) rfl
  have hshown : Newer a.allRows ((((a.askForPath texts result).startOrchestration texts toolName
      result).removePlaceholder).showToolCallCompleted texts toolName result).allRows :=
    (((newer_askForPath texts result).trans (newer_startOrchestration toolName result)).trans
      (hremoved _)).trans (newer_showToolCallCompleted toolName result)
  simp only [toolCompleted]
  split
  · exact hshown
  · exact hshown.trans newer_animate

/-- All messages but the responses leave old rows, and rows that no turn has written. -/
theorem newer_handle {full : Bool} {turn : Option Nat} {message : AgentMessage Stats}
    (hmessage : ∀ text, message ≠ .agentResponse text) :
    Newer a.allRows (a.handle texts full turn message).1.allRows := by
  simp only [handle]
  split
  · cases message with
    | generationStats stats => exact newer_generationStatsArrived stats
    | done =>
      refine newer_of_rows ((newer_removePlaceholder _).trans ?_) ?_
      · exact newer_rows_ensureGenerationStatsMarker (a := { a.removePlaceholder with
          thinkingIndicatorActive := false, thinkingCurrentSummary := none }) texts
      · exact (redrawn_ensureGenerationStatsMarker (a := { a.removePlaceholder with
          thinkingIndicatorActive := false, thinkingCurrentSummary := none }) texts).rewindPoints
    | thinkingContent | thinkingSummary | agentResponse | toolCallStarted | toolCallCompleted
    | requestApproval | error | contextCleared | contextInjected | modelLoaded => exact .refl _
  · split
    · exact .refl _
    · cases message with
      | agentResponse text => exact absurd rfl (hmessage text)
      | thinkingContent =>
        simp only [handleLive, thinkingContent]
        split
        · exact .refl _
        · split
          · exact .refl _
          · exact newer_of_rows (newer_push rfl) rfl
      | thinkingSummary text =>
        simp only [handleLive, thinkingSummary]
        split
        · exact .refl _
        · split
          · exact (newer_flushed false).trans (newer_of_rows (newer_ensurePlaceholder _) rfl)
          · exact .refl _
      | toolCallStarted toolName arguments =>
        refine (newer_flushed false).trans ?_
        exact (newer_showToolCallStarted (a := { a.removePlaceholder.flushSummary false with
          lastToolArgs := some (toolName, arguments) }) toolName _).trans newer_animate
      | toolCallCompleted toolName result => exact newer_toolCompleted toolName result
      | requestApproval | contextInjected => exact .refl _
      | error error =>
        refine newer_of_rows ((newer_removePlaceholder _).trans ?_) rfl
        exact newer_push rfl
      | generationStats stats => exact newer_generationStatsArrived stats
      | contextCleared =>
        simp only [handleLive, contextCleared]
        split <;> exact .refl _
      | modelLoaded => exact newer_of_rows (newer_push rfl) rfl
      | done => exact newer_done

theorem newer_push_row (row : Row) (hrow : row.writers = [none]) :
    Newer a.allRows (a.push row).allRows := newer_of_rows (newer_push hrow) rfl

theorem newer_pushNotices (notices : List String) : Newer a.allRows (a.pushNotices notices).allRows :=
  newer_of_rows ((Newer.refl _).append (writers_map_agent notices)) rfl

theorem newer_startTurn (message : String) : Newer a.allRows (a.startTurn message).allRows :=
  newer_of_rows (newer_push rfl) rfl

variable (command : String)

@[simp] theorem rows_saveToHistory : (a.saveToHistory command).rows = a.rows := by
  simp only [saveToHistory]
  split <;> rfl

@[simp] theorem points_saveToHistory : (a.saveToHistory command).rewindPoints = a.rewindPoints :=
  (redrawn_saveToHistory command).rewindPoints

theorem newer_saveToHistory : Newer a.allRows (a.saveToHistory command).allRows := by
  rw [allRows, allRows, rows_saveToHistory, points_saveToHistory]
  exact .refl _

theorem newer_runCommand :
    Newer a.allRows (a.runCommand texts command).allRows := by
  simp only [runCommand]
  split
  · refine newer_of_rows ?_ rfl
    intro row hmem
    simp only [mem_cons, not_mem_nil, or_false] at hmem
    right
    rcases hmem with rfl | rfl <;> rfl
  · exact newer_push_row _ rfl
  · split
    · exact newer_push_row _ rfl
    · exact .refl _
  · exact .refl _
  · exact newer_pushNotices _

theorem newer_handleSlashCommand : Newer a.allRows (a.handleSlashCommand texts).allRows := by
  have hpushed := newer_push_row (a := a) (.user (Text.trim a.input)) rfl
  exact hpushed.trans (newer_runCommand (a := (a.push (.user (Text.trim a.input))).clearInput) _)

theorem newer_pushAbove {notices : List Row} (hnotices : ∀ row ∈ notices, row.writers = [none]) :
    Newer a.allRows (a.pushAbove notices).allRows := by
  have hpushed := (newer_removePlaceholder a.rows).append hnotices
  simp only [pushAbove]
  split
  · exact newer_of_rows (hpushed.trans (newer_ensurePlaceholder _)) rfl
  · exact newer_of_rows hpushed rfl

theorem newer_cancelPrompted : Newer a.allRows a.cancelPrompted.allRows :=
  newer_of_rows ((newer_removePlaceholder _).trans (newer_push rfl)) rfl

theorem newer_answerQueueChoice : Newer a.allRows a.answerQueueChoice.allRows := by
  simp only [answerQueueChoice]
  split
  · refine newer_of_rows ?_ ?_
    · simp only [closeQueueChoice, clearInput, enqueue, rows_saveToHistory]
      exact .refl _
    · simp only [closeQueueChoice, clearInput, enqueue, points_saveToHistory]
  · exact newer_of_rows newer_popPlaceholder rfl
  · exact .refl _
  · exact .refl _

theorem newer_answerApproval : Newer a.allRows a.answerApproval.allRows := by
  have habove : ∀ (b : App Stats) (text : String),
      Newer b.allRows (b.pushAbove [.agent text]).allRows := by
    intro b text
    apply newer_pushAbove
    intro row hmem
    rw [mem_singleton.mp hmem]
    rfl
  simp only [answerApproval]
  split
  · exact habove (a.tell (.approvalResponse true)) _
  · split
    · exact habove (a.tell (.approvalResponse false)) _
    · split
      · exact newer_cancelPrompted (a := a.tell (.approvalResponse false))
      · exact .refl _

theorem newer_answerSandbox (blockedPath : String) :
    Newer a.allRows (a.answerSandbox blockedPath).allRows := by
  simp only [answerSandbox]
  split
  · refine newer_pushAbove ?_
    intro row hmem
    simp only [mem_cons, not_mem_nil, or_false] at hmem
    rcases hmem with rfl | rfl <;> rfl
  · split
    · refine newer_pushAbove ?_
      intro row hmem
      rw [mem_singleton.mp hmem]
      rfl
    · split
      · exact newer_cancelPrompted
      · exact .refl _

theorem newer_submitTyped : Newer a.allRows a.submitTyped.allRows := by
  refine newer_of_rows ?_ ?_
  · simp only [submitTyped, startTurn, tell, push, rows_saveToHistory, clearInput]
    exact (newer_push rfl).trans (newer_push rfl)
  · simp only [submitTyped, startTurn, tell, push, points_saveToHistory, clearInput]

theorem newer_submitMessage (survey : Bool) (blockedPath : String) :
    Newer a.allRows (a.submitMessage texts survey blockedPath).allRows := by
  simp only [submitMessage]
  split
  · exact .refl _
  · split
    · exact .refl _
    · split
      · exact newer_answerQueueChoice
      · split
        · exact newer_answerApproval
        · split
          · exact newer_answerSandbox blockedPath
          · split
            · exact .refl _
            · split
              · exact .refl _
              · split
                · exact newer_handleSlashCommand
                · exact newer_submitTyped

theorem newer_escape : Newer a.allRows a.escape.allRows := by
  simp only [escape]
  split
  · refine newer_of_rows ((newer_removePlaceholder _).trans
      ((newer_rows_flushSummary (a := a.removePlaceholder) true).append ?_)) ?_
    · intro row hmem
      simp only [interruptedRows, mem_cons, not_mem_nil, or_false] at hmem
      rcases hmem with rfl | rfl <;> rfl
    · exact (redrawn_flushSummary (a := a.removePlaceholder) true).rewindPoints
  · exact .refl _

theorem newer_ctrlC : Newer a.allRows a.ctrlC.allRows := by
  simp only [ctrlC]
  split
  · exact .refl _
  · split
    · split <;> exact .refl _
    · exact .refl _

theorem newer_recallItem (idx : Nat) : Newer a.allRows (a.recallItem idx).allRows := by
  simp only [recallItem]
  split
  · split <;> exact .refl _
  · split <;> exact .refl _

theorem newer_rewind (selected : Nat) (preview : String) :
    Newer a.allRows (a.rewind selected preview).allRows := by
  simp only [rewind]
  split
  · rename_i point hpoint
    intro row hmem
    rcases mem_append.mp hmem with hmem | hmem
    · rcases mem_append.mp hmem with hmem | hmem
      · exact .inl (mem_append_right _
          (mem_flatten.mpr ⟨point, mem_of_getElem? hpoint, hmem⟩))
      · rw [mem_singleton.mp hmem]
        exact .inr rfl
    · obtain ⟨point', hpoint', hrow⟩ := mem_flatten.mp hmem
      exact .inl (mem_append_right _
        (mem_flatten.mpr ⟨point', mem_of_mem_take hpoint', hrow⟩))
  · exact .refl _

theorem newer_press (texts : Texts Stats) (key : Key) :
    Newer a.allRows (a.press texts key).allRows := by
  cases key with
  | type => exact .refl _
  | submit survey blockedPath => exact newer_submitMessage survey blockedPath
  | escape => exact newer_escape
  | ctrlC => exact newer_ctrlC
  | up =>
    simp only [press, navigateHistoryBackwards]
    split
    · exact .refl _
    · split
      · exact newer_recallItem (a := { a with
          tempInput := some a.input, historyIndex := some (a.totalItems - 1) }) _
      · exact .refl _
      · rename_i idx _
        exact newer_recallItem (a := { a with historyIndex := some idx }) idx
  | down =>
    simp only [press, navigateHistoryForwards]
    split
    · exact .refl _
    · rename_i idx _
      split
      · exact newer_recallItem (a := { a with historyIndex := some (idx + 1) }) (idx + 1)
      · exact .refl _
  | rewind selected preview => exact newer_rewind selected preview
  | panel notices => exact newer_pushNotices notices

theorem newer_orchestrationEnded (error : Option String) :
    Newer a.allRows (a.orchestrationEnded error).allRows := by
  cases error with
  | none => exact .refl _
  | some error => exact newer_push_row _ rfl

theorem newer_maybeSendCompactionResumePrompt :
    Newer a.allRows a.maybeSendCompactionResumePrompt.allRows := by
  simp only [maybeSendCompactionResumePrompt]
  split
  · exact .refl _
  · split
    · exact .refl _
    · rename_i prompt _
      have hpushed := newer_push_row (a := a) (.user prompt) rfl
      exact hpushed.trans (newer_startTurn prompt)

theorem newer_part (texts : Texts Stats) (outcome : Outcome) (found : Found) (part : Part) :
    Newer a.allRows (a.part texts outcome found part).1.allRows := by
  refine part_cases (P := fun b => Newer a.allRows b.allRows) part (.refl _) ?_
    newer_createRewindPoint (newer_of_rows newer_popPlaceholder rfl) ?_ (newer_push_row _ rfl)
    newer_maybeSendCompactionResumePrompt ?_ (newer_pushNotices _) ?_ ?_ ?_
  · intro message
    simp only [processInterrupt]
    split
    · exact newer_handleSlashCommand (a := { a with input := message })
    · exact ((newer_push_row _ rfl).trans (newer_saveToHistory message)).trans
        (newer_startTurn message)
  · rw [autoSummarize]
    split <;> exact .refl _
  · intro _
    simp only [processQueued]
    split
    · exact .refl _
    · split
      · exact .refl _
      · split
        · rename_i queued rest _ _ _
          exact newer_handleSlashCommand (a := { a with
            queuedMessages := rest
            ledger := { a.ledger with handed := a.ledger.handed ++ [queued] }
            input := queued.text })
        · refine newer_of_rows ?_ rfl
          exact (newer_push rfl).trans (newer_push rfl)
  · simp only [processReview]
    split
    · exact .refl _
    · split
      · exact newer_push_row _ rfl
      · refine newer_of_rows ?_ rfl
        exact (newer_push rfl).trans (newer_push rfl)
  · intro _
    simp only [startCompaction]
    split
    · exact .refl _
    · exact newer_of_rows (newer_push rfl) rfl
  · simp only [App.part]
    cases found.loaded with
    | none => exact .refl _
    | some loaded =>
      refine newer_of_rows ?_ rfl
      intro row hmem
      obtain ⟨entry, -, rfl⟩ := mem_map.mp hmem
      exact .inr rfl

end App

end ColossalCode.Ui
