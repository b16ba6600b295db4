import ColossalCode.Ui.Queue
import Mathlib.Data.List.Nodup

/-! Queued messages are delivered in order, once, and with the texts wanted for them. -/
namespace ColossalCode.Ui
open List Option App

open Transition
open Text (startsWith trim)

variable {Stats : Type*} {texts : Texts Stats}

/-- The entries that have been handed over and those that wait, one after the other. -/
structure InLine (a : App Stats) : Prop where
  order : a.ledger.handed.map Queued.entry ++ a.queuedMessages.map Queued.entry =
    (List.range a.ledger.wanted.length).filter fun entry => !a.ledger.dropped.contains entry
  texts : ∀ queued ∈ a.ledger.handed ++ a.queuedMessages,
    a.ledger.wanted[queued.entry]? = some queued.text
  dropped : ∀ entry ∈ a.ledger.dropped, entry < a.ledger.wanted.length

theorem filter_dropped (dropped entries : List Nat) (entry : Nat) :
    (entries.filter fun other => !(dropped ++ [entry]).contains other) =
      (entries.filter fun other => !dropped.contains other).filter (· ≠ entry) := by
  rw [List.filter_filter]
  apply List.filter_congr
  intro other _
  simp only [List.contains_eq_mem, List.mem_append, List.mem_singleton, ne_eq, decide_not]
  by_cases hsame : other = entry
  · simp only [hsame, or_true, decide_true, Bool.not_true, Bool.false_and]
  · simp only [hsame, or_false, decide_false, Bool.not_false, Bool.true_and]

/-- An entry that occurs once is taken out. -/
theorem filter_ne_of_nodup {before after : List Nat} {entry : Nat}
    (h : (before ++ entry :: after).Nodup) :
    (before ++ entry :: after).filter (· ≠ entry) = before ++ after := by
  have hbefore : entry ∉ before := fun hmem =>
    (nodup_append.mp h).2.2 entry hmem entry mem_cons_self rfl
  have herase := h.erase_eq_filter entry
  rw [erase_append_right _ hbefore, erase_cons_head] at herase
  simp only [ne_eq, decide_not]
  exact herase.symm

section InLine

variable {a b : App Stats}

theorem InLine.leaves (h : InLine a) (hleaves : App.Leaves a b) : InLine b := by
  obtain ⟨hqueue, hwanted, hdropped, hhanded, -⟩ := hleaves
  refine ⟨?_, ?_, ?_⟩
  · rw [hqueue, hwanted, hdropped, hhanded]
    exact h.order
  · rw [hqueue, hwanted, hhanded]
    exact h.texts
  · rw [hwanted, hdropped]
    exact h.dropped

theorem InLine.nodup (h : InLine a) :
    (a.ledger.handed.map Queued.entry ++ a.queuedMessages.map Queued.entry).Nodup := by
  rw [h.order]
  exact nodup_range.filter _

theorem InLine.enqueue (h : InLine a) (message : String) : InLine (a.enqueue message) := by
  have hfresh : a.ledger.dropped.contains a.ledger.wanted.length = false := by
    rw [contains_eq_mem, decide_eq_false_iff_not]
    intro hmem
    exact Nat.lt_irrefl _ (h.dropped _ hmem)
  refine ⟨?_, ?_, ?_⟩
  · simp only [App.enqueue, map_append, map_cons, map_nil, length_append,
      length_singleton]
    rw [range_succ, filter_append, ← h.order, append_assoc,
      filter_cons_of_pos (by rw [hfresh]; rfl), filter_nil]
  · intro queued hmem
    simp only [App.enqueue, ← append_assoc] at hmem ⊢
    rcases mem_append.mp hmem with hmem | hmem
    · have hbefore := h.texts queued hmem
      rw [List.getElem?_append_left (List.getElem?_eq_some_iff.mp hbefore).1]
      exact hbefore
    · rw [mem_singleton.mp hmem]
      exact List.getElem?_concat_length
  · intro entry hmem
    have hbefore := h.dropped entry hmem
    simp only [App.enqueue, length_append, length_singleton]
    omega

variable {before after : List Queued}

/-- The entry at an index is the only one with its number. -/
theorem InLine.entry_ne (h : InLine a) {queued other : Queued}
    (hqueue : a.queuedMessages = before ++ queued :: after)
    (hmem : other ∈ a.ledger.handed ∨ other ∈ before ∨ other ∈ after) :
    other.entry ≠ queued.entry := by
  have hnodup := h.nodup
  rw [hqueue, map_append, map_cons, ← append_assoc, nodup_middle,
    nodup_cons, mem_append, mem_append, not_or, not_or] at hnodup
  obtain ⟨⟨⟨hhanded, hbefore⟩, hafter⟩, -⟩ := hnodup
  intro hsame
  rcases hmem with hmem | hmem | hmem
  · exact hhanded (hsame ▸ mem_map_of_mem hmem)
  · exact hbefore (hsame ▸ mem_map_of_mem hmem)
  · exact hafter (hsame ▸ mem_map_of_mem hmem)

/-- What an index stands for that fits. -/
theorem Fits.cases {idx : Nat} (h : Fits a idx) :
    (a.queuedMessages[idx]? = none ∧ ∀ entry, a.ledger.editing = some entry →
      (a.queuedMessages.any fun queued => queued.entry = entry) = false) ∨
    ∃ before queued after, a.queuedMessages = before ++ queued :: after ∧ before.length = idx ∧
      a.ledger.editing = some queued.entry := by
  rw [Fits] at h
  cases hqueued : a.queuedMessages[idx]? with
  | none =>
    refine .inl ⟨rfl, ?_⟩
    intro entry hediting
    rw [hqueued, hediting, map_none] at h
    by_contra hin
    rw [filter_some, if_pos (Bool.not_eq_false _ ▸ hin)] at h
    cases h
  | some queued =>
    right
    rw [hqueued, map_some] at h
    obtain ⟨hediting, -⟩ := filter_eq_some_iff.mp h.symm
    obtain ⟨hlt, hget⟩ := List.getElem?_eq_some_iff.mp hqueued
    refine ⟨a.queuedMessages.take idx, queued, a.queuedMessages.drop (idx + 1), ?_, ?_, hediting⟩
    · rw [← hget, getElem_cons_drop, take_append_drop]
    · rw [length_take]
      omega

/-- The edited text is the one that is wanted for the entry at the index. -/
theorem InLine.commitEdit (h : InLine a) {idx : Nat} (hfits : Fits a idx) :
    InLine (a.commitEdit idx) := by
  rcases hfits.cases with ⟨hnone, hsent⟩ | ⟨before, queued, after, hqueue, hlength, hediting⟩
  · have hsame : a.queuedMessages.modify idx (fun queued => { queued with text := a.input }) =
        a.queuedMessages := by
      apply modify_eq_self
      exact List.getElem?_eq_none_iff.mp hnone
    have hwanted : (a.commitEdit idx).ledger.wanted = a.ledger.wanted := by
      simp only [App.commitEdit]
      split
      · rename_i entry hediting
        rw [hsent entry hediting]
        rfl
      · rfl
    exact h.leaves ⟨hsame, hwanted, rfl, rfl, id⟩
  · have hmodified : (a.commitEdit idx).queuedMessages =
        before ++ { queued with text := a.input } :: after := by
      simp only [App.commitEdit, hqueue, ← hlength]
      rw [modify_eq_take_drop, take_left, drop_left]
      rfl
    have hwanted : (a.commitEdit idx).ledger.wanted = a.ledger.wanted.set queued.entry a.input := by
      have hin : (a.queuedMessages.any fun other => other.entry = queued.entry) = true := by
        rw [hqueue]
        simp
      simp only [App.commitEdit, hediting, hin, if_true]
    have hold : queued ∈ a.ledger.handed ++ a.queuedMessages := by
      rw [hqueue]
      simp
    have hlt := (List.getElem?_eq_some_iff.mp (h.texts queued hold)).1
    have hother : ∀ other ∈ a.ledger.handed ++ a.queuedMessages, other.entry ≠ queued.entry →
        (a.ledger.wanted.set queued.entry a.input)[other.entry]? = some other.text := by
      intro other hmem hne
      rw [List.getElem?_set_ne (Ne.symm hne)]
      exact h.texts other hmem
    refine ⟨?_, ?_, ?_⟩
    · have horder := h.order
      rw [hqueue] at horder
      rw [hmodified, hwanted, length_set]
      simpa only [map_append, map_cons, App.commitEdit] using horder
    · intro other hmem
      rw [hmodified, hwanted] at *
      have hhanded : (a.commitEdit idx).ledger.handed = a.ledger.handed := rfl
      rw [hhanded] at hmem
      have hout : other ∈ a.ledger.handed ∨ other ∈ before ∨ other ∈ after →
          other.entry ≠ queued.entry := h.entry_ne hqueue
      simp only [mem_append, mem_cons] at hmem
      rcases hmem with hmem | hmem | rfl | hmem
      · exact hother other (mem_append_left _ hmem) (hout (.inl hmem))
      · refine hother other (mem_append_right _ ?_) (hout (.inr (.inl hmem)))
        rw [hqueue]
        exact mem_append_left _ hmem
      · exact List.getElem?_set_self hlt
      · refine hother other (mem_append_right _ ?_) (hout (.inr (.inr hmem)))
        rw [hqueue]
        exact mem_append_right _ (mem_cons_of_mem _ hmem)
    · intro entry hmem
      rw [hwanted, length_set]
      exact h.dropped entry hmem

/-- A message that waits is taken back. -/
theorem InLine.remove (h : InLine a) {queued : Queued}
    (hqueue : a.queuedMessages = before ++ queued :: after)
    (hbqueue : b.queuedMessages = before ++ after) (hwanted : b.ledger.wanted = a.ledger.wanted)
    (hdropped : b.ledger.dropped = a.ledger.dropped ++ [queued.entry])
    (hhanded : b.ledger.handed = a.ledger.handed) : InLine b := by
  refine ⟨?_, ?_, ?_⟩
  · have hnodup := h.nodup
    have horder := h.order
    rw [hqueue, map_append, map_cons, ← append_assoc] at hnodup horder
    rw [hwanted, hdropped, hhanded, hbqueue, filter_dropped, ← horder, filter_ne_of_nodup hnodup,
      map_append, append_assoc]
  · intro other hmem
    rw [hwanted]
    apply h.texts
    rw [hhanded, hbqueue] at hmem
    rw [hqueue]
    simp only [mem_append, mem_cons] at hmem ⊢
    tauto
  · intro entry hmem
    rw [hdropped] at hmem
    rw [hwanted]
    rcases mem_append.mp hmem with hmem | hmem
    · exact h.dropped entry hmem
    · rw [mem_singleton.mp hmem]
      have hold : queued ∈ a.ledger.handed ++ a.queuedMessages := by
        rw [hqueue]
        simp
      exact (List.getElem?_eq_some_iff.mp (h.texts queued hold)).1

theorem InLine.ctrlC (h : InLine a) (hfits : ∀ idx, a.editingQueueIndex = some idx → Fits a idx) :
    InLine a.ctrlC := by
  simp only [App.ctrlC]
  split
  · rename_i idx hidx
    rcases (hfits idx hidx).cases with
      ⟨hnone, hsent⟩ | ⟨before, queued, after, hqueue, hlength, hediting⟩
    · have hsame : a.queuedMessages.eraseIdx idx = a.queuedMessages :=
        eraseIdx_of_length_le (List.getElem?_eq_none_iff.mp hnone)
      refine h.leaves ⟨hsame, rfl, ?_, rfl, id⟩
      dsimp only
      split
      · rename_i entry hediting
        rw [hsent entry hediting]
        rfl
      · rfl
    · refine h.remove hqueue ?_ rfl ?_ rfl
      · dsimp only
        rw [hqueue, eraseIdx_append_of_length_le (by omega), hlength, Nat.sub_self]
        rfl
      · have hin : (a.queuedMessages.any fun other => other.entry = queued.entry) = true := by
          rw [hqueue]
          simp
        simp only [hediting, hin, if_true]
  · split
    · split
      · rename_i queued hlast
        obtain ⟨before, hqueue⟩ := List.getLast?_eq_some_iff.mp hlast
        have hsplit : a.queuedMessages = before ++ queued :: [] := hqueue
        refine h.remove hsplit ?_ rfl rfl rfl
        dsimp only
        rw [hqueue, dropLast_concat, append_nil]
      · exact h
    · exact h.leaves (App.leaves_of_desk rfl)

/-- The first message is handed over. -/
theorem InLine.processQueued (h : InLine a) (texts : Texts Stats) : InLine (a.processQueued texts) := by
  simp only [App.processQueued]
  split
  · exact h
  · rename_i queued rest hqueue
    have htaken : InLine { a with
        queuedMessages := rest
        ledger := { a.ledger with handed := a.ledger.handed ++ [queued] } } := by
      refine ⟨?_, ?_, h.dropped⟩
      · have horder := h.order
        rw [hqueue] at horder
        dsimp only
        rw [map_append, append_assoc]
        exact horder
      · intro other hmem
        apply h.texts
        rw [hqueue]
        simp only [mem_append, mem_cons, not_mem_nil, or_false] at hmem ⊢
        tauto
    split
    · exact h
    · split
      · exact htaken.leaves (App.leaves_of_desk App.held_handleSlashCommand.2)
      · exact htaken.leaves (App.leaves_of_desk rfl)

end InLine

section Keys

variable {a : App Stats}

/-- A submission commits an edit, queues a message, or leaves the queue alone. -/
theorem submitMessage_queue (texts : Texts Stats) (survey : Bool) (blockedPath : String) :
    App.Leaves a (a.submitMessage texts survey blockedPath) ∨
      (∃ idx, a.editingQueueIndex = some idx ∧ a.input ≠ "" ∧
        a.submitMessage texts survey blockedPath = a.commitEdit idx) ∨
      (a.editingQueueIndex = none ∧ a.showQueueChoice = true ∧
        parseQueueChoice a.input = some .queue ∧
          App.Leaves (a.enqueue a.queueChoiceInput) (a.submitMessage texts survey blockedPath)) := by
  simp only [submitMessage]
  split
  · exact .inl (leaves_of_desk rfl)
  · rename_i hinput
    split
    · rename_i idx hediting
      refine .inr (.inl ⟨idx, hediting, ?_, rfl⟩)
      rintro hempty
      rw [hempty] at hinput
      exact hinput rfl
    · rename_i hediting
      split
      · rename_i hchoice
        simp only [answerQueueChoice]
        split
        · rename_i hparse
          refine .inr (.inr ⟨hediting, hchoice, hparse, leaves_of_desk ?_⟩)
          have hsaved := (redrawn_saveToHistory (a := a) a.queueChoiceInput).desk
          simp only [desk, Prod.mk.injEq] at hsaved
          simp only [desk, closeQueueChoice, clearInput, enqueue, hsaved]
        · exact .inl (leaves_of_desk rfl)
        · exact .inl (leaves_of_desk rfl)
        · exact .inl (leaves_of_desk rfl)
      · split
        · exact .inl (leaves_of_desk held_answerApproval.2)
        · split
          · exact .inl (leaves_of_desk (held_answerSandbox blockedPath).2)
          · split
            · exact .inl (leaves_of_desk rfl)
            · split
              · exact .inl (leaves_of_desk rfl)
              · split
                · exact .inl (leaves_of_desk held_handleSlashCommand.2)
                · exact .inl (leaves_of_desk desk_submitTyped)

theorem leaves_press (texts : Texts Stats) {key : Key} (hsubmit : ∀ survey path, key ≠ .submit survey path)
    (hctrlC : key ≠ .ctrlC) : App.Leaves a (a.press texts key) := by
  cases key with
  | submit survey path => exact absurd rfl (hsubmit survey path)
  | ctrlC => exact absurd rfl hctrlC
  | type | panel => exact leaves_of_desk rfl
  | escape => exact leaves_of_desk held_escape.2
  | up => exact leaves_of_desk redrawn_navigateHistoryBackwards.desk
  | down => exact leaves_of_desk redrawn_navigateHistoryForwards.desk
  | rewind selected preview =>
    simp only [press, rewind]
    split <;> exact leaves_of_desk rfl

theorem orchestrationInProgress_ctrlC : a.ctrlC.orchestrationInProgress = a.orchestrationInProgress := by
  simp only [ctrlC]
  split
  · rfl
  · split
    · split <;> rfl
    · rfl

/-- A key ends no orchestration, and without queueing it leaves an empty queue empty. -/
theorem press_queue (texts : Texts Stats) (key : Key) :
    (a.orchestrationInProgress = true → (a.press texts key).orchestrationInProgress = true) ∧
      ((∀ survey path, key = .submit survey path → a.editingQueueIndex = none →
        a.showQueueChoice = true → parseQueueChoice a.input ≠ some .queue) →
          a.queuedMessages = [] → (a.press texts key).queuedMessages = []) := by
  by_cases hctrlC : key = .ctrlC
  · subst hctrlC
    refine ⟨orchestrationInProgress_ctrlC.trans, ?_⟩
    intro _ hempty
    simp only [press, ctrlC]
    split
    · dsimp only
      rw [hempty, eraseIdx_nil]
    · split
      · split
        · dsimp only
          rw [hempty, dropLast_nil]
        · exact hempty
      · exact hempty
  · by_cases hsubmit : ∃ survey path, key = .submit survey path
    · obtain ⟨survey, path, rfl⟩ := hsubmit
      rcases submitMessage_queue (a := a) texts survey path with
        hleaves | ⟨idx, -, -, hcommit⟩ | ⟨hediting, hchoice, hparse, hleaves⟩
      · refine ⟨hleaves.goesOn, ?_⟩
        intro _ hempty
        exact hleaves.queue.trans hempty
      · rw [press, hcommit]
        refine ⟨id, ?_⟩
        intro _ hempty
        simp only [commitEdit]
        rw [hempty, modify_nil]
      · refine ⟨hleaves.goesOn, ?_⟩
        intro hnot _
        exact absurd hparse (hnot survey path rfl hediting hchoice)
    · have hleaves : App.Leaves a (a.press texts key) :=
        leaves_press texts (fun survey path heq => hsubmit ⟨survey, path, heq⟩) hctrlC
      refine ⟨hleaves.goesOn, ?_⟩
      intro _ hempty
      exact hleaves.queue.trans hempty

end Keys

/-- Without a turn outstanding every message that waits is about to be looked after. -/
structure Orderly (s : State Stats) : Prop where
  accounted : Accounted s
  line : InLine s.app
  attended : s.Idle → s.app.queuedMessages ≠ [] → s.Scheduled

section Invariant

variable {s t : State Stats} {action : Action Stats}

theorem Orderly.delivered (h : Orderly s) : Delivered s :=
  ⟨h.line.order, h.line.texts, fun hidle hqueue _ _ => h.attended hidle hqueue⟩

/-- Nothing becomes idle by itself. -/
theorem idle_before (hturns : s.app.turns ≤ t.app.turns) (hclosed : t.closed = s.closed)
    (hgoes : s.app.orchestrationInProgress = true → t.app.orchestrationInProgress = true)
    (h : t.Idle) : s.Idle := by
  obtain ⟨hnone, hover⟩ := h
  constructor
  · apply eq_nil_iff_forall_not_mem.mpr
    intro turn hmem
    obtain ⟨hlt, hopen⟩ := mem_outstandingTurns.mp hmem
    have hafter : turn ∈ t.outstandingTurns :=
      mem_outstandingTurns.mpr ⟨by omega, hclosed ▸ hopen⟩
    rw [hnone] at hafter
    cases hafter
  · by_contra hgoing
    rw [hgoes (Bool.not_eq_false _ ▸ hgoing)] at hover
    cases hover

/-- A step that leaves the queue alone, and its part of the round still to come. -/
theorem Orderly.leaves (h : Orderly s) (haccounted : Accounted t) (hleaves : App.Leaves s.app t.app)
    (hturns : s.app.turns ≤ t.app.turns) (hclosed : t.closed = s.closed)
    (hscheduled : s.Scheduled → t.Scheduled) : Orderly t := by
  refine ⟨haccounted, h.line.leaves hleaves, ?_⟩
  intro hidle hqueue
  apply hscheduled
  refine h.attended (idle_before hturns hclosed hleaves.goesOn hidle) ?_
  rw [← hleaves.queue]
  exact hqueue

variable {a : App Stats} {owner : Option Nat} {found : Found}

theorem processQueued_handle {full : Bool}
    (hordinary : a.Ordinary) (hover : a.orchestrationInProgress = false) :
    (a.handle texts full owner .done).2.processQueued = true := by
  obtain ⟨hinterrupted, hcompacting, hpending⟩ := hordinary
  have hfinished : a.finish.interruptPending = none := by
    have hflushed : (a.removePlaceholder.flushSummary true).interruptPending = none := by
      simp only [flushSummary]
      split <;> exact hpending
    exact hflushed
  have hnot : ¬ a.finish.isCompacting = true := by
    rw [isCompacting_finish, hcompacting]
    exact Bool.false_ne_true
  rw [handle, if_neg (by rw [hinterrupted]; exact Bool.false_ne_true),
    if_neg (by rw [hover]; exact Bool.false_ne_true)]
  simp only [handleLive, App.done, if_neg hnot, hfinished]

theorem Orderly.read (h : Orderly s) {full : Bool} {message : AgentMessage Stats}
    {channel : List (Option Nat × AgentMessage Stats)} (hstage : s.stage = .reading)
    (hchannel : s.channel = (owner, message) :: channel)
    (hserves : Serves s (.read full)) : Orderly (doRead texts s full owner message channel) := by
  have hleaves : App.Leaves s.app (s.app.handle texts full owner message).1 :=
    leaves_handle message
  refine ⟨h.accounted.read hchannel, h.line.leaves hleaves, ?_⟩
  intro hidle hqueue
  obtain ⟨hnone, hover⟩ := hidle
  have hbefore : s.app.orchestrationInProgress = false := by
    by_contra hgoing
    rw [Bool.not_eq_false] at hgoing
    exact absurd (hover.symm.trans (hleaves.goesOn hgoing)) Bool.false_ne_true
  have hwaits : s.app.queuedMessages ≠ [] := hleaves.queue ▸ hqueue
  -- all that is outstanding has been closed by the message
  have hlast : ∀ other ∈ s.outstandingTurns, message.isDone = true ∧ owner = some other := by
    intro other hmem
    obtain ⟨hlt, hopen⟩ := mem_outstandingTurns.mp hmem
    by_contra hnot
    have hturns : (doRead texts s full owner message channel).app.turns = s.app.turns :=
      turns_handle full owner message
    have hafter : other ∈ (doRead texts s full owner message channel).outstandingTurns := by
      refine mem_outstandingTurns.mpr ⟨hturns ▸ hlt, ?_⟩
      simp only [doRead]
      split
      · rename_i hdone
        intro hin
        rcases mem_append.mp hin with hin | hin
        · exact hopen hin
        · exact hnot ⟨hdone, mem_toList.mp hin⟩
      · exact hopen
    rw [hnone] at hafter
    cases hafter
  have hmerged : ∀ outcome : Outcome, s.outcome.processQueued = true ∨ outcome.processQueued = true →
      (s.outcome.merge outcome).processQueued = true := by
    intro outcome hone
    simpa only [Outcome.merge, Bool.or_eq_true] using hone
  refine ⟨by simp only [doRead, hstage]; rfl, hmerged _ ?_⟩
  by_cases hdone : message.isDone = true
  · cases message with
    | done =>
      rcases hserves owner channel hchannel (fun other hmem => (hlast other hmem).2) hbefore hwaits with
        hset | hordinary
      · exact .inl hset
      · exact .inr (processQueued_handle hordinary hbefore)
    | thinkingContent | thinkingSummary | agentResponse | toolCallStarted | toolCallCompleted
    | requestApproval | error | generationStats | contextCleared | contextInjected
    | modelLoaded => cases hdone
  · left
    refine (h.attended ⟨?_, hbefore⟩ hwaits).2
    apply eq_nil_iff_forall_not_mem.mpr
    intro other hmem
    exact hdone (hlast other hmem).1

theorem early_nextStage {part : Part} (hearly : part.early = true) (hother : part ≠ .queued) :
    (nextStage part).early = true := by
  cases part with
  | queued => exact absurd rfl hother
  | interrupt | rewind | midStream | autoSummarize | sync | resume => rfl
  | exported | review | orchestrated | compaction | load => cases hearly

theorem processQueued_part (texts : Texts Stats) (a : App Stats) (outcome : Outcome) (found : Found)
    (part : Part) : (a.part texts outcome found part).2.processQueued = outcome.processQueued := by
  cases part with
  | sync =>
    simp only [part]
    split
    · split <;> rfl
    · rfl
  | interrupt | rewind | midStream | autoSummarize | resume | queued | exported | review
  | orchestrated | compaction | load => rfl

theorem doPart_stage (texts : Texts Stats) (s : State Stats) (part : Part) (found : Found) :
    (doPart texts s part found).stage = nextStage part ∧
      (doPart texts s part found).outcome.processQueued = s.outcome.processQueued := by
  refine ⟨?_, ?_⟩
  · simp only [doPart]
  · have hkept := processQueued_part texts s.app s.outcome found part
    simpa only [doPart] using hkept

theorem goesOn_processQueued (texts : Texts Stats) (h : a.orchestrationInProgress = true) :
    (a.processQueued texts).orchestrationInProgress = true := by
  simp only [processQueued]
  split
  · exact h
  · split
    · exact h
    · split
      · exact (leaves_of_desk held_handleSlashCommand.2).goesOn h
      · exact h

/-- The next message is handed over: it starts a turn, or was the last. -/
theorem processQueued_handsOver (texts : Texts Stats) (h : a.HandsOver) :
    (a.processQueued texts).turns = a.turns + 1 ∨ (a.processQueued texts).queuedMessages = [] := by
  obtain ⟨hsync, hediting, hlast⟩ := h
  cases hqueue : a.queuedMessages with
  | nil =>
    right
    simp only [processQueued, hqueue]
  | cons queued rest =>
    have hfree : ¬ (a.contextSyncPending || decide (a.editingQueueIndex = some 0)) = true := by
      simp only [hsync, hediting, decide_false, Bool.or_self, Bool.false_eq_true, not_false_iff]
    simp only [processQueued, hqueue, if_neg hfree]
    by_cases hslash : startsWith (trim queued.text) "/" = true
    · right
      rw [if_pos hslash]
      exact (leaves_of_desk held_handleSlashCommand.2).queue.trans (hlast queued rest hqueue hslash)
    · left
      rw [if_neg hslash]
      exact turns_startTurn _

theorem Orderly.queued (h : Orderly s) (hstage : s.stage = .part .queued)
    (hserves : Serves s (.part found)) : Orderly (doPart texts s .queued found) := by
  obtain ⟨happ, -, -, hclosed⟩ := doPart_parts texts s .queued found
  have haccounted : Accounted (doPart texts s .queued found) := h.accounted.step (.part hstage)
  by_cases hset : s.outcome.processQueued = true
  · have hpart : (doPart texts s .queued found).app = s.app.processQueued texts := by
      rw [happ]
      simp only [part, hset, if_true]
    refine ⟨haccounted, hpart ▸ h.line.processQueued texts, ?_⟩
    intro hidle hqueue
    have hturns : s.app.turns ≤ (doPart texts s .queued found).app.turns := by
      rw [hpart]
      have hmoves : (s.app.processQueued texts).turns = s.app.turns ∨
          (s.app.processQueued texts).turns = s.app.turns + 1 := turns_processQueued
      rcases hmoves with hsame | hmore
      · omega
      · omega
    have hbefore : s.Idle := by
      refine idle_before hturns hclosed ?_ hidle
      rw [hpart]
      exact goesOn_processQueued texts
    rw [hpart] at hqueue
    have hwaits : s.app.queuedMessages ≠ [] := by
      intro hempty
      apply hqueue
      simp only [processQueued, hempty]
    rcases processQueued_handsOver texts (hserves hstage hbefore hwaits) with hstarted | hempty
    · -- the turn that has been started is outstanding
      have hopen : s.app.turns ∈ (doPart texts s .queued found).outstandingTurns := by
        refine mem_outstandingTurns.mpr ⟨by rw [hpart, hstarted]; omega, ?_⟩
        rw [hclosed]
        intro hin
        exact Nat.lt_irrefl _ (h.accounted.closed _ hin)
      rw [hidle.1] at hopen
      cases hopen
    · exact absurd hempty hqueue
  · have hpart : (doPart texts s .queued found).app = s.app := by
      rw [happ]
      simp only [part, if_neg hset]
    refine ⟨haccounted, hpart.symm ▸ h.line, ?_⟩
    intro hidle hqueue
    have hbefore : s.Idle := idle_before (le_of_eq (congrArg turns hpart.symm)) hclosed
      (by rw [hpart]; exact id) hidle
    exact absurd (h.attended hbefore (hpart ▸ hqueue)).2 hset

theorem Orderly.part {part : Part} (h : Orderly s) (hstage : s.stage = .part part)
    (hserves : Serves s (.part found)) : Orderly (doPart texts s part found) := by
  by_cases hother : part = .queued
  · subst hother
    exact h.queued hstage hserves
  · obtain ⟨happ, -, -, hclosed⟩ := doPart_parts texts s part found
    obtain ⟨hnext, houtcome⟩ := doPart_stage texts s part found
    refine h.leaves (h.accounted.step (.part hstage)) ?_ ?_ hclosed ?_
    · rw [happ]
      exact leaves_of_desk (desk_part texts s.outcome found hother)
    · rw [happ]
      rcases turns_part (a := s.app) texts s.outcome found part with hsame | hmore
      · omega
      · omega
    · rintro ⟨hearly, hset⟩
      rw [hstage] at hearly
      exact ⟨hnext.symm ▸ early_nextStage hearly hother, houtcome.trans hset⟩

theorem Orderly.key {key : Key} (h : Orderly s) (hstage : s.stage = .keys)
    (hserves : Serves s (.key key)) : Orderly (doKey texts s key) := by
  obtain ⟨happ, -, -, hclosed⟩ := doKey_parts texts s key
  obtain ⟨hgoes, hempty⟩ := press_queue (a := s.app) texts key
  refine ⟨h.accounted.step (.key hstage), ?_, ?_⟩
  · rw [happ]
    cases key with
    | ctrlC => exact h.line.ctrlC hserves
    | submit survey path =>
      rcases submitMessage_queue (a := s.app) texts survey path with
        hleaves | ⟨idx, hediting, hinput, hcommit⟩ | ⟨-, -, -, hleaves⟩
      · exact h.line.leaves hleaves
      · rw [press, hcommit]
        exact h.line.commitEdit (hserves.1 idx hediting hinput)
      · exact (h.line.enqueue s.app.queueChoiceInput).leaves hleaves
    | type | escape | up | down | rewind | panel =>
      exact h.line.leaves (leaves_press texts (by simp) (by simp))
  · intro hidle hqueue
    have hturns : s.app.turns ≤ (doKey texts s key).app.turns := by
      rw [happ]
      rcases turns_press (a := s.app) texts key with hsame | hmore
      · omega
      · omega
    have hbefore : s.Idle := idle_before hturns hclosed (by rw [happ]; exact hgoes) hidle
    have hnone : s.app.queuedMessages = [] := by
      by_contra hwaits
      have hearly := (h.attended hbefore hwaits).1
      rw [hstage] at hearly
      cases hearly
    rw [happ] at hqueue
    refine absurd (hempty ?_ hnone) hqueue
    rintro survey path rfl hediting hchoice hparse
    exact hserves.2 hediting hchoice hparse hbefore

theorem Orderly.orchestrated {error : Option String} (h : Orderly s)
    (haccounted : Accounted { s with app := s.app.orchestrationEnded error })
    (hstage : s.stage = .events) (hserves : Serves s (.orchestrated error)) :
    Orderly { s with app := s.app.orchestrationEnded error } := by
  have hqueued : (s.app.orchestrationEnded error).queuedMessages = s.app.queuedMessages := by
    cases error <;> rfl
  refine ⟨haccounted, ?_, ?_⟩
  · cases error with
    | none => exact ⟨h.line.order, h.line.texts, h.line.dropped⟩
    | some error => exact ⟨h.line.order, h.line.texts, h.line.dropped⟩
  · rintro ⟨hnone, -⟩ hqueue
    rw [hqueued] at hqueue
    have hbefore : s.outstandingTurns = [] := by
      apply eq_nil_iff_forall_not_mem.mpr
      intro turn hmem
      obtain ⟨hlt, hopen⟩ := mem_outstandingTurns.mp hmem
      have hsame := turns_orchestrationEnded (a := s.app) error
      have hafter : turn ∈ State.outstandingTurns { s with app := s.app.orchestrationEnded error } :=
        mem_outstandingTurns.mpr ⟨hsame ▸ hlt, hopen⟩
      rw [hnone] at hafter
      cases hafter
    have hset : s.outcome.processQueued = true := by
      by_cases hgoing : s.app.orchestrationInProgress = true
      · exact hserves hgoing hbefore hqueue
      · exact (h.attended ⟨hbefore, Bool.eq_false_iff.mpr hgoing⟩ hqueue).2
    exact ⟨by rw [hstage]; rfl, hset⟩

theorem Orderly.step (h : Orderly s) (hserves : Serves s action)
    (hstep : step texts s action = some t) : Orderly t := by
  have hdoes := does_of_step hstep
  have haccounted := h.accounted.step hdoes
  cases hdoes with
  | emit | other =>
    exact h.leaves haccounted (leaves_of_desk rfl) (Nat.le_refl _) rfl id
  | tick hstage =>
    refine h.leaves haccounted (leaves_of_desk rfl) (Nat.le_refl _) rfl ?_
    rintro ⟨hearly, -⟩
    rw [hstage] at hearly
    cases hearly
  | drained | handled =>
    refine h.leaves haccounted (leaves_of_desk rfl) (Nat.le_refl _) rfl ?_
    rintro ⟨-, hset⟩
    exact ⟨rfl, hset⟩
  | read hstage hchannel => exact h.read hstage hchannel hserves
  | orchestrated hstage => exact h.orchestrated haccounted hstage hserves
  | part hstage => exact h.part hstage hserves
  | key hstage => exact h.key hstage hserves

end Invariant

theorem orderly_new (limitThinkingToFirstToken : Bool) (commandHistory : List String) :
    Orderly (.new limitThinkingToFirstToken commandHistory : State Stats) := by
  refine ⟨accounted_new _ _, ⟨rfl, ?_, ?_⟩, ?_⟩
  · intro queued hmem
    cases hmem
  · intro entry hmem
    cases hmem
  · intro _ hqueue
    exact absurd rfl hqueue

section Runs

variable {limitThinkingToFirstToken : Bool} {commandHistory : List String}
  {actions : List (Action Stats)} {t : State Stats}

/-- Where the index of an edit fits and no hand-over is lost, the queue is delivered as it should
be. -/
theorem delivered_of_serves
    (h : Steps (step texts) Serves (.new limitThinkingToFirstToken commandHistory) actions t) :
    Throughout (step texts) Delivered (.new limitThinkingToFirstToken commandHistory) actions :=
  h.throughout (fun _ _ _ hserves hstep hs => hs.step hserves hstep) (fun _ hs => hs.delivered)
    (orderly_new _ _)

end Runs

/-- A message is queued while the agent is busy. -/
def queueing (text : String) : List (Action Unit) := submitted text ++ submitted "1"

theorem serves_keys {s : State Unit} {survey : Bool} {path : String}
    (hediting : s.app.editingQueueIndex = none) (hbusy : s.outstandingTurns ≠ []) :
    Serves s (.key (.submit survey path)) := by
  constructor
  · intro idx hidx
    rw [hediting] at hidx
    cases hidx
  · intro _ _ _ hidle
    exact hbusy hidle.1

/-- A message is queued, edited and handed over. -/
theorem delivered_edited : ∃ t, run (step bareTexts) (.new false [])
      (submitted "a" ++ queueing "b" ++ [.key .up] ++ submitted "c" ++
        .emit (some 0) .done :: round 1 7) = some t ∧
    Throughout (step bareTexts) Delivered (.new false [])
      (submitted "a" ++ queueing "b" ++ [.key .up] ++ submitted "c" ++
        .emit (some 0) .done :: round 1 7) := by
  have hserved : ∃ t, Steps (step bareTexts) Serves (.new false [])
      (submitted "a" ++ queueing "b" ++ [.key .up] ++ submitted "c" ++
        .emit (some 0) .done :: round 1 7) t := by
    have hother : ∀ (s : State Unit) (found : Found) (part : Part), s.stage = .part part →
        part ≠ .queued → Serves s (.part found) := by
      intro s found part hstage hne hqueued
      rw [hstage] at hqueued
      exact absurd (Stage.part.inj hqueued) hne
    refine ⟨_, .head trivial rfl (.head ?_ rfl (.head trivial rfl (.head ?_ rfl (.head trivial rfl
      (.head ?_ rfl (.head trivial rfl (.head trivial rfl (.head ?_ rfl (.head trivial rfl
      (.head trivial rfl (.head ?_ rfl (.head trivial rfl (.head trivial rfl
      (.head (hother _ _ _ rfl (by decide)) rfl (.head (hother _ _ _ rfl (by decide)) rfl
      (.head (hother _ _ _ rfl (by decide)) rfl (.head (hother _ _ _ rfl (by decide)) rfl
      (.head (hother _ _ _ rfl (by decide)) rfl (.head (hother _ _ _ rfl (by decide)) rfl
      (.head ?_ rfl (.refl _)))))))))))))))))))))⟩
    · constructor
      · intro idx hidx
        cases hidx
      · intro _ hchoice
        cases hchoice
    · exact serves_keys rfl (by decide)
    · exact serves_keys rfl (by decide)
    · constructor
      · intro idx hidx _
        cases hidx
        rfl
      · intro hediting
        cases hediting
    · intro turn channel hchannel hlast hover hqueue
      exact .inr ⟨rfl, rfl, rfl⟩
    · intro _ _ _
      refine ⟨rfl, ?_, ?_⟩
      · intro hediting
        cases hediting
      · intro queued rest hqueue _
        cases hqueue
        rfl
  obtain ⟨t, ht⟩ := hserved
  exact ⟨t, ht.run_eq, delivered_of_serves ht⟩

/-- While an entry is edited the one before it is handed over: the edit goes to the entry behind. -/
theorem edit_overwrites_next : ¬ ∀ actions t, run (step bareTexts) (.new false []) actions = some t →
    Throughout (step bareTexts) Delivered (.new false []) actions := by
  intro hall
  have hthrough := hall (submitted "a" ++ queueing "b" ++ queueing "c" ++ queueing "d" ++
    [.key .up, .key .up, .key (.type "e"), .emit (some 0) .done] ++ round 1 12 ++
      [.key (.submit false "")]) _ rfl
  have htexts := (hthrough _ _ prefix_rfl rfl).texts ⟨2, "e"⟩
    (mem_append_right _ (mem_cons_of_mem _ mem_cons_self))
  exact absurd htexts (by decide)

end ColossalCode.Ui
