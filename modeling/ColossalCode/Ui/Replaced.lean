import ColossalCode.Ui.Compaction

/-! Runs of the interface: a transcript is replaced by its own summary, or not at all. -/
namespace ColossalCode.Ui
open List Option

open Transition

variable {Stats : Type*} {texts : Texts Stats}

theorem findLatest_remove (rows : List Row) :
    findLatestCompactionSummary (removeThinkingAnimationPlaceholder rows) =
      findLatestCompactionSummary rows := by
  rcases removeLast_eq Row.isPlaceholder rows with hsame | ⟨before, out, after, hrows, hout, hremoved⟩
  · rw [removeThinkingAnimationPlaceholder, hsame]
  · have hplain : out.plain = false := not_plain_of_bracketed (bracketed_of_isPlaceholder hout)
    rw [removeThinkingAnimationPlaceholder, hremoved, hrows]
    simp only [findLatestCompactionSummary, reverse_append, reverse_cons,
      List.find?_append, List.find?_cons, hplain, List.find?_nil, or_none]

theorem getLast?_tail {α : Type*} {xs : List α} {x : α} (hxs : xs ≠ []) :
    (xs ++ [x]).tail.getLast? = some x := by
  cases xs with
  | nil => exact absurd rfl hxs
  | cons y ys => rw [cons_append, tail_cons, List.getLast?_append_of_ne_nil _ (by simp)]; rfl

namespace App

variable {a : App Stats}

/-- Without a summary of the thinking the newest plain row stays the newest. -/
theorem summaryRow_finish (h : a.thinkingCurrentSummary = none) : a.finish.summaryRow = a.summaryRow := by
  have hrows : a.finish.rows = removeThinkingAnimationPlaceholder a.rows := by
    have hkept : (a.removePlaceholder.flushSummary true).rows = a.removePlaceholder.rows := by
      have hnone : a.removePlaceholder.thinkingCurrentSummary = none := h
      simp only [flushSummary, hnone]
    exact hkept
  rw [summaryRow, summaryRow, hrows, findLatest_remove]

theorem told_compacted (summary : Row) :
    (a.compacted summary).told = a.told ++ [.clearContext, .injectContext summary.text] := by
  have htold := told_createRewindPoint (a := a)
  simp only [compacted, tell, htold, append_assoc]
  rfl

theorem history_compacted (summary : Row) :
    (a.compacted summary).compactionHistory.getLast? = some ⟨summary.text, summary.writers⟩ := by
  simp only [compacted]
  split
  · rename_i hlong
    apply getLast?_tail
    intro hnil
    rw [hnil, nil_append, length_singleton] at hlong
    exact absurd hlong (by decide)
  · rw [List.getLast?_append_of_ne_nil _ (by simp)]
    rfl

theorem isCompacting_agentResponse (turn : Option Nat) (text : String) (full : Bool) :
    (a.agentResponse turn text full).1.isCompacting = a.isCompacting := by
  have hshown : ∀ b : App Stats, (b.showResponse turn text).isCompacting = b.isCompacting := by
    intro b
    simp only [showResponse]
    split <;> rfl
  simp only [agentResponse]
  split
  · rfl
  · exact (hshown _).trans isCompacting_finish

/-- A compaction ends with a `Done` only. -/
theorem isCompacting_handle {full : Bool} {turn : Option Nat} {message : AgentMessage Stats}
    (hdone : message.isDone = false) :
    (a.handle texts full turn message).1.isCompacting = a.isCompacting := by
  simp only [handle]
  split
  · have hstays : Stays 0 a (a.handleInterrupted texts message).1 := stays_handleInterrupted message
    exact hstays.tame.1
  · split
    · rfl
    · by_cases hresponse : ∃ text, message = .agentResponse text
      · obtain ⟨text, rfl⟩ := hresponse
        exact isCompacting_agentResponse turn text full
      · by_cases hmodel : message = .modelLoaded
        · rw [hmodel]
          rfl
        · have hstays : Stays 0 a (a.handleLive texts full turn message).1 :=
            stays_handleLive (fun text heq => hresponse ⟨text, heq⟩) hdone hmodel
          exact hstays.tame.1

/-- Outside a compaction none is begun by a message. -/
theorem isCompacting_handle_done (full : Bool) (turn : Option Nat) (h : a.isCompacting = false) :
    (a.handle texts full turn .done).1.isCompacting = false := by
  simp only [handle]
  split
  · have hstays : Stays 0 a (a.handleInterrupted texts .done).1 := stays_handleInterrupted .done
    exact hstays.tame.1.trans h
  · split
    · exact h
    · have hfinish := isCompacting_finish.trans h
      simp only [handleLive, done, if_neg (Bool.eq_false_iff.mp hfinish)]
      split
      all_goals
        exact (redrawn_ensureGenerationStatsMarker texts).isCompacting.trans hfinish

end App

theorem writers_appendResponse {rows : List Row} {n : Nat} {owner : Option Nat} {text : String}
    (howner : ∀ turn, owner = some turn → turn < n)
    (h : ∀ row ∈ rows, ∀ turn, some turn ∈ row.writers → turn < n) :
    ∀ row ∈ appendResponse rows owner text, ∀ turn, some turn ∈ row.writers → turn < n := by
  intro row hmem turn hwriter
  simp only [appendResponse] at hmem
  split at hmem
  · rw [mem_singleton.mp hmem] at hwriter
    exact howner turn (mem_singleton.mp hwriter).symm
  · rename_i last hlast
    rcases mem_append.mp hmem with hmem | hmem
    · exact h row (mem_of_mem_dropLast hmem) turn hwriter
    · rw [mem_singleton.mp hmem] at hwriter
      rcases mem_append.mp hwriter with hwriter | hwriter
      · exact h last (mem_of_getLast? hlast) turn hwriter
      · exact howner turn (mem_singleton.mp hwriter).symm

theorem known_of_newer {rows rows' : List Row} {n : Nat} (hnewer : Newer rows rows')
    (h : ∀ row ∈ rows, ∀ turn, some turn ∈ row.writers → turn < n) :
    ∀ row ∈ rows', ∀ turn, some turn ∈ row.writers → turn < n := by
  intro row hmem turn hwriter
  rcases hnewer row hmem with hold | hnone
  · exact h row hold turn hwriter
  · rw [hnone] at hwriter
    cases mem_singleton.mp hwriter

namespace App

variable {a : App Stats} {full : Bool} {owner : Option Nat}

theorem writers_showResponse {n : Nat} (text : String)
    (howner : ∀ turn, owner = some turn → turn < n)
    (h : ∀ row ∈ a.allRows, ∀ turn, some turn ∈ row.writers → turn < n) :
    ∀ row ∈ (a.showResponse owner text).allRows, ∀ turn, some turn ∈ row.writers → turn < n := by
  intro row hmem turn hwriter
  simp only [showResponse] at hmem
  split at hmem
  · rcases mem_append.mp hmem with hmem | hmem
    · rcases mem_append.mp hmem with hmem | hmem
      · exact h row (mem_append_left _ hmem) turn hwriter
      · rw [mem_singleton.mp hmem] at hwriter
        exact howner turn (mem_singleton.mp hwriter).symm
    · exact h row (mem_append_right _ hmem) turn hwriter
  · rcases mem_append.mp hmem with hmem | hmem
    · exact writers_appendResponse howner (fun row hmem => h row (mem_append_left _ hmem))
        row hmem turn hwriter
    · exact h row (mem_append_right _ hmem) turn hwriter

/-- A response that is left aside, or shown. -/
theorem handle_response (texts : Texts Stats) (full : Bool) (owner : Option Nat) (text : String) :
    (a.handle texts full owner (.agentResponse text)).1 = a ∨
      (a.handle texts full owner (.agentResponse text)).1 = (a.agentResponse owner text full).1 := by
  simp only [handle]
  split
  · exact .inl rfl
  · split
    · exact .inl rfl
    · exact .inr rfl

variable {message : AgentMessage Stats}

theorem writers_handle {n : Nat} (howner : ∀ turn, owner = some turn → turn < n)
    (h : ∀ row ∈ a.allRows, ∀ turn, some turn ∈ row.writers → turn < n) :
    ∀ row ∈ (a.handle texts full owner message).1.allRows, ∀ turn, some turn ∈ row.writers →
      turn < n := by
  by_cases hresponse : ∃ text, message = .agentResponse text
  · obtain ⟨text, rfl⟩ := hresponse
    rcases handle_response (a := a) texts full owner text with hsame | hshown
    · rw [hsame]
      exact h
    · rw [hshown]
      simp only [agentResponse]
      split
      · exact h
      · have hbefore := known_of_newer (newer_flushed true) h
        have hafter := writers_showResponse text howner hbefore
        exact known_of_newer (newer_of_rows (newer_ensurePlaceholder _) rfl) hafter
  · exact known_of_newer (newer_handle fun text heq => hresponse ⟨text, heq⟩) h

/-- A live `Done` ends a compaction. -/
theorem isCompacting_done : (a.done texts).1.isCompacting = false := by
  simp only [done]
  split
  · simp only [finishCompaction]
    split <;> rfl
  · rename_i hnot
    have hfalse := Bool.eq_false_iff.mpr hnot
    split
    all_goals exact (redrawn_ensureGenerationStatsMarker texts).isCompacting.trans hfalse

/-- A message during a compaction, of its turn or of another task. -/
theorem handle_kept {turn : Nat}
    (howner : owner = none → message.ofTask = true) (hother : ∀ other, owner = some other → other = turn)
    (htext : ∀ text, message = .agentResponse text → text ≠ thinkingAnimation)
    (hmodel : message = .modelLoaded → a.agentResponseStarted = false)
    (hpure : ∀ row ∈ a.allRows, row.Pure turn) (hbegun : a.agentResponseStarted = true →
      Begun turn a.rows) (hgoes : (a.handle texts full owner message).1.isCompacting = true) :
    (∀ row ∈ (a.handle texts full owner message).1.allRows, row.Pure turn) ∧
      ((a.handle texts full owner message).1.agentResponseStarted = true →
        Begun turn (a.handle texts full owner message).1.rows) := by
  have hstays : ∀ b : App Stats, Stays turn a b → b.agentResponseStarted = true →
      Begun turn b.rows := by
    intro b hb hstarted
    exact hb.rows (hbegun (hb.tame.2 hstarted))
  by_cases hresponse : ∃ text, message = .agentResponse text
  · obtain ⟨text, rfl⟩ := hresponse
    rcases handle_response (a := a) texts full owner text with hsame | hshown
    · rw [hsame]
      exact ⟨hpure, hbegun⟩
    · cases owner with
      | none => cases howner rfl
      | some other =>
        obtain rfl := hother other rfl
        obtain ⟨hpure', hbegun', -⟩ := agentResponse_kept full (htext text rfl) hpure hbegun
        rw [hshown]
        exact ⟨hpure', hbegun'⟩
  · have hnot : ∀ text, message ≠ .agentResponse text := fun text heq => hresponse ⟨text, heq⟩
    refine ⟨pure_of_newer (newer_handle hnot) hpure, ?_⟩
    simp only [handle] at hgoes ⊢
    split
    · exact hstays _ (stays_handleInterrupted message)
    · rename_i hinterrupted
      rw [if_neg hinterrupted] at hgoes
      split
      · exact hbegun
      · rename_i hleft
        rw [if_neg hleft] at hgoes
        cases message with
        | done =>
          rw [handleLive, isCompacting_done] at hgoes
          cases hgoes
        | modelLoaded =>
          intro hstarted
          have hbefore : a.agentResponseStarted = true := hstarted
          rw [hmodel rfl] at hbefore
          cases hbefore
        | agentResponse text => exact absurd rfl (hnot text)
        | thinkingContent | thinkingSummary | toolCallStarted | toolCallCompleted | requestApproval
        | error | generationStats | contextCleared | contextInjected =>
          exact hstays _ (stays_handleLive hnot rfl (by simp))

/-- What is put in place of the transcript is its newest plain row. -/
theorem replaced_row {summary : String}
    (htold : (a.handle texts full owner message).1.told =
      a.told ++ [.clearContext, .injectContext summary]) :
    message.isDone = true ∧ a.isCompacting = true ∧ ∃ row, a.finish.summaryRow = some row ∧
      row.text = summary ∧ (a.handle texts full owner message).1.compactionHistory.getLast? =
        some ⟨row.text, row.writers⟩ := by
  have hmore : (a.handle texts full owner message).1.told ≠ a.told := by
    intro hsame
    have hlength := congrArg List.length (htold.symm.trans hsame)
    rw [length_append] at hlength
    exact absurd hlength (by simp)
  have hends : message.isDone = true ∧ a.isCompacting = true := by
    by_contra hnot
    refine hmore (told_handle full owner fun hdone => ?_)
    exact Bool.eq_false_iff.mpr fun hcompacting => hnot ⟨hdone, hcompacting⟩
  obtain ⟨hdone, hcompacting⟩ := hends
  refine ⟨hdone, hcompacting, ?_⟩
  cases message with
  | done =>
    simp only [handle] at htold hmore ⊢
    split at hmore
    · exact absurd (redrawn_ensureGenerationStatsMarker (a := { a.removePlaceholder with
        thinkingIndicatorActive := false, thinkingCurrentSummary := none }) texts).told hmore
    · split at hmore
      · exact absurd rfl hmore
      · rename_i hinterrupted hleft
        rw [if_neg hinterrupted, if_neg hleft] at htold
        rw [if_neg hinterrupted, if_neg hleft]
        simp only [handleLive, done, if_pos (isCompacting_finish.trans hcompacting),
          finishCompaction] at htold hmore ⊢
        cases hrow : a.finish.summaryRow with
        | none =>
          rw [hrow] at hmore
          exact absurd told_finish hmore
        | some row =>
          simp only [hrow] at htold ⊢
          rw [told_compacted, told_finish] at htold
          have hlast := append_cancel_left htold
          simp only [List.cons.injEq, Told.injectContext.injEq, true_and, and_true] at hlast
          exact ⟨row, rfl, hlast, history_compacted row⟩
  | thinkingContent | thinkingSummary | agentResponse | toolCallStarted | toolCallCompleted
  | requestApproval | error | generationStats | contextCleared | contextInjected
  | modelLoaded => cases hdone

theorem mem_of_summaryRow {row : Row} (h : a.summaryRow = some row) :
    row ∈ a.rows ∧ row.plain = true ∧ row.text ≠ "" := by
  obtain ⟨hfound, hsome⟩ := filter_eq_some_iff.mp h
  refine ⟨mem_reverse.mp (mem_of_find?_eq_some hfound), List.find?_some hfound, ?_⟩
  intro hempty
  rw [hempty] at hsome
  exact absurd hsome (by decide)

end App

/-- A compaction of the turn is under way: no other turn is, it has come to no harm, and its rows are
its own. -/
structure Compacting (s : State Stats) (turn : Nat) : Prop where
  requested : s.compaction = some turn
  only : ∀ other ∈ s.outstandingTurns, other = turn
  unspoilt : s.spoilt = false
  pure : ∀ row ∈ s.app.allRows, row.Pure turn
  begun : s.app.agentResponseStarted = true → Begun turn s.app.rows

structure Sound (s : State Stats) : Prop where
  accounted : Accounted s
  known : ∀ row ∈ s.app.allRows, ∀ turn, some turn ∈ row.writers → turn < s.app.turns
  cancelled : ∀ turn ∈ s.cancelled, turn < s.app.turns
  failed : ∀ turn ∈ s.failed, turn < s.app.turns
  compacting : s.app.isCompacting = true → ∃ turn, Compacting s turn
  faithful : Faithful s

section Invariant

variable {s t : State Stats} {action : Action Stats}

theorem spoilt_congr (hcompaction : t.compaction = s.compaction) (hcancelled : t.cancelled = s.cancelled)
    (hfailed : t.failed = s.failed) : t.spoilt = s.spoilt := by
  rw [State.spoilt, State.spoilt, hcompaction, hcancelled, hfailed]

theorem outstanding_congr (hturns : t.app.turns = s.app.turns) (hclosed : t.closed = s.closed) :
    ∀ turn ∈ t.outstandingTurns, turn ∈ s.outstandingTurns := by
  intro turn hmem
  rw [mem_outstandingTurns] at hmem ⊢
  rw [← hturns, ← hclosed]
  exact hmem

/-- A step of the interface by itself, while the compaction goes on. -/
theorem Compacting.tame {turn : Nat} (h : Compacting s turn) (htame : App.Tame s.app t.app)
    (hcalm : Calm s.app t.app) (hcompacting : s.app.isCompacting = true)
    (hnewer : Newer s.app.allRows t.app.allRows) (hcompaction : t.compaction = s.compaction)
    (hcancelled : t.cancelled = s.cancelled) (hfailed : t.failed = s.failed)
    (hclosed : t.closed = s.closed) : Compacting t turn := by
  obtain ⟨hturns, -, hrows⟩ := hcalm hcompacting
  refine ⟨hcompaction.trans h.requested, ?_, ?_, App.pure_of_newer hnewer h.pure, ?_⟩
  · intro other hmem
    exact h.only other (outstanding_congr hturns hclosed other hmem)
  · exact (spoilt_congr hcompaction hcancelled hfailed).trans h.unspoilt
  · intro hstarted
    have hbefore := htame.2 hstarted
    exact (h.begun hbefore).addsEvents (hrows hbefore)

/-- A step that leaves the interface as it is. -/
theorem Sound.same (h : Sound s) (haccounted : Accounted t) (happ : t.app = s.app)
    (hcancelled : t.cancelled = s.cancelled) (hfailed : t.failed = s.failed)
    (hcompaction : t.compaction = s.compaction) (hclosed : t.closed = s.closed)
    (hlog : t.log = s.log) : Sound t := by
  refine ⟨haccounted, ?_, ?_, ?_, ?_, ?_⟩
  · rw [happ]
    exact h.known
  · rw [happ, hcancelled]
    exact h.cancelled
  · rw [happ, hfailed]
    exact h.failed
  · intro hcompacting
    rw [happ] at hcompacting
    obtain ⟨turn, hturn⟩ := h.compacting hcompacting
    refine ⟨turn, hcompaction.trans hturn.requested, ?_, ?_, ?_, ?_⟩
    · intro other hmem
      exact hturn.only other (outstanding_congr (congrArg App.turns happ) hclosed other hmem)
    · exact (spoilt_congr hcompaction hcancelled hfailed).trans hturn.unspoilt
    · rw [happ]
      exact hturn.pure
    · rw [happ]
      exact hturn.begun
  · rw [Faithful, hlog]
    exact h.faithful

/-- A step of the interface by itself. -/
theorem Sound.proceed (h : Sound s) (haccounted : Accounted t) (hturns : s.app.turns ≤ t.app.turns)
    (hnewer : Newer s.app.allRows t.app.allRows)
    (hcancelled : t.cancelled = if t.app.told.count .cancel = s.app.told.count .cancel then
      s.cancelled else s.cancelled ++ s.outstandingTurns)
    (hfailed : t.failed = s.failed) (hlog : t.log = s.log)
    (hcompacting : t.app.isCompacting = true → ∃ turn, Compacting t turn) : Sound t := by
  refine ⟨haccounted, ?_, ?_, ?_, hcompacting, ?_⟩
  · intro row hmem turn hwriter
    have hbefore := known_of_newer hnewer h.known row hmem turn hwriter
    omega
  · intro turn hmem
    rw [hcancelled] at hmem
    split at hmem
    · have hbefore := h.cancelled turn hmem
      omega
    · rcases mem_append.mp hmem with hmem | hmem
      · have hbefore := h.cancelled turn hmem
        omega
      · have hbefore := (mem_outstandingTurns.mp hmem).1
        omega
  · intro turn hmem
    rw [hfailed] at hmem
    have hbefore := h.failed turn hmem
    omega
  · rw [Faithful, hlog]
    exact h.faithful

/-- A step of the interface by itself that starts no compaction. -/
theorem Sound.tame (h : Sound s) (haccounted : Accounted t) (hturns : s.app.turns ≤ t.app.turns)
    (htame : App.Tame s.app t.app) (hcalm : Calm s.app t.app)
    (hnewer : Newer s.app.allRows t.app.allRows)
    (hcancelled : t.cancelled = if t.app.told.count .cancel = s.app.told.count .cancel then
      s.cancelled else s.cancelled ++ s.outstandingTurns)
    (hfailed : t.failed = s.failed) (hcompaction : t.compaction = s.compaction)
    (hclosed : t.closed = s.closed) (hlog : t.log = s.log) : Sound t := by
  refine h.proceed haccounted hturns hnewer hcancelled hfailed hlog ?_
  intro hcompacting
  rw [htame.1] at hcompacting
  obtain ⟨turn, hturn⟩ := h.compacting hcompacting
  refine ⟨turn, hturn.tame htame hcalm hcompacting hnewer hcompaction ?_ hfailed hclosed⟩
  rw [hcancelled, if_pos (hcalm hcompacting).2.1]

theorem doKey_rest (texts : Texts Stats) (s : State Stats) (key : Key) :
    (doKey texts s key).cancelled = (if (s.app.press texts key).told.count .cancel =
        s.app.told.count .cancel then s.cancelled else s.cancelled ++ s.outstandingTurns) ∧
      (doKey texts s key).failed = s.failed ∧ (doKey texts s key).compaction = s.compaction ∧
      (doKey texts s key).log = s.log := by
  cases key with
  | escape =>
    simp only [doKey]
    split <;> exact ⟨rfl, rfl, rfl, rfl⟩
  | type | submit | ctrlC | up | down | rewind | panel => exact ⟨rfl, rfl, rfl, rfl⟩

theorem doPart_rest (texts : Texts Stats) (s : State Stats) (part : Part) (found : Found) :
    (doPart texts s part found).cancelled =
      (if (s.app.part texts s.outcome found part).1.told.count .cancel =
        s.app.told.count .cancel then s.cancelled else s.cancelled ++ s.outstandingTurns) ∧
      (doPart texts s part found).failed = s.failed ∧
      (doPart texts s part found).compaction =
        (if part = .compaction ∧ s.app.compactPending.isSome = true then some s.app.turns
          else s.compaction) ∧
      (doPart texts s part found).log = s.log := by
  simp only [doPart, Bool.and_eq_true, decide_eq_true_eq]
  split <;> exact ⟨rfl, rfl, trivial, rfl⟩

/-- A compaction is started: its turn is new, and the only one. -/
theorem compacting_start {found : Found} (h : Sound s)
    (hpending : s.app.compactPending.isSome = true) (hstarts : StartsApart s) :
    Compacting (doPart texts s .compaction found) s.app.turns := by
  obtain ⟨customInstructions, hsome⟩ := isSome_iff_exists.mp hpending
  obtain ⟨happ, hrunning, hchannel, hclosed⟩ := doPart_parts texts s .compaction found
  obtain ⟨hcancelled, hfailed, hcompaction, hlog⟩ := doPart_rest texts s .compaction found
  rw [if_pos ⟨rfl, hpending⟩] at hcompaction
  have hturns : (doPart texts s .compaction found).app.turns = s.app.turns + 1 := by
    have hstarted := App.turns_startCompaction (a := s.app) texts
    rw [hpending, if_pos rfl] at hstarted
    rw [happ]
    exact hstarted
  have hcount : (s.app.part texts s.outcome found .compaction).1.told.count .cancel =
      s.app.told.count .cancel := by
    simp only [App.part, App.startCompaction, hsome, App.startTurn, App.tell, App.push,
      count_append]
    rfl
  rw [if_pos hcount] at hcancelled
  refine ⟨hcompaction, ?_, ?_, ?_, ?_⟩
  · intro other hmem
    obtain ⟨hlt, hopen⟩ := mem_outstandingTurns.mp hmem
    by_contra hne
    have hbefore : other ∈ s.outstandingTurns := by
      refine mem_outstandingTurns.mpr ⟨by omega, ?_⟩
      rw [← hclosed]
      exact hopen
    rw [hstarts.1] at hbefore
    cases hbefore
  · simp only [State.spoilt, hcompaction, hcancelled, hfailed, any_some, Bool.or_eq_false_iff,
      contains_eq_mem, decide_eq_false_iff_not]
    constructor
    · intro hmem
      have hlt := h.cancelled _ hmem
      omega
    · intro hmem
      have hlt := h.failed _ hmem
      omega
  · intro row hmem _ hwriter
    rw [happ] at hmem
    have hlt := known_of_newer (App.newer_part texts s.outcome found .compaction) h.known row hmem _
      hwriter
    omega
  · intro hstarted
    have hrows : (doPart texts s .compaction found).app.rows = s.app.rows ++ [placeholder] := by
      rw [happ]
      simp only [App.part, App.startCompaction, hsome]
      rfl
    have hbefore : s.app.agentResponseStarted = true := by
      rw [happ] at hstarted
      simp only [App.part, App.startCompaction, hsome] at hstarted
      exact hstarted
    obtain ⟨row, hlast, hshown, hevent⟩ := hstarts.2 hbefore
    obtain ⟨before, hsplit⟩ := List.getLast?_eq_some_iff.mp hlast
    refine ⟨before, [row, placeholder], ?_, ⟨row, mem_cons_self, hshown⟩, ?_⟩
    · rw [hrows, hsplit, append_assoc]
      rfl
    · intro row' hmem hplain hnot
      rcases mem_cons.mp hmem with rfl | hmem
      · rw [hevent] at hnot
        cases hnot
      · rw [mem_singleton.mp hmem, plain_placeholder] at hplain
        cases hplain

/-- Of whom a message on the channel is, while a compaction is under way. -/
theorem owner_of_compacting {turn : Nat} {owner : Option Nat} {message : AgentMessage Stats}
    (haccounted : Accounted s) (h : Compacting s turn) (hmem : (owner, message) ∈ s.channel) :
    (owner = none → message.ofTask = true) ∧ ∀ other, owner = some other → other = turn := by
  constructor
  · rintro rfl
    exact haccounted.tasks message hmem
  · rintro other rfl
    exact h.only other (mem_outstandingTurns.mpr (haccounted.waiting other message hmem))

section Read

variable {full : Bool} {owner : Option Nat} {message : AgentMessage Stats}
  {channel : List (Option Nat × AgentMessage Stats)}

theorem compacting_before (h : (s.app.handle texts full owner message).1.isCompacting = true) :
    s.app.isCompacting = true := by
  cases hdone : message.isDone with
  | false => exact (App.isCompacting_handle hdone).symm.trans h
  | true =>
    cases message with
    | done =>
      by_contra hnot
      rw [App.isCompacting_handle_done full owner (Bool.eq_false_iff.mpr hnot)] at h
      cases h
    | thinkingContent | thinkingSummary | agentResponse | toolCallStarted | toolCallCompleted
    | requestApproval | error | generationStats | contextCleared | contextInjected
    | modelLoaded => cases hdone

/-- The compaction goes on with a message that does not end it. -/
theorem Compacting.read {turn : Nat} (haccounted : Accounted s) (h : Compacting s turn)
    (hchannel : s.channel = (owner, message) :: channel) (hkept : ReadsKept s owner message)
    (hgoes : (s.app.handle texts full owner message).1.isCompacting = true) :
    Compacting (doRead texts s full owner message channel) turn := by
  obtain ⟨htask, hother⟩ := owner_of_compacting haccounted h (hchannel ▸ mem_cons_self)
  obtain ⟨hpure, hbegun⟩ := App.handle_kept htask hother
    (by rintro text rfl; exact hkept) (by rintro rfl; exact hkept) h.pure h.begun hgoes
  refine ⟨h.requested, ?_, ?_, hpure, hbegun⟩
  · intro other hmem
    have hdoes : (doRead texts s full owner message channel).app.turns = s.app.turns :=
      App.turns_handle full owner message
    obtain ⟨hlt, hopen⟩ := mem_outstandingTurns.mp hmem
    refine h.only other (mem_outstandingTurns.mpr ⟨hdoes ▸ hlt, fun hin => hopen ?_⟩)
    simp only [doRead]
    split
    · exact mem_append_left _ hin
    · exact hin
  · have hunspoilt := h.unspoilt
    simp only [State.spoilt, doRead, h.requested, any_some, Bool.or_eq_false_iff,
      contains_eq_mem, decide_eq_false_iff_not] at hunspoilt ⊢
    refine ⟨hunspoilt.1, ?_⟩
    split
    · rename_i herror
      intro hmem
      rcases mem_append.mp hmem with hmem | hmem
      · exact hunspoilt.2 hmem
      · cases message with
        | error error => exact hkept (h.requested ▸ mem_toList.mp hmem)
        | thinkingContent | thinkingSummary | agentResponse | toolCallStarted | toolCallCompleted
        | requestApproval | done | generationStats | contextCleared | contextInjected
        | modelLoaded => cases herror
    · exact hunspoilt.2

/-- What is read while a compaction is under way, or is not, does not replace the transcript by
another turn's text. -/
theorem reading_faithful (h : Sound s) (hchannel : s.channel = (owner, message) :: channel)
    (hkept : s.app.isCompacting = true → ReadsKept s owner message) :
    Reading.Faithful ⟨owner, message, s.stale owner, s.compaction, s.spoilt, s.app,
      (s.app.handle texts full owner message).1, (s.app.handle texts full owner message).2⟩ := by
  have hdone_owner : message.isDone = true → s.app.isCompacting = true →
      ∃ turn, Compacting s turn ∧ owner = some turn := by
    intro hdone hcompacting
    obtain ⟨turn, hturn⟩ := h.compacting hcompacting
    obtain ⟨other, rfl, -⟩ := h.accounted.ended owner message (hchannel ▸ mem_cons_self) hdone
    obtain ⟨-, hother⟩ := owner_of_compacting h.accounted hturn (hchannel ▸ mem_cons_self)
    exact ⟨turn, hturn, congrArg some (hother other rfl)⟩
  constructor
  · intro hcompacting hended
    have hdone : message.isDone = true := by
      by_contra hnot
      rw [App.isCompacting_handle (Bool.eq_false_iff.mpr hnot)] at hended
      rw [hended] at hcompacting
      cases hcompacting
    obtain ⟨turn, hturn, rfl⟩ := hdone_owner hdone hcompacting
    exact ⟨rfl, hturn.requested.symm⟩
  · intro summary hreplaces
    obtain ⟨hdone, hcompacting, row, hrow, rfl, hlast⟩ := App.replaced_row hreplaces
    obtain ⟨turn, hturn, rfl⟩ := hdone_owner hdone hcompacting
    cases message with
    | done =>
      obtain ⟨hnone, hown⟩ := hkept hcompacting
      rw [App.summaryRow_finish hnone] at hrow
      obtain ⟨hmem, hplain, hsome⟩ := App.mem_of_summaryRow hrow
      have hwriter : some turn ∈ row.writers := hturn.requested ▸ hown row hrow
      refine ⟨turn, row.writers, rfl, rfl, hturn.requested, hturn.unspoilt, hsome,
        ne_nil_of_mem hwriter, ?_, hlast⟩
      exact hturn.pure row (mem_append_left _ hmem) hplain hwriter
    | thinkingContent | thinkingSummary | agentResponse | toolCallStarted | toolCallCompleted
    | requestApproval | error | generationStats | contextCleared | contextInjected
    | modelLoaded => cases hdone

theorem Sound.read (h : Sound s) (hchannel : s.channel = (owner, message) :: channel)
    (hkept : s.app.isCompacting = true → ReadsKept s owner message) :
    Sound (doRead texts s full owner message channel) := by
  have hturns : (doRead texts s full owner message channel).app.turns = s.app.turns :=
    App.turns_handle full owner message
  have howner : ∀ turn, owner = some turn → turn < s.app.turns := by
    rintro turn rfl
    exact (h.accounted.waiting turn message (hchannel ▸ mem_cons_self)).1
  refine ⟨h.accounted.read hchannel, ?_, ?_, ?_, ?_, ?_⟩
  · rw [hturns]
    exact App.writers_handle howner h.known
  · rw [hturns]
    exact h.cancelled
  · intro turn hmem
    rw [hturns]
    simp only [doRead] at hmem
    split at hmem
    · rcases mem_append.mp hmem with hmem | hmem
      · exact h.failed turn hmem
      · exact howner turn (mem_toList.mp hmem)
    · exact h.failed turn hmem
  · intro hgoes
    have hcompacting := compacting_before hgoes
    obtain ⟨turn, hturn⟩ := h.compacting hcompacting
    exact ⟨turn, hturn.read h.accounted hchannel (hkept hcompacting) hgoes⟩
  · intro reading hmem
    rcases mem_append.mp hmem with hmem | hmem
    · exact h.faithful reading hmem
    · rw [mem_singleton.mp hmem]
      exact reading_faithful h hchannel hkept

end Read

/-- A part of the pending actions, with the start of a compaction among them. -/
theorem Sound.part {part : Part} {found : Found} (h : Sound s) (hstage : s.stage = .part part)
    (hkeeps : Keeps texts s (.part found)) : Sound (doPart texts s part found) := by
  obtain ⟨hcalm, hapart⟩ := hkeeps part hstage
  obtain ⟨happ, hrunning, hchannel, hclosed⟩ := doPart_parts texts s part found
  obtain ⟨hcancelled, hfailed, hcompaction, hlog⟩ := doPart_rest texts s part found
  have haccounted : Accounted (doPart texts s part found) := h.accounted.step (.part hstage)
  have hturns : s.app.turns ≤ (doPart texts s part found).app.turns := by
    rw [happ]
    rcases App.turns_part (a := s.app) texts s.outcome found part with hsame | hmore
    · omega
    · omega
  have hnewer : Newer s.app.allRows (doPart texts s part found).app.allRows := by
    rw [happ]
    exact App.newer_part texts s.outcome found part
  rw [← happ] at hcancelled hcalm
  by_cases hstarts : part = .compaction ∧ s.app.compactPending.isSome = true
  · obtain ⟨rfl, hpending⟩ := hstarts
    refine h.proceed haccounted hturns hnewer hcancelled hfailed hlog ?_
    exact fun _ => ⟨_, compacting_start h hpending (hapart rfl hpending)⟩
  · rw [if_neg hstarts] at hcompaction
    refine h.tame haccounted hturns ?_ hcalm hnewer hcancelled hfailed hcompaction hclosed hlog
    rw [happ]
    exact App.tame_part texts s.outcome found part hstarts

theorem Sound.key {key : Key} (h : Sound s) (hstage : s.stage = .keys)
    (hkeeps : Keeps texts s (.key key)) : Sound (doKey texts s key) := by
  obtain ⟨happ, hrunning, hchannel, hclosed⟩ := doKey_parts texts s key
  obtain ⟨hcancelled, hfailed, hcompaction, hlog⟩ := doKey_rest texts s key
  have hcalm : Calm s.app (s.app.press texts key) := hkeeps
  rw [← happ] at hcancelled hcalm
  refine h.tame (h.accounted.step (.key hstage)) ?_ ?_ hcalm ?_ hcancelled hfailed hcompaction
    hclosed hlog
  · rw [happ]
    rcases App.turns_press (a := s.app) texts key with hsame | hmore
    · omega
    · omega
  · rw [happ]
    exact App.tame_press texts key
  · rw [happ]
    exact App.newer_press texts key

theorem told_orchestrationEnded {a : App Stats} (error : Option String) :
    (a.orchestrationEnded error).told = a.told := by
  cases error <;> rfl

theorem Sound.step (h : Sound s) (hkeeps : Keeps texts s action) (hstep : step texts s action = some t) :
    Sound t := by
  have hdoes := does_of_step hstep
  have haccounted := h.accounted.step hdoes
  cases hdoes with
  | emit | other | tick | drained | handled => exact h.same haccounted rfl rfl rfl rfl rfl rfl
  | read _ hchannel => exact h.read hchannel fun hcompacting => hkeeps hcompacting _ _ _ hchannel
  | @orchestrated error =>
    refine h.tame haccounted (le_of_eq (App.turns_orchestrationEnded error).symm)
      (App.tame_orchestrationEnded error) hkeeps (App.newer_orchestrationEnded error) ?_ rfl rfl rfl rfl
    rw [if_pos (congrArg (List.count .cancel) (told_orchestrationEnded error))]
  | part hstage => exact h.part hstage hkeeps
  | key hstage => exact h.key hstage hkeeps

end Invariant

theorem sound_new (limitThinkingToFirstToken : Bool) (commandHistory : List String) :
    Sound (.new limitThinkingToFirstToken commandHistory : State Stats) := by
  refine ⟨accounted_new _ _, ?_, ?_, ?_, ?_, ?_⟩
  · intro row hmem
    cases hmem
  · intro turn hmem
    cases hmem
  · intro turn hmem
    cases hmem
  · intro hcompacting
    cases hcompacting
  · intro reading hmem
    cases hmem

section Runs

variable {limitThinkingToFirstToken : Bool} {commandHistory : List String}
  {actions : List (Action Stats)} {t : State Stats}

end Runs

/-- Up to the compaction itself there is nothing to keep it from. -/
def apart (s : State Unit) (_ : Action Unit) : Bool :=
  !s.app.isCompacting && (s.stage != .part .compaction || s.app.compactPending.isNone)

theorem keeps_of_apart {s : State Unit} {action : Action Unit} (h : apart s action = true) :
    Keeps bareTexts s action := by
  simp only [apart, Bool.and_eq_true, Bool.not_eq_true', Bool.or_eq_true, bne_iff_ne] at h
  obtain ⟨hrest, hpending⟩ := h
  have hcalm : ∀ b, Calm s.app b := by
    intro b hcompacting
    rw [hrest] at hcompacting
    cases hcompacting
  cases action with
  | emit | tick | drained | handled => trivial
  | read =>
    intro hcompacting
    rw [hrest] at hcompacting
    cases hcompacting
  | orchestrated => exact hcalm _
  | key => exact hcalm _
  | part found =>
    intro part hstage
    refine ⟨hcalm _, ?_⟩
    rintro rfl hsome
    rcases hpending with hother | hnone
    · exact absurd hstage hother
    · rw [isNone_iff_eq_none.mp hnone] at hsome
      cases hsome

def summarized : List (Action Unit) :=
  submitted "/summarize" ++ submitted "/summarize" ++ round 0 10

def brief : List (Action Unit) :=
  [.part ⟨false, false, none, [], none⟩, .part ⟨false, false, none, [], none⟩,
    .emit (some 0) (.agentResponse "brief"), .emit (some 0) .done, .tick, .read false, .read false]

end ColossalCode.Ui