import ColossalCode.Ui.ToolCalls

/-! When the interface shows each tool call as one entry of its own. -/
namespace ColossalCode.Ui
open Function List Option Call ToolRow StepList

open Transition

variable {Stats : Type*} {texts : Texts Stats} {describeToolCall : String → String → String}
  {a : App Stats} {v before : View Stats} {calls front back : List Call} {call : Call}
  {toolName arguments args result step : String} {id : Nat} {past later : List ToolRow}

/-- A text for the row of a started call of the tool, from the row and its arguments. -/
def rewriteStarted (toolName : String) (new : String → String → String) (message : String) :
    Option String :=
  (parseToolCallStarted message).bind fun parsed =>
    if parsed.1 = toolName then some (new message parsed.2) else none

variable {new : String → String → String} {existing : String} {row : ToolRow}

theorem rewriteStarted_isSome (message : String) :
    (rewriteStarted toolName new message).isSome =
      (readToolCall message).any (isStarted toolName) := by
  unfold rewriteStarted
  cases hparse : parseToolCallStarted message with
  | none =>
    cases hread : readToolCall message with
    | none => rfl
    | some row =>
      cases row with
      | started tool args => simp [readToolCall_started.mp hread] at hparse
      | completed => rfl
  | some parsed =>
    rw [readToolCall_started.mpr hparse]
    by_cases htool : parsed.1 = toolName <;> simp [isStarted, htool]

theorem rewriteStarted_eq {message : String}
    (h : readToolCall message = some (.started toolName args)) :
    rewriteStarted toolName new message = some (new message args) := by
  simp [rewriteStarted, readToolCall_started.mp h]

theorem showToolCallStarted_eq (a : App Stats) (toolName args : String) :
    a.showToolCallStarted toolName args =
      let reads := rewriteStarted toolName fun message existing =>
        if existing = args then message else toolCallStarted toolName args
      if a.rows.any fun row => (reads row.text).isSome then
        { a with rows := rewriteLast reads a.rows }
      else a.push (.agent (toolCallStarted toolName args)) := rfl

theorem showToolCallCompleted_eq (a : App Stats) (toolName result : String) :
    a.showToolCallCompleted texts toolName result =
      let completed := fun args => toolCallCompleted toolName args
        (texts.formatToolResult toolName result (a.rawArgs toolName))
        ((a.rawArgs toolName).getD "")
      let reads := rewriteStarted toolName fun _ args => completed args
      if a.rows.any fun row => (reads row.text).isSome then
        { a with rows := rewriteLast reads a.rows }
      else a.push (.agent (completed
        (((a.rawArgs toolName).map (texts.formatToolArguments toolName)).getD ""))) := rfl

/-- A started row reads back as the call it was made for. -/
def Readable (toolName args : String) : Prop :=
  readToolCall (toolCallStarted toolName args) = some (.started toolName args)

theorem toolRows_showToolCallStarted_new (hread : Readable toolName args)
    (hnone : ∀ row ∈ toolRows a.rows, row.isStarted toolName = false) :
    toolRows (a.showToolCallStarted toolName args).rows =
      toolRows a.rows ++ [.started toolName args] := by
  have hany : (toolRows a.rows).any (isStarted toolName) = false :=
    any_eq_false.mpr fun row hrow => by simp [hnone row hrow]
  rw [showToolCallStarted_eq]
  dsimp only
  rw [any_reads fun row _ => rewriteStarted_isSome row.text, hany, if_neg Bool.false_ne_true]
  have hrow : toolRows [.agent (toolCallStarted toolName args)] = [.started toolName args] := by
    simp only [toolRows, Row.agent, filterMap_cons, filterMap_nil]
    rw [hread]
  exact (toolRows_append _ _).trans (congrArg _ hrow)

theorem any_isStarted (h : toolRows a.rows = past ++ .started toolName args :: later) :
    (toolRows a.rows).any (isStarted toolName) = true := by
  simp [h, isStarted]

theorem toolRows_showToolCallStarted_again (hread : Readable toolName args)
    (hlater : ∀ row ∈ later, row.isStarted toolName = false)
    (h : toolRows a.rows = past ++ .started toolName existing :: later) :
    toolRows (a.showToolCallStarted toolName args).rows =
      past ++ .started toolName args :: later := by
  rw [showToolCallStarted_eq]
  dsimp only
  rw [any_reads fun row _ => rewriteStarted_isSome row.text, any_isStarted h, if_pos rfl]
  refine toolRows_rewriteLast (isStarted toolName)
    (fun row _ => rewriteStarted_isSome row.text) ?_ (by simp [isStarted]) hlater h
  intro row _ new hrow hnew
  rw [rewriteStarted_eq hrow] at hnew
  obtain rfl := some.inj hnew
  split
  · rename_i hsame
    rw [hrow, hsame]
  · exact hread

theorem toolRows_showToolCallCompleted (hraw : a.rawArgs toolName = some arguments)
    (hread : readToolCall (toolCallCompleted toolName args
      (texts.formatToolResult toolName result (some arguments)) arguments) = some row)
    (hlater : ∀ row ∈ later, row.isStarted toolName = false)
    (h : toolRows a.rows = past ++ .started toolName args :: later) :
    toolRows (a.showToolCallCompleted texts toolName result).rows = past ++ row :: later := by
  rw [showToolCallCompleted_eq, hraw]
  dsimp only
  rw [any_reads fun row _ => rewriteStarted_isSome row.text, any_isStarted h, if_pos rfl]
  refine toolRows_rewriteLast (isStarted toolName)
    (fun row _ => rewriteStarted_isSome row.text) ?_ (by simp [isStarted]) hlater h
  intro other _ new hother hnew
  rw [rewriteStarted_eq hother] at hnew
  obtain rfl := some.inj hnew
  exact hread

theorem toolRows_animate (a : App Stats) : toolRows a.animate.rows = toolRows a.rows :=
  toolRows_ensurePlaceholder _ _

theorem toolRows_before_start (a : App Stats) (stored : Option (String × String)) :
    toolRows ({ a.removePlaceholder.flushSummary false with lastToolArgs := stored }).rows =
      toolRows a.rows :=
  (toolRows_flushSummary _ _).trans (toolRows_removePlaceholder _)

theorem toolRows_toolStarted_new
    (hread : Readable toolName (texts.formatToolArguments toolName arguments))
    (hnone : ∀ row ∈ toolRows a.rows, row.isStarted toolName = false) :
    toolRows (a.toolStarted texts toolName arguments).rows =
      toolRows a.rows ++ [.started toolName (texts.formatToolArguments toolName arguments)] := by
  have hsame := toolRows_before_start a (some (toolName, arguments))
  refine (toolRows_animate _).trans ?_
  refine (toolRows_showToolCallStarted_new hread ?_).trans (congrArg (· ++ _) hsame)
  rwa [hsame]

theorem toolRows_toolStarted_again
    (hread : Readable toolName (texts.formatToolArguments toolName arguments))
    (hlater : ∀ row ∈ later, row.isStarted toolName = false)
    (h : toolRows a.rows = past ++ .started toolName existing :: later) :
    toolRows (a.toolStarted texts toolName arguments).rows =
      past ++ .started toolName (texts.formatToolArguments toolName arguments) :: later := by
  have hsame := toolRows_before_start a (some (toolName, arguments))
  exact (toolRows_animate _).trans
    (toolRows_showToolCallStarted_again hread hlater (hsame.trans h))

/-- What comes before the row of a completed call is looked for: the rows but for the placeholder, and
the arguments as they were. -/
theorem before_completion (texts : Texts Stats) (a : App Stats) (toolName result : String) :
    let b := ((a.askForPath texts result).startOrchestration texts toolName result).removePlaceholder
    toolRows b.rows = toolRows a.rows ∧ b.lastToolArgs = a.lastToolArgs := by
  have hask : (a.askForPath texts result).rows = a.rows ∧
      (a.askForPath texts result).lastToolArgs = a.lastToolArgs := by
    unfold App.askForPath
    split <;> exact ⟨rfl, rfl⟩
  have hstart (b : App Stats) : toolRows (b.startOrchestration texts toolName result).rows =
      toolRows b.rows ∧ (b.startOrchestration texts toolName result).lastToolArgs =
        b.lastToolArgs := by
    unfold App.startOrchestration
    split
    · split
      · exact ⟨toolRows_removePlaceholder _, rfl⟩
      · exact ⟨rfl, rfl⟩
    · exact ⟨rfl, rfl⟩
  obtain ⟨hrows, hlast⟩ := hstart (a.askForPath texts result)
  exact ⟨(toolRows_removePlaceholder _).trans (hrows.trans (by rw [hask.1])),
    hlast.trans hask.2⟩

theorem toolRows_toolCompleted (hlast : a.lastToolArgs = some (toolName, arguments))
    (hread : readToolCall (toolCallCompleted toolName args
      (texts.formatToolResult toolName result (some arguments)) arguments) = some row)
    (hlater : ∀ row ∈ later, row.isStarted toolName = false)
    (h : toolRows a.rows = past ++ .started toolName args :: later) :
    toolRows (a.toolCompleted texts toolName result).rows = past ++ row :: later := by
  obtain ⟨hrows, hstored⟩ := before_completion texts a toolName result
  have hshown := toolRows_showToolCallCompleted (by simp [App.rawArgs, hstored, hlast]) hread hlater
    (hrows.trans h)
  unfold App.toolCompleted
  dsimp only
  split
  · exact hshown
  · rw [toolRows_animate]
    exact hshown

theorem changeCall_split (hids : ((front ++ call :: back).map Call.id).Nodup)
    (change : Call → Call) :
    changeCall call.id change (front ++ call :: back) = front ++ change call :: back := by
  have hsame (calls : List Call) (hnot : call.id ∉ calls.map Call.id) :
      changeCall call.id change calls = calls := by
    unfold changeCall
    refine (map_congr_left fun other hother => ?_).trans (map_id calls)
    rw [if_neg]
    · rfl
    · exact fun hid => hnot (hid ▸ mem_map_of_mem hother)
  rw [map_append, map_cons, nodup_append] at hids
  obtain ⟨-, hback, hapart⟩ := hids
  have hfront : call.id ∉ front.map Call.id := fun hmem =>
    hapart _ hmem _ mem_cons_self rfl
  have hmap : changeCall call.id change (front ++ call :: back) =
      changeCall call.id change front ++ change call :: changeCall call.id change back := by
    simp [changeCall]
  rw [hmap, hsame front hfront, hsame back (nodup_cons.mp hback).1]

/-- The rows are those of before and those of the calls; of a call that is open the row can be told
from all the others. -/
structure Transcript (texts : Texts Stats) (past shown : List ToolRow) (calls : List Call) :
    Prop where
  rows : shown = past ++ calls.filterMap (transcriptRow texts)
  started : ∀ call ∈ calls, call.ofAgent = true → call.outcome = none →
    shown.countP (isStarted call.toolName) = 1

namespace Transcript

variable {shown : List ToolRow} {changed : Call}

theorem row_open (hopen : call.outcome = none) : call.row texts =
    .started call.toolName (texts.formatToolArguments call.toolName call.arguments) := by
  simp [row, hopen]

theorem isStarted_open (hopen : call.outcome = none) (tool : String) :
    (call.row texts).isStarted tool = decide (call.toolName = tool) := by
  rw [row_open hopen]
  rfl

/-- Where the row of an open call stands. -/
theorem split (h : Transcript texts past shown (front ++ call :: back))
    (hagent : call.ofAgent = true) (hopen : call.outcome = none) :
    shown = (past ++ front.filterMap (transcriptRow texts)) ++
      .started call.toolName (texts.formatToolArguments call.toolName call.arguments) ::
        back.filterMap (transcriptRow texts) ∧
    ∀ row ∈ (past ++ front.filterMap (transcriptRow texts)) ++
      back.filterMap (transcriptRow texts), row.isStarted call.toolName = false := by
  have hrows : shown = (past ++ front.filterMap (transcriptRow texts)) ++
      .started call.toolName (texts.formatToolArguments call.toolName call.arguments) ::
        back.filterMap (transcriptRow texts) := by
    rw [h.rows, ← row_open hopen]
    simp [transcriptRow, hagent]
  refine ⟨hrows, ?_⟩
  have hone := h.started call (by simp) hagent hopen
  rw [hrows, countP_append, countP_cons_of_pos (by simp [isStarted])] at hone
  have hzero : ((past ++ front.filterMap (transcriptRow texts)) ++
      back.filterMap (transcriptRow texts)).countP (isStarted call.toolName) = 0 := by
    rw [countP_append]
    omega
  intro row hrow
  simpa using countP_eq_zero.mp hzero row hrow

theorem add (h : Transcript texts past shown calls) (hagent : call.ofAgent = true)
    (hopen : call.outcome = none) (hnone : ∀ row ∈ shown, row.isStarted call.toolName = false) :
    Transcript texts past (shown ++ [call.row texts]) (calls ++ [call]) where
  rows := by simp [h.rows, transcriptRow, hagent]
  started := by
    intro other hother hothers hwaits
    have hzero : shown.countP (isStarted call.toolName) = 0 :=
      countP_eq_zero.mpr fun row hrow => by simp [hnone row hrow]
    rw [countP_append]
    rcases mem_append.mp hother with hold | hnew
    · have hone := h.started other hold hothers hwaits
      have hdiffer : call.toolName ≠ other.toolName := fun heq => by
        rw [heq, hone] at hzero
        cases hzero
      rw [hone, countP_cons_of_neg (by simp [isStarted_open hopen, hdiffer])]
      rfl
    · obtain rfl := mem_singleton.mp hnew
      rw [hzero, countP_cons_of_pos (by simp [isStarted_open hopen])]
      rfl

theorem add_other (h : Transcript texts past shown calls) (hagent : call.ofAgent = false) :
    Transcript texts past shown (calls ++ [call]) where
  rows := by simp [h.rows, transcriptRow, hagent]
  started := by
    intro other hother hothers hwaits
    rcases mem_append.mp hother with hold | hnew
    · exact h.started other hold hothers hwaits
    · rw [mem_singleton.mp hnew, hagent] at hothers
      cases hothers

theorem change_other (h : Transcript texts past shown (front ++ call :: back))
    (hagent : call.ofAgent = false) (hchanged : changed.ofAgent = false) :
    Transcript texts past shown (front ++ changed :: back) where
  rows := by simpa [transcriptRow, hagent, hchanged] using h.rows
  started := by
    intro other hother hothers hwaits
    rcases mem_append.mp hother with hfront | hback
    · exact h.started other (by simp [hfront]) hothers hwaits
    · rcases mem_cons.mp hback with rfl | hback
      · rw [hchanged] at hothers
        cases hothers
      · exact h.started other (by simp [hback]) hothers hwaits

/-- The row of an open call gives way to another of the same call. -/
theorem change (h : Transcript texts past shown (front ++ call :: back))
    (hagent : call.ofAgent = true) (hopen : call.outcome = none)
    (hchanged : changed.ofAgent = true) (htool : changed.toolName = call.toolName) :
    Transcript texts past ((past ++ front.filterMap (transcriptRow texts)) ++
      changed.row texts :: back.filterMap (transcriptRow texts))
      (front ++ changed :: back) where
  rows := by simp [transcriptRow, hchanged]
  started := by
    intro other hother hothers hwaits
    obtain ⟨hrows, hnone⟩ := h.split hagent hopen
    by_cases hself : other = changed
    · -- no other row is of an open call of this tool
      subst hself
      have hzero := countP_eq_zero.mpr fun row hrow => by simpa using hnone row hrow
      rw [countP_append] at hzero
      rw [countP_append, countP_cons_of_pos (by simp [isStarted_open hwaits]), htool]
      omega
    · have hold : other ∈ front ++ back := by
        simpa [hself] using hother
      have hone := h.started other (by
        rcases mem_append.mp hold with hin | hin <;> simp [hin]) hothers hwaits
      have hdiffer : call.toolName ≠ other.toolName := by
        intro heq
        have hrow : other.row texts ∈ (past ++ front.filterMap (transcriptRow texts)) ++
            back.filterMap (transcriptRow texts) := by
          have hmem : other.row texts ∈ (front ++ back).filterMap (transcriptRow texts) :=
            mem_filterMap.mpr ⟨other, hold, by simp [transcriptRow, hothers]⟩
          simp only [filterMap_append, append_assoc, mem_append] at hmem ⊢
          exact .inr hmem
        have hfalse := hnone _ hrow
        simp [isStarted_open hwaits, heq] at hfalse
      have hnew : (changed.row texts).isStarted other.toolName = false := by
        unfold row
        dsimp only
        split <;> simp [isStarted, htool, hdiffer]
      rw [hrows, countP_append,
        countP_cons_of_neg (by simp [isStarted, hdiffer])] at hone
      rw [countP_append, countP_cons_of_neg (by simp [hnew])]
      exact hone

end Transcript

def ids (entries : List StepToolCallEntry) : List Nat := entries.map (·.id)

@[simp] theorem ids_settleEntry (id : Nat) (status : ToolCallStatus)
    (entries : List StepToolCallEntry) : ids (settleEntry id status entries) = ids entries := by
  induction entries with
  | nil => rfl
  | cons entry entries ih =>
    unfold settleEntry
    split
    · rfl
    · exact congrArg (entry.id :: ·) ih

theorem settleEntry_split {old status : ToolCallStatus} {label : String}
    {earlier rest : List StepToolCallEntry} (hearlier : id ∉ ids earlier) :
    settleEntry id status (earlier ++ ⟨id, label, old⟩ :: rest) =
      earlier ++ ⟨id, label, status⟩ :: rest := by
  induction earlier with
  | nil => simp [settleEntry]
  | cons other earlier ih =>
    obtain ⟨hother, hearlier⟩ : id ≠ other.id ∧ id ∉ ids earlier := by
      simpa [ids] using hearlier
    have hne : other.id ≠ id := fun heq => hother heq.symm
    simp [settleEntry, hne, ih hearlier]

/-- No entry in the list of the step has the number that is given out next. -/
def StepList.Fresh (l : StepList) (step : String) : Prop :=
  l.nextToolCallId ∉ ids (l.stepToolCalls step)

/-- The entries are those of before and those of the calls, each under a number that is no other's. -/
structure Listed (describeToolCall : String → String → String)
    (past : String → List StepToolCallEntry) (l : StepList) (calls : List Call) : Prop where
  entries : ∀ step, l.stepToolCalls step =
    past step ++ calls.filterMap (Call.entry describeToolCall l.stepLabelOverrides step)
  unique : ∀ call ∈ calls, ∀ place, call.place = some place →
    (ids (l.stepToolCalls place.1)).count place.2 = 1

namespace Listed

variable {past : String → List StepToolCallEntry} {l : StepList} {changed : Call}
  {place : String × Nat}

theorem congr {k : StepList} (h : Listed describeToolCall past l calls)
    (hcalls : k.stepToolCalls = l.stepToolCalls)
    (hlabels : k.stepLabelOverrides = l.stepLabelOverrides) :
    Listed describeToolCall past k calls := by
  obtain ⟨hentries, hunique⟩ := h
  constructor
  · rwa [hcalls, hlabels]
  · rwa [hcalls]

theorem add (h : Listed describeToolCall past l calls) (hfresh : l.Fresh step)
    (hplace : call.place = some (step, l.nextToolCallId)) (hopen : call.outcome = none) :
    Listed describeToolCall past
      (l.handleToolCallStarted describeToolCall step call.toolName call.arguments)
      (calls ++ [call]) where
  entries := by
    intro other
    have hlast : [call].filterMap (Call.entry describeToolCall l.stepLabelOverrides other) =
        if other = step then [⟨l.nextToolCallId, toolCallLabel describeToolCall
          l.stepLabelOverrides step call.toolName call.arguments, .started⟩] else [] := by
      by_cases hother : other = step
      · subst hother
        simp [Call.entry, status, hplace, hopen]
      · have hne : step ≠ other := fun heq => hother heq.symm
        simp [Call.entry, hplace, hother, hne]
    have hpart := h.entries other
    simp only [handleToolCallStarted, filterMap_append, hlast]
    by_cases hother : other = step
    · subst hother
      simp [hpart]
    · simp [hother, hpart]
  unique := by
    intro other hother at_ hat
    have hone (hold : other ∈ calls) := h.unique other hold at_ hat
    simp only [handleToolCallStarted]
    by_cases hstep : at_.1 = step
    · rw [hstep, update_self, ids, map_append, count_append]
      rcases mem_append.mp hother with hold | hnew
      · have hcount := hone hold
        rw [hstep] at hcount
        have hdiffer : l.nextToolCallId ≠ at_.2 := by
          intro heq
          rw [← heq, count_eq_zero.mpr hfresh] at hcount
          cases hcount
        rw [show (l.stepToolCalls step).map (·.id) = ids (l.stepToolCalls step) from rfl, hcount]
        simp [hdiffer]
      · rw [mem_singleton.mp hnew, hplace] at hat
        obtain rfl := some.inj hat
        have hzero := count_eq_zero.mpr hfresh
        rw [ids] at hzero
        simp [hzero]
    · rw [update_of_ne hstep]
      rcases mem_append.mp hother with hold | hnew
      · exact hone hold
      · rw [mem_singleton.mp hnew, hplace] at hat
        obtain rfl := some.inj hat
        exact absurd rfl hstep

theorem add_unplaced (h : Listed describeToolCall past l calls) (hplace : call.place = none) :
    Listed describeToolCall past l (calls ++ [call]) where
  entries := fun step => by simp [h.entries step, Call.entry, hplace]
  unique := by
    intro other hother place hat
    rcases mem_append.mp hother with hold | hnew
    · exact h.unique other hold place hat
    · rw [mem_singleton.mp hnew, hplace] at hat
      cases hat

theorem change_unplaced (h : Listed describeToolCall past l (front ++ call :: back))
    (hplace : call.place = none) (hchanged : changed.place = none) :
    Listed describeToolCall past l (front ++ changed :: back) where
  entries := fun step => by simp [h.entries step, Call.entry, hplace, hchanged]
  unique := by
    intro other hother place hat
    rcases mem_append.mp hother with hfront | hback
    · exact h.unique other (by simp [hfront]) place hat
    · rcases mem_cons.mp hback with rfl | hback
      · rw [hchanged] at hat
        cases hat
      · exact h.unique other (by simp [hback]) place hat

/-- The entry of a call is settled, and no other one. -/
theorem settle {isError : Bool} (h : Listed describeToolCall past l (front ++ call :: back))
    (hplace : call.place = some place) :
    Listed describeToolCall past (l.settle place isError)
      (front ++ call.settled result isError :: back) where
  entries := by
    intro step
    have hpart := h.entries step
    simp only [StepList.settle]
    by_cases hstep : step = place.1
    · subst hstep
      have hentry : call.entry describeToolCall l.stepLabelOverrides place.1 =
          some ⟨place.2, toolCallLabel describeToolCall l.stepLabelOverrides place.1 call.toolName
            call.arguments, call.status⟩ := by
        simp [Call.entry, hplace]
      have hsettled : (call.settled result isError).entry describeToolCall l.stepLabelOverrides
          place.1 = some ⟨place.2, toolCallLabel describeToolCall l.stepLabelOverrides place.1
            call.toolName call.arguments, statusFor isError⟩ := by
        simp [Call.entry, Call.settled, Call.status, hplace]
      have hone := h.unique call (by simp) place hplace
      rw [filterMap_append, filterMap_cons_some hentry, ← append_assoc] at hpart
      rw [update_self, filterMap_append, filterMap_cons_some hsettled,
        ← append_assoc, hpart]
      apply settleEntry_split
      rw [hpart, ids, map_append, map_cons, count_append, count_cons_self]
        at hone
      apply count_eq_zero.mp
      rw [ids]
      omega
    · have hne : place.1 ≠ step := fun heq => hstep heq.symm
      have hsame : (call.settled result isError).entry describeToolCall l.stepLabelOverrides step =
          call.entry describeToolCall l.stepLabelOverrides step := by
        simp [Call.entry, Call.settled, hplace, Option.filter, hne]
      rw [update_of_ne hstep, hpart]
      rw [filterMap_append, filterMap_append, filterMap_cons, filterMap_cons,
        hsame]
  unique := by
    intro other hother at_ hat
    have hold : ∃ call' ∈ front ++ call :: back, call'.place = some at_ := by
      rcases mem_append.mp hother with hfront | hback
      · exact ⟨other, by simp [hfront], hat⟩
      · rcases mem_cons.mp hback with rfl | hback
        · exact ⟨call, by simp, hat⟩
        · exact ⟨other, by simp [hback], hat⟩
    obtain ⟨call', hmem, hat'⟩ := hold
    have hone := h.unique call' hmem at_ hat'
    simp only [StepList.settle]
    by_cases hstep : at_.1 = place.1
    · rw [hstep, update_self, ids_settleEntry, ← hstep]
      exact hone
    · rw [update_of_ne hstep]
      exact hone

end Listed

/-- Nothing that a message of a call is shown by belongs to another call: a started row of the tool, the
arguments remembered last, the active entry. And what is written is read back. -/
def Unmistaken (texts : Texts Stats) (calls : List Call) (v : View Stats) : ToolMessage → Prop
  | .toolCallStarted id toolName arguments =>
    Readable toolName (texts.formatToolArguments toolName arguments) ∧
    ((∃ call ∈ calls, call.id = id) → v.list.shownStep = none) ∧
    ((∀ call ∈ calls, call.id ≠ id) →
      (∀ row ∈ toolRows v.app.rows, row.isStarted toolName = false) ∧
      ∀ step ∈ v.list.shownStep, v.list.Fresh step)
  | .toolCallCompleted id toolName result => ∀ call ∈ calls, call.id = id →
    v.app.lastToolArgs = some (toolName, call.arguments) ∧
    v.list.activeToolCall = call.place ∧
    readToolCall (toolCallCompleted toolName (texts.formatToolArguments toolName call.arguments)
      (texts.formatToolResult toolName result (some call.arguments)) call.arguments) =
        some ((call.settled result (isToolErrorResult result)).row texts)
  | .stepToolCallStarted id step _ _ => (∀ call ∈ calls, call.id ≠ id) ∧ v.list.Fresh step
  | .stepToolCallCompleted id _ _ _ _ => ∀ call ∈ calls, call.id = id →
    v.list.activeToolCall = call.place

instance decidableFresh (l : StepList) (step : String) : Decidable (l.Fresh step) :=
  inferInstanceAs (Decidable (l.nextToolCallId ∉ ids (l.stepToolCalls step)))

instance decidableReadable (toolName args : String) : Decidable (Readable toolName args) :=
  inferInstanceAs (Decidable (readToolCall (toolCallStarted toolName args) =
    some (.started toolName args)))

instance decidableUnmistaken (texts : Texts Stats) (calls : List Call) (v : View Stats)
    (m : ToolMessage) : Decidable (Unmistaken texts calls v m) := by
  cases m <;> unfold Unmistaken <;> infer_instance

/-- The messages of a turn, as the agent and the orchestrator may send them. -/
def watched (texts : Texts Stats) (describeToolCall : String → String → String) :
    View Stats × List Call → ToolMessage → Option (View Stats × List Call) :=
  watch (View.handle texts describeToolCall) noteCalls

/-- Each call of the turn has been numbered once, and each is shown. -/
structure Attributed (texts : Texts Stats) (describeToolCall : String → String → String)
    (before : View Stats) (p : View Stats × List Call) : Prop where
  once : (p.2.map Call.id).Nodup
  transcript : Transcript texts (toolRows before.app.rows) (toolRows p.1.app.rows) p.2
  listed : Listed describeToolCall before.list.stepToolCalls p.1.list p.2
  unlisted : p.1.list.shownStep = none → ∀ call ∈ p.2, call.ofAgent = true → call.place = none

theorem attributed_start (before : View Stats) :
    Attributed texts describeToolCall before (before, []) where
  once := nodup_nil
  transcript := ⟨by simp, by simp⟩
  listed := ⟨by simp, by simp⟩
  unlisted := by simp

@[simp] theorem shownStep_agentToolStarted (l : StepList) (toolName arguments : String) :
    (l.agentToolStarted describeToolCall toolName arguments).shownStep = l.shownStep := by
  unfold agentToolStarted
  split <;> rfl

@[simp] theorem shownStep_agentToolCompleted (l : StepList) (result : String) :
    (l.agentToolCompleted result).shownStep = l.shownStep := by
  unfold agentToolCompleted
  dsimp only
  split <;> rfl

@[simp] theorem shownStep_handleToolCallCompleted (l : StepList) (step : String) (isError : Bool) :
    (l.handleToolCallCompleted step isError).shownStep = l.shownStep := by
  unfold handleToolCallCompleted
  dsimp only
  split
  · split <;> rfl
  · rfl

namespace Attributed

variable {p q : View Stats × List Call}

theorem exists_split (hp : Attributed texts describeToolCall before p) (hmem : call ∈ p.2) :
    ∃ front back, p.2 = front ++ call :: back ∧
      ∀ change, changeCall call.id change p.2 = front ++ change call :: back := by
  obtain ⟨front, back, hsplit⟩ := append_of_mem hmem
  have honce := hp.once
  rw [hsplit] at honce
  exact ⟨front, back, hsplit, fun change => by rw [hsplit, changeCall_split honce]⟩

theorem once_add (hp : Attributed texts describeToolCall before p)
    (hnew : ∀ other ∈ p.2, other.id ≠ call.id) : ((p.2 ++ [call]).map Call.id).Nodup := by
  rw [map_append, nodup_append]
  refine ⟨hp.once, by simp, ?_⟩
  intro a ha b hb
  obtain ⟨other, hother, rfl⟩ := mem_map.mp ha
  obtain rfl : b = call.id := by simpa using hb
  exact hnew other hother

variable {changed : Call}

theorem once_change (hp : Attributed texts describeToolCall before p)
    (hsplit : p.2 = front ++ call :: back) (hid : changed.id = call.id) :
    ((front ++ changed :: back).map Call.id).Nodup := by
  have honce := hp.once
  rw [hsplit] at honce
  simpa [hid] using honce

theorem unlisted_add (hp : Attributed texts describeToolCall before p) {l : StepList}
    (hshown : l.shownStep = p.1.list.shownStep)
    (hcall : p.1.list.shownStep = none → call.ofAgent = true → call.place = none) :
    l.shownStep = none → ∀ other ∈ p.2 ++ [call], other.ofAgent = true → other.place = none := by
  intro hnone other hother
  rw [hshown] at hnone
  rcases mem_append.mp hother with hold | hnew
  · exact hp.unlisted hnone other hold
  · rw [mem_singleton.mp hnew]
    exact hcall hnone

theorem unlisted_change (hp : Attributed texts describeToolCall before p) {l : StepList}
    (hshown : l.shownStep = p.1.list.shownStep)
    (hsplit : p.2 = front ++ call :: back) (hagent : changed.ofAgent = call.ofAgent)
    (hplace : changed.place = call.place) :
    l.shownStep = none → ∀ other ∈ front ++ changed :: back, other.ofAgent = true →
      other.place = none := by
  intro hnone other hother
  rw [hshown] at hnone
  have hold := hp.unlisted hnone
  rw [hsplit] at hold
  rcases mem_append.mp hother with hfront | hback
  · exact hold other (by simp [hfront])
  · rcases mem_cons.mp hback with rfl | hback
    · rw [hagent, hplace]
      exact hold call (by simp)
    · exact hold other (by simp [hback])

theorem agent_start_again (hp : Attributed texts describeToolCall before p) (hmem : call ∈ p.2)
    (hagent : call.ofAgent = true) (hopen : call.outcome = none)
    (hread : Readable call.toolName (texts.formatToolArguments call.toolName arguments))
    (hnone : p.1.list.shownStep = none) :
    Attributed texts describeToolCall before
      (⟨p.1.app.toolStarted texts call.toolName arguments,
        p.1.list.agentToolStarted describeToolCall call.toolName arguments⟩,
        changeCall call.id (fun call => call.announced arguments) p.2) := by
  have hplace := hp.unlisted hnone call hmem hagent
  obtain ⟨front, back, hsplit, hchange⟩ := hp.exists_split hmem
  have htranscript := hp.transcript
  have hlisted := hp.listed
  rw [hsplit] at htranscript hlisted
  obtain ⟨hrows, hothers⟩ := htranscript.split hagent hopen
  have hlater : ∀ row ∈ back.filterMap (Call.transcriptRow texts),
      row.isStarted call.toolName = false := fun row hrow => hothers row (by simp [hrow])
  have hlist : p.1.list.agentToolStarted describeToolCall call.toolName arguments = p.1.list := by
    simp [agentToolStarted, hnone]
  rw [hchange, hlist]
  refine ⟨hp.once_change hsplit rfl, ?_, hlisted.change_unplaced hplace hplace,
    hp.unlisted_change rfl hsplit rfl rfl⟩
  have hopen' : (call.announced arguments).outcome = none := hopen
  have hrow : (call.announced arguments).row texts = _ := Transcript.row_open hopen'
  rw [toolRows_toolStarted_again hread hlater hrows]
  exact hrow ▸ htranscript.change hagent hopen (show (call.announced arguments).ofAgent = true from
    hagent) rfl

theorem agent_start_new (hp : Attributed texts describeToolCall before p)
    (hread : Readable toolName (texts.formatToolArguments toolName arguments))
    (hnew : ∀ other ∈ p.2, other.id ≠ id)
    (hnone : ∀ row ∈ toolRows p.1.app.rows, row.isStarted toolName = false)
    (hfresh : ∀ step, p.1.list.shownStep = some step → p.1.list.Fresh step) :
    Attributed texts describeToolCall before
      (⟨p.1.app.toolStarted texts toolName arguments,
        p.1.list.agentToolStarted describeToolCall toolName arguments⟩,
        p.2 ++ [⟨id, true, p.1.list.shownStep.map fun step => (step, p.1.list.nextToolCallId),
          toolName, arguments, none⟩]) := by
  refine ⟨hp.once_add hnew, ?_, ?_, hp.unlisted_add (by simp) (by simp +contextual)⟩
  · rw [toolRows_toolStarted_new hread hnone]
    exact Transcript.add hp.transcript (show Call.ofAgent ⟨_, _, _, _, _, _⟩ = true from rfl) rfl hnone
  · unfold agentToolStarted
    cases hstep : p.1.list.shownStep with
    | some step =>
      let call : Call := ⟨id, true, some (step, p.1.list.nextToolCallId), toolName, arguments, none⟩
      exact hp.listed.add (hfresh step hstep) (show call.place = _ from rfl) rfl
    | none => exact hp.listed.add_unplaced rfl

theorem agent_completed (hp : Attributed texts describeToolCall before p) (hmem : call ∈ p.2)
    (hagent : call.ofAgent = true) (hopen : call.outcome = none)
    (hlast : p.1.app.lastToolArgs = some (call.toolName, call.arguments))
    (hactive : p.1.list.activeToolCall = call.place)
    (hread : readToolCall (toolCallCompleted call.toolName
      (texts.formatToolArguments call.toolName call.arguments)
      (texts.formatToolResult call.toolName result (some call.arguments)) call.arguments) =
        some ((call.settled result (isToolErrorResult result)).row texts)) :
    Attributed texts describeToolCall before
      (⟨p.1.app.toolCompleted texts call.toolName result, p.1.list.agentToolCompleted result⟩,
        changeCall call.id (fun call => call.settled result (isToolErrorResult result)) p.2) := by
  obtain ⟨front, back, hsplit, hchange⟩ := hp.exists_split hmem
  have htranscript := hp.transcript
  have hlisted := hp.listed
  rw [hsplit] at htranscript hlisted
  obtain ⟨hrows, hothers⟩ := htranscript.split hagent hopen
  have hlater : ∀ row ∈ back.filterMap (Call.transcriptRow texts),
      row.isStarted call.toolName = false := fun row hrow => hothers row (by simp [hrow])
  have htaken : Listed describeToolCall before.list.stepToolCalls
      { p.1.list with activeToolCall := none } (front ++ call :: back) := hlisted.congr rfl rfl
  rw [hchange]
  refine ⟨hp.once_change hsplit rfl, ?_, ?_, hp.unlisted_change (by simp) hsplit rfl rfl⟩
  · rw [toolRows_toolCompleted hlast hread hlater hrows]
    exact htranscript.change hagent hopen hagent rfl
  · unfold agentToolCompleted
    rw [hactive]
    cases hplace : call.place with
    | some place => exact htaken.settle hplace
    | none => exact htaken.change_unplaced hplace hplace

theorem step_start (hp : Attributed texts describeToolCall before p)
    (hnew : ∀ other ∈ p.2, other.id ≠ id) (hfresh : p.1.list.Fresh step) :
    Attributed texts describeToolCall before
      (⟨p.1.app, p.1.list.handleToolCallStarted describeToolCall step toolName arguments⟩,
        p.2 ++ [⟨id, false, some (step, p.1.list.nextToolCallId), toolName, arguments, none⟩]) where
  once := hp.once_add hnew
  transcript := hp.transcript.add_other rfl
  listed := by
    let call : Call := ⟨id, false, some (step, p.1.list.nextToolCallId), toolName, arguments, none⟩
    exact hp.listed.add hfresh (show call.place = _ from rfl) rfl
  unlisted := hp.unlisted_add rfl (by simp)

theorem step_completed {isError : Bool} (hp : Attributed texts describeToolCall before p)
    (hmem : call ∈ p.2) (hagent : call.ofAgent = false)
    (hplace : call.place.map (·.1) = some step) (hactive : p.1.list.activeToolCall = call.place) :
    Attributed texts describeToolCall before
      (⟨p.1.app, p.1.list.handleToolCallCompleted step isError⟩,
        changeCall call.id (fun call => call.settled result isError) p.2) := by
  obtain ⟨front, back, hsplit, hchange⟩ := hp.exists_split hmem
  have htranscript := hp.transcript
  have hlisted := hp.listed
  rw [hsplit] at htranscript hlisted
  obtain ⟨place, hat, rfl⟩ := map_eq_some_iff.mp hplace
  have htaken : Listed describeToolCall before.list.stepToolCalls
      { p.1.list with activeToolCall := none } (front ++ call :: back) := hlisted.congr rfl rfl
  rw [hchange]
  refine ⟨hp.once_change hsplit rfl, htranscript.change_other hagent hagent, ?_,
    hp.unlisted_change (by simp) hsplit rfl rfl⟩
  unfold handleToolCallCompleted
  rw [hactive, hat]
  dsimp only
  rw [if_pos rfl]
  exact htaken.settle hat

end Attributed

/-- One message keeps the calls apart. -/
theorem attributed_step {m : ToolMessage} {p q : View Stats × List Call}
    (hproduced : Produced p.2 m) (hown : Unmistaken texts p.2 p.1 m)
    (hs : watched texts describeToolCall p m = some q)
    (hp : Attributed texts describeToolCall before p) :
    Attributed texts describeToolCall before q := by
  obtain ⟨hv, hcalls⟩ := watch_eq_some.mp hs
  obtain ⟨v, calls⟩ := q
  obtain rfl : calls = _ := hcalls
  cases m with
  | toolCallStarted id toolName arguments =>
    obtain rfl := some.inj hv
    obtain ⟨hread, hagain, hfirst⟩ := hown
    simp only [noteCalls]
    by_cases hknown : ∃ call ∈ p.2, call.id = id
    · rw [if_pos (by simpa using hknown)]
      have hnone := hagain hknown
      obtain ⟨call, hmem, rfl⟩ := hknown
      obtain ⟨hagent, rfl, hopen⟩ := hproduced call hmem rfl
      exact hp.agent_start_again hmem hagent hopen hread hnone
    · rw [if_neg (by simpa using hknown)]
      have hnew : ∀ call ∈ p.2, call.id ≠ id := by simpa using hknown
      obtain ⟨hnone, hfresh⟩ := hfirst hnew
      exact hp.agent_start_new hread hnew hnone hfresh
  | toolCallCompleted id toolName result =>
    obtain rfl := some.inj hv
    obtain ⟨call, hmem, rfl, hagent, rfl, hopen⟩ := hproduced
    obtain ⟨hlast, hactive, hread⟩ := hown call hmem rfl
    exact hp.agent_completed hmem hagent hopen hlast hactive hread
  | stepToolCallStarted id step toolName arguments =>
    obtain rfl := some.inj hv
    obtain ⟨hnew, hfresh⟩ := hown
    simp only [noteCalls]
    rw [if_neg (by simpa using hnew)]
    exact hp.step_start hnew hfresh
  | stepToolCallCompleted id step toolName result isError =>
    obtain rfl := some.inj hv
    obtain ⟨call, hmem, rfl, hagent, hplace, -, -⟩ := hproduced
    exact hp.step_completed hmem hagent hplace (hown call hmem rfl)

def plainTexts : Texts Unit :=
  ⟨fun _ arguments => arguments, fun _ result _ => result, fun _ => none, fun _ => none,
    fun _ => "", fun _ _ => true, fun _ => .clear, fun options => options, fun _ _ => ""⟩

/-- A step of a plan is in progress, and nothing has been shown yet. -/
def emptyView : View Unit := ⟨.new false [], true, some "1", fun _ => none, fun _ => [], none, 0⟩

def sequentialTurn : List ToolMessage :=
  [.toolCallStarted 0 "read" "a", .toolCallCompleted 0 "read" "x", .toolCallStarted 1 "read" "b",
    .toolCallCompleted 1 "read" "error: y", .stepToolCallStarted 2 "1" "edit" "c",
    .stepToolCallCompleted 2 "1" "edit" "z" false]

/-- Two calls of one tool start before the first of them completes. -/
def parallelTurn : List ToolMessage :=
  [.toolCallStarted 0 "read" "a", .toolCallStarted 1 "read" "b", .toolCallCompleted 0 "read" "x",
    .toolCallCompleted 1 "read" "y"]

end ColossalCode.Ui
