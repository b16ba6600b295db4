import ColossalCode.Agent.Announced
import ColossalCode.A2A.Execution

/-! The tool logs that are kept of a generation from its messages, against the calls it makes. -/
namespace ColossalCode.A2A
open List Option Pending

open Protocol
open Orchestrator (AgentMessage Arrival Collected Execution collect handleAgentMessage setToolResult
  awaitsResult)
open ColossalCode.Agent (Reply Ended Response ToolCallResponse Progress ThinkingTags Conversation
  runGeneration readTurn callTool afterTools returns announced AnnouncedOnce)

/-- A message of a generation as it is read from its channel. -/
def relayed : Agent.AgentMessage → AgentMessage
  | .thinkingContent text _ => .thinkingContent (String.ofList text)
  | .agentResponse text _ => .agentResponse (String.ofList text)
  | .toolCallStarted name arguments => .toolCallStarted name arguments
  | .toolCallCompleted name result => .toolCallCompleted name result
  | .error message => .error message
  | .done => .done

section Generation

variable {W : Type} (execute : W → ToolCallResponse → W × Except String String)
  (failureYaml : String → String → String)

/-- The turns of a generation that have calls, with what these return. -/
def turnsOf (tags : ThinkingTags) :
    List Reply → W → List (List Response × List (ToolCallResponse × String))
  | .streamed responses :: replies, world =>
    let turn := readTurn tags responses
    let (results, world) := returns execute failureYaml turn.calls world
    if turn.calls.isEmpty then [] else (responses, results) :: turnsOf tags replies world
  | _, _ => []

/-- A call with its result, as a log should hold it. -/
def madeCall (result : ToolCallResponse × String) : Pending.Made String String String :=
  (result.1.function.name, result.1.function.arguments, result.2)

/-- The calls of a turn are announced as they are made, and those of one tool have the same results
from the last to the first. -/
def Matched (turn : List Response × List (ToolCallResponse × String)) : Prop :=
  AnnouncedOnce turn.1 ∧ ∀ name, (resultsOf name (turn.2.map madeCall)).reverse =
    resultsOf name (turn.2.map madeCall)

/-- The log of a generation: its calls in the order they are made, each with its own result. -/
def callLog (tags : ThinkingTags) (replies : List Reply) (world : W) : List Value :=
  ((turnsOf execute failureYaml tags replies world).flatMap (·.2)).map fun result =>
    entry (madeCall result).closed

/-- The steps executed on the messages of a generation record the log. -/
def StepsRecord (ended : Ended W) (log : List Value) : Prop :=
  ∀ (x : Execution) (rt : Runtime) step spec stepPrefix listening events task,
    x.arrivals = (ended.sent.map relayed).map .message ++ [.messagesClosed] →
    x.processed = ended.result →
    x.executeStep rt step spec stepPrefix listening = some (events, .ok task) →
    ∀ recorded, toolLog task = some recorded → recorded = log

/-- The tasks executed on the messages of a generation record the log. -/
def TasksRecord (ended : Ended W) (log : List Value) : Prop :=
  ∀ (rt : Runtime) (agent : Agent) id step spec task,
    agent.messages = ended.sent.map relayed → agent.processed = ended.result →
    (executeTask rt agent id step spec).2 = .ok task →
    ∀ recorded, toolLog task = some recorded → recorded = log

end Generation

/-- What a message does to a log. -/
def note (log : List ToolEvent) : Agent.AgentMessage → List ToolEvent
  | .toolCallStarted name arguments => log ++ [⟨name, arguments, none⟩]
  | .toolCallCompleted name result => settle log (name, result)
  | _ => log

/-- A turn with calls, as its messages tell of it. -/
def round (tags : ThinkingTags) (turn : List Response × List (ToolCallResponse × String)) :
    Pending.Round String String String :=
  ⟨announced (readTurn tags turn.1).splitter.sent, turn.2.map madeCall⟩

def completion (result : ToolCallResponse × String) : Agent.AgentMessage :=
  .toolCallCompleted result.1.function.name result.2

theorem note_quiet {sent : List Agent.AgentMessage} (h : ∀ m ∈ sent, m.ofTurn = true)
    (log : List ToolEvent) : sent.foldl note log =
      log ++ (announced sent).map fun name => ⟨name.1, name.2, none⟩ := by
  induction sent generalizing log with
  | nil => exact (append_nil log).symm
  | cons m sent ih =>
    have hrest := ih (fun m' hm' => h m' (mem_cons_of_mem _ hm'))
    rw [foldl_cons, hrest]
    have hm := h m mem_cons_self
    cases m with
    | toolCallStarted name arguments => exact append_assoc ..
    | toolCallCompleted name result => cases hm
    | _ => rfl

theorem note_completions (results : List (ToolCallResponse × String)) (log : List ToolEvent) :
    (results.map completion).foldl note log =
      ((results.map madeCall).map fun call => (call.1, call.2.2)).foldl settle log := by
  induction results generalizing log with
  | nil => rfl
  | cons result results ih => exact ih _

section Sent

variable {W : Type} {execute : W → ToolCallResponse → W × Except String String}
  {failureYaml : String → String → String} {tags : ThinkingTags} {replies : List Reply}
  {p : Progress W} {ended : Ended W}

theorem callTools_sent (text : String) (calls : List ToolCallResponse) (p : Progress W) :
    (calls.foldl (callTool execute failureYaml text) p).sent =
      p.sent ++ (returns execute failureYaml calls p.world).1.map completion := by
  induction calls generalizing p with
  | nil => exact (append_nil _).symm
  | cons call calls ih =>
    rw [foldl_cons, ih]
    exact append_assoc ..

theorem afterTools_world (responses : List Response) (p : Progress W) :
    (afterTools execute failureYaml tags responses p).world =
      (returns execute failureYaml (readTurn tags responses).calls p.world).2 := by
  obtain ⟨added, -, -, hworld⟩ := Agent.callTools_builder execute failureYaml
    (String.ofList (readTurn tags responses).splitter.accumulatedContent)
    (readTurn tags responses).calls
    { p with sent := p.sent ++ (readTurn tags responses).splitter.sent }
  exact hworld

/-- A generation that ends well tells of its turns in order, and that it is done. -/
theorem generation_noted (hrun : runGeneration execute failureYaml tags replies p = some ended)
    (hok : ended.result = .ok ()) : ∃ sent, ended.sent = p.sent ++ (sent ++ [.done]) ∧
      .done ∉ sent ∧ ∀ log, sent.foldl note log =
        ((turnsOf execute failureYaml tags replies p.world).map (round tags)).foldl
          afterRound log := by
  induction replies generalizing p with
  | nil => cases hrun
  | cons reply replies ih =>
    cases reply with
    | refused error =>
      cases hrun
      cases hok
    | streamed responses =>
      have hquiet : (readTurn tags responses).Quiet := Agent.turn_quiet responses
      have hnotDone : .done ∉ (readTurn tags responses).splitter.sent :=
        fun hmem => by cases hquiet _ hmem
      by_cases hcalls : (readTurn tags responses).calls = []
      · rw [Agent.runGeneration_final execute failureYaml hcalls] at hrun
        cases hrun
        refine ⟨_, append_assoc .., hnotDone, fun log => ?_⟩
        rw [note_quiet hquiet, (Agent.turn_announced responses).2.2 hcalls, turnsOf, hcalls]
        exact append_nil log
      · rw [Agent.runGeneration_tools execute failureYaml hcalls] at hrun
        obtain ⟨sent, hsent, hrest, hnotes⟩ := ih hrun
        have hworld : (afterTools execute failureYaml tags responses p).world =
            (returns execute failureYaml (readTurn tags responses).calls p.world).2 :=
          afterTools_world responses p
        have hcompletions : .done ∉
            (returns execute failureYaml (readTurn tags responses).calls p.world).1.map
              completion := by
          intro hmem
          obtain ⟨result, -, hresult⟩ := mem_map.mp hmem
          cases hresult
        refine ⟨(readTurn tags responses).splitter.sent ++
          ((returns execute failureYaml (readTurn tags responses).calls p.world).1.map
            completion ++ sent),
          ?_, ?_, fun log => ?_⟩
        · rw [hsent, afterTools, callTools_sent]
          simp only [append_assoc]
        · rw [mem_append, mem_append, not_or, not_or]
          exact ⟨hnotDone, hcompletions, hrest⟩
        · have hempty : ¬ (readTurn tags responses).calls.isEmpty = true :=
            fun hempty => hcalls (isEmpty_iff.mp hempty)
          rw [foldl_append, foldl_append, hnotes, note_completions,
            note_quiet hquiet, hworld,
            turnsOf]
          dsimp only
          rw [if_neg hempty]
          rfl

end Sent

theorem replaceF_map {α β : Type} {f : β → Option β} {g : α → Option α} {view : α → β}
    (h : ∀ a, f (view a) = (g a).map view) (xs : List α) :
    (xs.map view).replaceF f = (xs.replaceF g).map view := by
  induction xs with
  | nil => rfl
  | cons a xs ih =>
    have ha := h a
    cases hg : g a with
    | none =>
      rw [hg] at ha
      rw [map_cons, replaceF_cons_of_none _ ha, replaceF_cons_of_none _ hg, ih,
        map_cons]
    | some b =>
      rw [hg] at ha
      rw [map_cons, replaceF_cons_of_some _ ha, replaceF_cons_of_some _ hg,
        map_cons]

theorem awaitsResult_entry (name : String) (event : ToolEvent) :
    awaitsResult name (entry event) = decide (event.key = name ∧ event.result.isNone) := by
  obtain ⟨key, arguments, result⟩ := event
  cases result with
  | none =>
    have hentry : awaitsResult name (entry ⟨key, arguments, none⟩) =
      (some key == some name && true) :=
      rfl
    rw [hentry]
    by_cases hkey : key = name <;> simp [hkey]
  | some result =>
    have hentry : awaitsResult name (entry ⟨key, arguments, some result⟩) =
      (some key == some name && false) := rfl
    rw [hentry]
    simp

/-- The log of a step holds the entries of tool events. -/
theorem setToolResult_entries (name result : String) (log : List ToolEvent) :
    setToolResult name result (log.map entry) = (settle log (name, result)).map entry := by
  unfold setToolResult settle fill
  rw [← map_reverse]
  refine (congrArg List.reverse (replaceF_map (fun event => ?_) _)).trans map_reverse.symm
  rw [awaitsResult_entry]
  unfold Pending.Call.given
  by_cases hawaits : event.key = name ∧ event.result.isNone
  · rw [if_pos (decide_eq_true hawaits), if_pos hawaits]
    rfl
  · rw [if_neg (by simpa using hawaits), if_neg hawaits]
    rfl

section Consumers

variable {sent : List Agent.AgentMessage}

/-- Messages without an error, and before the last one. -/
def Goes (sent : List Agent.AgentMessage) : Prop :=
  ∀ m ∈ sent, m ≠ .done ∧ ∀ error, m ≠ .error error

variable {log : List ToolEvent} {c : Collected} {error : String}

theorem handle_noted {m : Agent.AgentMessage} (hdone : m ≠ .done)
    (herror : ∀ error, m ≠ .error error) (stepPrefix : String) (hlog : c.toolLog = log.map entry) :
    ∃ d, handleAgentMessage stepPrefix c (relayed m) = (d, false) ∧
      d.toolLog = (note log m).map entry ∧ d.errorMessage = c.errorMessage := by
  cases m with
  | toolCallStarted name arguments =>
    refine ⟨_, rfl, ?_, rfl⟩
    rw [note, map_append, ← hlog]
    rfl
  | toolCallCompleted name result =>
    refine ⟨_, rfl, ?_, rfl⟩
    rw [note, ← setToolResult_entries, ← hlog]
  | done => exact absurd rfl hdone
  | error error => exact absurd rfl (herror error)
  | thinkingContent | agentResponse => exact ⟨_, rfl, hlog, rfl⟩

theorem collect_noted (hgoes : Goes sent) (stepPrefix : String) (listening : Bool)
    (hlog : c.toolLog = log.map entry) (rest : List Arrival) :
    ∃ d, collect stepPrefix listening false c ((sent.map relayed).map .message ++ rest) =
        collect stepPrefix listening false d rest ∧
      d.toolLog = (sent.foldl note log).map entry ∧ d.errorMessage = c.errorMessage := by
  induction sent generalizing c log with
  | nil => exact ⟨c, rfl, hlog, rfl⟩
  | cons m sent ih =>
    obtain ⟨hdone, herror⟩ := hgoes m mem_cons_self
    obtain ⟨d, hd, hdlog, hderror⟩ := handle_noted hdone herror stepPrefix hlog
    obtain ⟨d', hrest, hlog', herror'⟩ :=
      ih (fun m' hm' => hgoes m' (mem_cons_of_mem _ hm')) hdlog
    refine ⟨d', ?_, hlog', herror'.trans hderror⟩
    rw [map_cons, map_cons, cons_append, collect, hd]
    exact hrest

theorem readMessages_noted (hgoes : Goes sent) (agent : Agent) (r : Reading)
    (rest : List AgentMessage) :
    (∃ d, readMessages agent r (sent.map relayed ++ rest) = readMessages agent d rest ∧
      d.toolEvents = sent.foldl note r.toolEvents ∧ d.errorMessage = r.errorMessage ∧
      d.splitRequested = r.splitRequested) ∨
    (readMessages agent r (sent.map relayed ++ rest)).splitRequested ≠ none := by
  induction sent generalizing r with
  | nil => exact .inl ⟨r, rfl, rfl, rfl, rfl⟩
  | cons m sent ih =>
    obtain ⟨hdone, herror⟩ := hgoes m mem_cons_self
    have hrest := ih fun m' hm' => hgoes m' (mem_cons_of_mem _ hm')
    rw [map_cons, cons_append, readMessages, foldl_cons]
    cases m with
    | done => exact absurd rfl hdone
    | error error => exact absurd rfl (herror error)
    | toolCallCompleted name result =>
      by_cases hname : name = "request_split"
      · refine .inr ?_
        rw [relayed, readMessage, if_pos hname]
        exact some_ne_none _
      · rw [relayed, readMessage, if_neg hname]
        exact hrest _
    | thinkingContent | agentResponse | toolCallStarted => exact hrest _

/-- An error stops both loops. -/
theorem collect_error (herror : .error error ∈ sent) (hdone : .done ∉ sent)
    (stepPrefix : String) (listening : Bool) (c : Collected) (rest : List Arrival) :
    ∃ d, collect stepPrefix listening false c ((sent.map relayed).map .message ++ rest) =
        some (d, false) ∧ d.errorMessage ≠ none := by
  induction sent generalizing c with
  | nil => cases herror
  | cons m sent ih =>
    rw [map_cons, map_cons, cons_append, collect]
    rw [mem_cons, not_or] at hdone
    cases m with
    | done => exact absurd rfl hdone.1
    | error error => exact ⟨_, rfl, some_ne_none _⟩
    | thinkingContent | agentResponse | toolCallStarted | toolCallCompleted =>
      exact ih ((mem_cons.mp herror).resolve_left fun heq => by cases heq) hdone.2 _

theorem readMessages_error (herror : .error error ∈ sent) (hdone : .done ∉ sent)
    (agent : Agent) (r : Reading) (rest : List AgentMessage) :
    (readMessages agent r (sent.map relayed ++ rest)).errorMessage ≠ none ∨
      (readMessages agent r (sent.map relayed ++ rest)).splitRequested ≠ none := by
  induction sent generalizing r with
  | nil => cases herror
  | cons m sent ih =>
    rw [map_cons, cons_append, readMessages]
    rw [mem_cons, not_or] at hdone
    have hrest := fun hne : Agent.AgentMessage.error error ≠ m =>
      ih ((mem_cons.mp herror).resolve_left hne) hdone.2
    cases m with
    | done => exact absurd rfl hdone.1
    | error error => exact .inl (some_ne_none _)
    | toolCallCompleted name result =>
      by_cases hname : name = "request_split"
      · refine .inr ?_
        rw [relayed, readMessage, if_pos hname]
        exact some_ne_none _
      · rw [relayed, readMessage, if_neg hname]
        exact hrest (fun heq => by cases heq) _
    | thinkingContent | agentResponse | toolCallStarted =>
      exact hrest (fun heq => by cases heq) _

end Consumers

section Recorded

variable {W : Type} {ended : Ended W} {sent : List Agent.AgentMessage} {recorded : List Value}

theorem entry_injective : Function.Injective entry := by
  rintro ⟨key, item, result⟩ ⟨key', item', result'⟩ h
  simp only [entry, Value.object.injEq, List.cons.injEq, Prod.mk.injEq,
    Value.string.injEq, true_and,
    and_true] at h
  obtain ⟨rfl, rfl, hresult⟩ := h
  cases result <;> cases result' <;> simp_all

variable {rt : Runtime} {spec : SpecSheet} {step : SpecStep} {task : Task} {x : Execution}
  {events : List Orchestrator.OrchestratorEvent} {agent : Agent} {effects : List Effect}
  {id stepPrefix : String} {c : Collected} {listening : Bool}

/-- A step that hands back a log has come to its end without an error. -/
theorem finish_log {wasCancelled : Bool} (hfinish : x.finish rt step spec c wasCancelled = .ok task)
    (hrecorded : toolLog task = some recorded) :
    recorded = c.toolLog ∧ c.errorMessage = none ∧ x.processed = .ok () := by
  unfold Execution.finish at hfinish
  cases wasCancelled with
  | true =>
    cases hfinish
    cases hrecorded
  | false =>
    simp only [Bool.false_eq_true, if_false] at hfinish
    split at hfinish
    · cases hfinish
      cases hrecorded
    · rename_i hnone
      have herror : c.errorMessage = none ∧ x.processed = .ok () := by
        cases hprocessed : x.processed with
        | ok _ =>
          rw [hprocessed] at hnone
          exact ⟨hnone, rfl⟩
        | error err =>
          rw [hprocessed] at hnone
          cases hmessage : c.errorMessage with
          | none =>
            rw [hmessage] at hnone
            cases hnone
          | some message =>
            rw [hmessage] at hnone
            cases hnone
      split at hfinish
      · cases hfinish
      · cases hfinish
        exact ⟨(Option.some.inj hrecorded).symm, herror⟩

theorem arrivals_done (hsent : ended.sent = sent ++ [.done]) :
    (ended.sent.map relayed).map Arrival.message ++ [.messagesClosed] =
      (sent.map relayed).map .message ++ [.message (relayed .done), .messagesClosed] := by
  rw [hsent, map_append, map_append, append_assoc]
  rfl

/-- What the loop has collected of messages that end well. -/
theorem collect_log (hgoes : Goes sent) (stepPrefix : String) (listening : Bool) (c : Collected)
    (hstart : c.toolLog = []) :
    ∃ d, collect stepPrefix listening false c
        ((sent.map relayed).map .message ++ [.message (relayed .done), .messagesClosed]) =
          some (d, false) ∧
      d.toolLog = (sent.foldl note []).map entry ∧ d.errorMessage = c.errorMessage := by
  obtain ⟨d, hd, hlog, herror⟩ := collect_noted hgoes stepPrefix listening
    (hstart.trans map_nil.symm) [.message (relayed .done), .messagesClosed]
  rw [hd]
  exact ⟨_, rfl, hlog, herror⟩

/-- A step records the calls as its messages tell of them. -/
theorem executeStep_log (hgoes : Goes sent) (hsent : ended.sent = sent ++ [.done])
    (harrivals : x.arrivals = (ended.sent.map relayed).map .message ++ [.messagesClosed])
    (hstep : x.executeStep rt step spec stepPrefix listening = some (events, .ok task))
    (hrecorded : toolLog task = some recorded) : recorded = (sent.foldl note []).map entry := by
  obtain ⟨⟨c, wasCancelled⟩, hc, hx⟩ := map_eq_some_iff.mp hstep
  rw [harrivals, arrivals_done hsent] at hc
  obtain ⟨d, hd, hlog, -⟩ := collect_log hgoes stepPrefix listening
    (⟨"", [], none, [.agentMessage stepPrefix (.userPrompt
      (Orchestrator.stepPrompt x.workingDirectory step spec))]⟩ : Collected) rfl
  cases hd.symm.trans hc
  obtain ⟨hsame, -⟩ := finish_log (Prod.mk.inj hx).2 hrecorded
  exact hsame.trans hlog

/-- A step records nothing when its generation fails, or has an error on the way. -/
theorem executeStep_silent (hfails : ended.result = .ok () →
      ended.sent = sent ++ [.done] ∧ .done ∉ sent ∧ ∃ error, .error error ∈ sent)
    (harrivals : x.arrivals = (ended.sent.map relayed).map .message ++ [.messagesClosed])
    (hprocessed : x.processed = ended.result)
    (hstep : x.executeStep rt step spec stepPrefix listening = some (events, .ok task)) :
    toolLog task ≠ some recorded := by
  intro hrecorded
  obtain ⟨⟨c, wasCancelled⟩, hc, hx⟩ := map_eq_some_iff.mp hstep
  obtain ⟨-, hmessage, hok⟩ := finish_log (Prod.mk.inj hx).2 hrecorded
  obtain ⟨hsent, hdone, error, herror⟩ := hfails (hprocessed.symm.trans hok)
  rw [harrivals, arrivals_done hsent] at hc
  obtain ⟨d, hd, hstopped⟩ := collect_error herror hdone stepPrefix listening
    (⟨"", [], none, [.agentMessage stepPrefix (.userPrompt
      (Orchestrator.stepPrompt x.workingDirectory step spec))]⟩ : Collected)
    [.message (relayed .done), .messagesClosed]
  cases hd.symm.trans hc
  exact hstopped hmessage

theorem finish_records {value : Value}
    (hprocessed : x.processed = .ok ()) (hmessage : c.errorMessage = none)
    (hvalue : ∀ summary, rt.valueOfSummary summary = .ok value) (step : SpecStep)
    (spec : SpecSheet) :
    ∃ task, x.finish rt step spec c false = .ok task ∧ toolLog task = some c.toolLog := by
  unfold Execution.finish
  rw [hprocessed]
  dsimp only
  rw [hmessage, hvalue]
  exact ⟨_, rfl, rfl⟩

/-- And it does record them. -/
theorem executeStep_records (hgoes : Goes sent) (hsent : ended.sent = sent ++ [.done])
    (hok : ended.result = .ok ()) : ∃ (x : Execution) (rt : Runtime) (step : SpecStep)
      (spec : SpecSheet) (stepPrefix : String) (listening : Bool)
      (events : List Orchestrator.OrchestratorEvent) (task : Task),
      x.arrivals = (ended.sent.map relayed).map .message ++ [.messagesClosed] ∧
      x.processed = ended.result ∧
      x.executeStep rt step spec stepPrefix listening = some (events, .ok task) ∧
      toolLog task = some ((sent.foldl note []).map entry) := by
  let x : Execution := ⟨none, "task", "cancelled",
    (ended.sent.map relayed).map .message ++ [.messagesClosed], ended.result⟩
  obtain ⟨d, hd, hlog, hmessage⟩ := collect_log hgoes "" false
    (⟨"", [], none, [.agentMessage "" (.userPrompt
      (Orchestrator.stepPrompt none default default))]⟩ : Collected) rfl
  have hfinishes : ∃ task, x.finish jsonless default default d false = .ok task ∧
      toolLog task = some d.toolLog := finish_records hok hmessage (fun _ => rfl) default default
  obtain ⟨task, hfinish, htask⟩ := hfinishes
  refine ⟨x, jsonless, default, default, "", false, d.events, task, rfl, rfl, ?_, ?_⟩
  · refine map_eq_some_iff.mpr ⟨(d, false), (congrArg _ (arrivals_done hsent)).trans hd, ?_⟩
    exact congrArg (Prod.mk d.events) hfinish
  · rw [htask, hlog]

theorem handleSplitTask_log {splitReason : Option String} {split : Task}
    (h : (handleSplitTask rt agent effects task step spec splitReason).2 = .ok split) :
    toolLog split = none := by
  unfold handleSplitTask at h
  split at h
  · cases h
  · dsimp only at h
    split at h
    · cases h
    · cases h
    · cases h
      rfl

theorem completeTask_log {r : Reading} {completed : Task}
    (h : (completeTask rt agent effects task step r).2 = .ok completed) :
    toolLog completed = some (r.toolEvents.map entry) := by
  unfold completeTask at h
  dsimp only at h
  split at h
  · cases h
  · cases h
    rfl

/-- A task that holds a log has been completed. -/
theorem executeTask_recorded (htask : (executeTask rt agent id step spec).2 = .ok task)
    (hrecorded : toolLog task = some recorded) :
    (readMessages agent .init agent.messages).splitRequested = none ∧
      (readMessages agent .init agent.messages).errorMessage = none ∧
      agent.processed = .ok () ∧
      recorded = (readMessages agent .init agent.messages).toolEvents.map entry := by
  unfold executeTask at htask
  dsimp only at htask
  split at htask
  · rw [handleSplitTask_log htask] at hrecorded
    cases hrecorded
  · split at htask
    · rw [handleSplitTask_log htask] at hrecorded
      cases hrecorded
    · cases htask
    · rename_i hsplit herror
      rw [completeTask_log htask] at hrecorded
      cases hprocessed : agent.processed with
      | ok _ =>
        rw [hprocessed] at herror
        exact ⟨hsplit, herror, rfl, (Option.some.inj hrecorded).symm⟩
      | error err =>
        rw [hprocessed] at herror
        cases herror

theorem messages_done (hsent : ended.sent = sent ++ [.done]) :
    ended.sent.map relayed = sent.map relayed ++ [relayed .done] := by
  rw [hsent, map_append]
  rfl

/-- A task records the calls as its messages tell of them. -/
theorem executeTask_log (hgoes : Goes sent) (hsent : ended.sent = sent ++ [.done])
    (hmessages : agent.messages = ended.sent.map relayed)
    (htask : (executeTask rt agent id step spec).2 = .ok task)
    (hrecorded : toolLog task = some recorded) : recorded = (sent.foldl note []).map entry := by
  obtain ⟨hsplit, -, -, hlog⟩ := executeTask_recorded htask hrecorded
  rw [hmessages, messages_done hsent] at hsplit hlog
  rcases readMessages_noted hgoes agent .init [relayed .done] with ⟨d, hd, hevents, -⟩ | hrequested
  · rw [hd] at hlog
    rw [hlog]
    exact congrArg (List.map entry) hevents
  · exact absurd hsplit hrequested

theorem executeTask_silent (hfails : ended.result = .ok () →
      ended.sent = sent ++ [.done] ∧ .done ∉ sent ∧ ∃ error, .error error ∈ sent)
    (hmessages : agent.messages = ended.sent.map relayed)
    (hprocessed : agent.processed = ended.result)
    (htask : (executeTask rt agent id step spec).2 = .ok task) : toolLog task ≠ some recorded := by
  intro hrecorded
  obtain ⟨hsplit, hmessage, hok, -⟩ := executeTask_recorded htask hrecorded
  obtain ⟨hsent, hdone, error, herror⟩ := hfails (hprocessed.symm.trans hok)
  rw [hmessages, messages_done hsent] at hsplit hmessage
  rcases readMessages_error herror hdone agent .init [relayed .done] with hstopped | hrequested
  · exact hstopped hmessage
  · exact hrequested hsplit

end Recorded

section Logs

variable {W : Type} {execute : W → ToolCallResponse → W × Except String String}
  {failureYaml : String → String → String} {tags : ThinkingTags} {replies : List Reply}
  {world : W} {builder : Conversation} {ended : Ended W}

theorem returns_calls (calls : List ToolCallResponse) (world : W) :
    (returns execute failureYaml calls world).1.map (·.1) = calls := by
  induction calls generalizing world with
  | nil => rfl
  | cons call calls ih => exact congrArg (List.cons call) (ih _)

variable {turn : List Response × List (ToolCallResponse × String)}

theorem turnsOf_calls (h : turn ∈ turnsOf execute failureYaml tags replies world) :
    turn.2.map (·.1) = (readTurn tags turn.1).calls := by
  induction replies generalizing world with
  | nil => cases h
  | cons reply replies ih =>
    cases reply with
    | refused error => cases h
    | streamed responses =>
      unfold turnsOf at h
      dsimp only at h
      split at h
      · cases h
      · rcases mem_cons.mp h with rfl | h
        · exact returns_calls _ _
        · exact ih h

/-- A turn announces at least as many calls as it makes, and what it makes exactly when its
fragments agree. -/
theorem round_matched (h : turn ∈ turnsOf execute failureYaml tags replies world) :
    (round tags turn).made.length ≤ (round tags turn).announced.length ∧
      (((round tags turn).announced = (round tags turn).called ∧
        ∀ name, (Pending.resultsOf name (round tags turn).made).reverse =
          Pending.resultsOf name (round tags turn).made) ↔ Matched turn) := by
  obtain ⟨honce, hfewer, -⟩ := @Agent.turn_announced tags turn.1
  have hcalls := turnsOf_calls h
  have hcalled : (round tags turn).called = (readTurn tags turn.1).calls.map
    (·.function.named) := by
    rw [← hcalls, List.map_map]
    exact List.map_map
  refine ⟨?_, ?_⟩
  · rw [← hcalls, List.length_map] at hfewer
    exact (List.length_map ..).trans_le hfewer
  · rw [hcalled]
    exact and_congr_left fun _ => honce

/-- The rounds of a generation leave its log if and only if all of its turns match. -/
theorem rounds_log_iff : (((turnsOf execute failureYaml tags replies world).map (round tags)).foldl
      Pending.afterRound []).map entry = callLog execute failureYaml tags replies world ↔
    ∀ turn ∈ turnsOf execute failureYaml tags replies world, Matched turn := by
  have hlog : callLog execute failureYaml tags replies world =
      ((((turnsOf execute failureYaml tags replies world).map (round tags)).flatMap
        Pending.Round.made).map Pending.Made.closed).map entry := by
    rw [callLog, List.flatMap_map, List.map_map, List.map_flatMap, List.map_flatMap]
    refine congrArg (fun f => List.flatMap f _) (funext fun turn => ?_)
    have hmade : (round tags turn).made = turn.2.map madeCall := rfl
    rw [hmade, List.map_map]
    rfl
  have hfewer : ∀ r ∈ (turnsOf execute failureYaml tags replies world).map (round tags),
      r.made.length ≤ r.announced.length := by
    intro r hr
    obtain ⟨turn, hturn, rfl⟩ := List.mem_map.mp hr
    exact (round_matched hturn).1
  rw [hlog, (List.map_injective_iff.mpr entry_injective).eq_iff, Pending.rounds_eq_iff hfewer,
    List.forall_mem_map]
  exact forall₂_congr fun turn hturn => (round_matched hturn).2

/-- Of a generation that fails nothing is recorded. -/
theorem silent_records (sent : List Agent.AgentMessage) (log : List Value)
    (hfails : ended.result = .ok () →
      ended.sent = sent ++ [.done] ∧ .done ∉ sent ∧ ∃ error, .error error ∈ sent) :
    StepsRecord ended log ∧ TasksRecord ended log := by
  refine ⟨?_, ?_⟩
  · intro x rt step spec stepPrefix listening events task harrivals hprocessed hstep
      recorded hrecorded
    exact absurd hrecorded (executeStep_silent hfails harrivals hprocessed hstep)
  · intro rt agent id step spec task hmessages hprocessed htask recorded hrecorded
    exact absurd hrecorded (executeTask_silent hfails hmessages hprocessed htask)

end Logs

section Runs

open ColossalCode.Agent (echo sayCall thinkTags)

/-- A call whose arguments come in two chunks. -/
def growing : List Response :=
  ["\x7b", "\x7b\x7d"].map (fun arguments =>
    .chunk [⟨none, 0, ⟨none, "assistant", some [⟨0, "a", ⟨"read", arguments⟩⟩]⟩⟩]) ++ [.done []]

end Runs

end ColossalCode.A2A
