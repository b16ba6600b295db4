import ColossalCode.Agent.Summarizer
import ColossalCode.Transition.Run
import Mathlib.Data.List.Nodup
import Mathlib.Data.List.Perm.Subperm

/-! The jobs of the summarizer: the text each of them summarizes, and the order in which what they
send is handed out. -/
namespace ColossalCode.Agent
open List
open Transition

/-- A task of `spawn_summary_job`. -/
structure SummaryJob where
  text : List Char
  tokenCount : Nat
  chunkCount : Nat

namespace ThinkingSummarizer

/-- The task that `spawn_summary_job` spawns. -/
def summaryJob (s : ThinkingSummarizer) : Option SummaryJob :=
  if s.buffer.isEmpty || s.tokenCount == 0 then none
  else some ⟨s.buffer, s.tokenCount, s.chunkCount⟩

/-- The task that `add_thinking_chunk` spawns. -/
def chunkJob (s : ThinkingSummarizer) (chunk : List Char) : Option SummaryJob :=
  let buffer := s.buffer ++ chunk
  let tokenCount := estimateTokensHeuristic buffer
  if s.tokenThreshold ≤ tokenCount then
    { s with buffer, tokenCount, chunkCount := s.chunkCount + 1 }.summaryJob
  else none

/-- `flush` until it waits. -/
def startFlush (s : ThinkingSummarizer) (arrived : List (Option Summary)) : ThinkingSummarizer :=
  let s := s.drainReadySummaries arrived
  if !s.buffer.isEmpty && 0 < s.tokenCount then s.spawnSummaryJob else s

end ThinkingSummarizer

/-- A summarizer with the tasks it has spawned. What these have sent is on the channel from the
place up to which it was received. -/
structure Summarizing where
  summarizer : ThinkingSummarizer
  jobs : List SummaryJob
  sent : List (Nat × Option Summary)
  received : Nat
  /-- In `wait_for_all_summaries`. -/
  waiting : Bool
  /-- All the thinking that was added. -/
  text : List Char
  /-- All that `get_new_summaries` has returned. -/
  delivered : List Summary

namespace Summarizing

inductive Action where
  | add (chunk : List Char)
  | flush
  /-- The tasks have all ended. -/
  | wake
  | getNewSummaries
  /-- A task ends, without a summary where it has failed. -/
  | finish (job : Nat) (summary : Option String)

def new (tokenThreshold : Nat) : Summarizing :=
  ⟨.withThreshold tokenThreshold, [], [], 0, false, [], []⟩

def channel (s : Summarizing) : List (Option Summary) := (s.sent.drop s.received).map Prod.snd

/-- The one who waits holds the summarizer; the tasks go on. -/
def step (s : Summarizing) : Action → Option Summarizing
  | .add chunk =>
    if s.waiting then none
    else some { s with
      summarizer := s.summarizer.addThinkingChunk s.channel chunk
      jobs := s.jobs ++ (s.summarizer.chunkJob chunk).toList
      received := s.sent.length
      text := s.text ++ chunk }
  | .flush =>
    if s.waiting then none
    else some { s with
      summarizer := s.summarizer.startFlush s.channel
      jobs := s.jobs ++ s.summarizer.summaryJob.toList
      received := s.sent.length
      waiting := true }
  | .wake =>
    if s.waiting && s.channel.length == s.summarizer.pendingJobs then
      some { s with
        summarizer := s.summarizer.waitForAllSummaries s.channel
        received := s.sent.length
        waiting := false }
    else none
  | .getNewSummaries =>
    if s.waiting then none
    else
      let (summaries, summarizer) := s.summarizer.getNewSummaries s.channel
      some { s with summarizer, received := s.sent.length, delivered := s.delivered ++ summaries }
  | .finish i summary =>
    match s.jobs[i]? with
    | some job =>
      if i ∈ s.sent.map Prod.fst then none
      else some { s with
        sent := s.sent ++
          [(i, summary.map fun summary => (summary, job.tokenCount, job.chunkCount))] }
    | none => none

/-- What the tasks have come to, in the order of the text. -/
def inOrder (s : Summarizing) : List Summary :=
  (range s.jobs.length).filterMap fun i => (s.sent.lookup i).join

/-- What has been spawned, sent, received and delivered so far. -/
structure Accounted (s : Summarizing) : Prop where
  text : s.jobs.flatMap SummaryJob.text ++ s.summarizer.buffer = s.text
  tokens : s.summarizer.tokenCount = estimateTokensHeuristic s.summarizer.buffer
  once : (s.sent.map Prod.fst).Nodup
  known : ∀ i ∈ s.sent.map Prod.fst, i < s.jobs.length
  received : s.received ≤ s.sent.length
  pending : s.summarizer.pendingJobs + s.received = s.jobs.length
  summaries : s.summarizer.summaries = (s.sent.take s.received).filterMap Prod.snd
  lastSent : s.summarizer.lastSentCount ≤ s.summarizer.summaries.length
  delivered : s.delivered = s.summarizer.summaries.take s.summarizer.lastSentCount
  rest : s.waiting = true → s.summarizer.tokenCount = 0

variable {s t : Summarizing} {action : Action} {tokenThreshold : Nat} {actions : List Action}

theorem Accounted.length_sent (h : Accounted s) : s.sent.length ≤ s.jobs.length := by
  have hsub : s.sent.map Prod.fst ⊆ range s.jobs.length :=
    fun i hi => mem_range.mpr (h.known i hi)
  have hle := (subperm_of_subset h.once hsub).length_le
  simpa using hle

theorem estimate_nil : estimateTokensHeuristic [] = 0 := by decide

theorem accounted_new : Accounted (new tokenThreshold) where
  text := rfl
  tokens := estimate_nil.symm
  once := .nil
  known := by simp [new]
  received := Nat.le_refl 0
  pending := rfl
  summaries := rfl
  lastSent := Nat.le_refl 0
  delivered := rfl
  rest := fun _ => rfl

/-- All that is on the channel is received. -/
def drained (s : Summarizing) : Summarizing :=
  { s with
    summarizer := s.summarizer.drainReadySummaries s.channel, received := s.sent.length }

def pushed (s : Summarizing) (chunk : List Char) : Summarizing :=
  { s with
    summarizer := { s.summarizer with
      buffer := s.summarizer.buffer ++ chunk
      chunkCount := s.summarizer.chunkCount + 1
      tokenCount := estimateTokensHeuristic (s.summarizer.buffer ++ chunk) }
    text := s.text ++ chunk }

def spawned (s : Summarizing) : Summarizing :=
  { s with
    summarizer := s.summarizer.spawnSummaryJob
    jobs := s.jobs ++ s.summarizer.summaryJob.toList }

theorem Accounted.drained (h : Accounted s) : Accounted s.drained := by
  have hlength : s.channel.length = s.sent.length - s.received := by simp [channel]
  have hsent := h.length_sent
  have hreceived := h.received
  have hpending := h.pending
  have htake : s.channel.take s.summarizer.pendingJobs = s.channel :=
    take_of_length_le (by omega)
  have hall : s.summarizer.summaries ++ s.channel.filterMap id = s.sent.filterMap Prod.snd := by
    rw [h.summaries, channel, filterMap_map, Function.id_comp, ← filterMap_append,
      take_append_drop]
  refine ⟨h.text, h.tokens, h.once, h.known, Nat.le_refl _, ?_, ?_, ?_, ?_, h.rest⟩ <;>
    simp only [Summarizing.drained, ThinkingSummarizer.drainReadySummaries, htake]
  · omega
  · rw [hall, take_length]
  · rw [length_append]
    exact Nat.le_add_right_of_le h.lastSent
  · rw [take_append_of_le_length h.lastSent]
    exact h.delivered

theorem Accounted.pushed (h : Accounted s) (hwaiting : ¬ s.waiting = true) (chunk : List Char) :
    Accounted (s.pushed chunk) := by
  refine ⟨?_, rfl, h.once, h.known, h.received, h.pending, h.summaries, h.lastSent, h.delivered,
    fun hrest => absurd hrest hwaiting⟩
  simp only [Summarizing.pushed, ← h.text, append_assoc]

/-- The text of a job leaves the buffer. -/
theorem Accounted.spawned (h : Accounted s) : Accounted s.spawned := by
  rw [Summarizing.spawned, ThinkingSummarizer.spawnSummaryJob, ThinkingSummarizer.summaryJob]
  split
  · simpa using h
  · have hpending := h.pending
    refine ⟨by simpa using h.text, estimate_nil.symm, h.once, ?_, h.received, ?_, h.summaries,
      h.lastSent, h.delivered, fun _ => rfl⟩ <;>
      simp only [Option.toList_some, length_append, length_singleton]
    · exact fun i hi => Nat.lt_succ_of_lt (h.known i hi)
    · omega

theorem step_add {chunk : List Char} (h : s.step (.add chunk) = some t) : ¬ s.waiting = true ∧
    (t = s.drained.pushed chunk ∨ t = (s.drained.pushed chunk).spawned) := by
  by_cases hwaiting : s.waiting = true
  · simp [step, hwaiting] at h
  · simp only [step, if_neg hwaiting, Option.some.injEq] at h
    subst h
    refine ⟨hwaiting, ?_⟩
    have hadd : s.summarizer.addThinkingChunk s.channel chunk =
        if s.summarizer.tokenThreshold ≤ estimateTokensHeuristic (s.summarizer.buffer ++ chunk) then
          (s.drained.pushed chunk).spawned.summarizer
        else (s.drained.pushed chunk).summarizer := rfl
    have hjob : s.summarizer.chunkJob chunk =
        if s.summarizer.tokenThreshold ≤ estimateTokensHeuristic (s.summarizer.buffer ++ chunk) then
          (s.drained.pushed chunk).summarizer.summaryJob
        else none := rfl
    rw [hadd, hjob]
    split
    · exact .inr rfl
    · exact .inl (by simp [drained, pushed])

theorem step_flush (h : s.step .flush = some t) :
    ¬ s.waiting = true ∧ t = { s.drained.spawned with waiting := true } := by
  by_cases hwaiting : s.waiting = true
  · simp [step, hwaiting] at h
  · simp only [step, if_neg hwaiting, Option.some.injEq] at h
    subst h
    refine ⟨hwaiting, ?_⟩
    simp only [ThinkingSummarizer.startFlush, ThinkingSummarizer.drainReadySummaries, drained,
      spawned, ThinkingSummarizer.spawnSummaryJob, ThinkingSummarizer.summaryJob]
    by_cases hempty : s.summarizer.buffer = [] <;> by_cases hnone : s.summarizer.tokenCount = 0 <;>
      simp [hempty, hnone, Nat.pos_iff_ne_zero]

theorem step_wake (h : s.step .wake = some t) :
    s.waiting = true ∧ s.channel.length = s.summarizer.pendingJobs ∧
      t = { s.drained with waiting := false } := by
  simp only [step] at h
  split at h
  · rename_i hready
    obtain ⟨hwaiting, hlength⟩ : s.waiting = true ∧
        s.channel.length = s.summarizer.pendingJobs := by simpa using hready
    refine ⟨hwaiting, hlength, ?_⟩
    obtain rfl := Option.some.inj h
    simp [drained, ThinkingSummarizer.waitForAllSummaries,
      ThinkingSummarizer.drainReadySummaries, ← hlength]
  · cases h

theorem step_getNewSummaries (h : s.step .getNewSummaries = some t) : ¬ s.waiting = true ∧
    t = { s.drained with
      summarizer := { s.drained.summarizer with
        lastSentCount := s.drained.summarizer.summaries.length }
      delivered := s.delivered ++
        s.drained.summarizer.summaries.drop s.drained.summarizer.lastSentCount } := by
  by_cases hwaiting : s.waiting = true
  · simp [step, hwaiting] at h
  · simp only [step, if_neg hwaiting, Option.some.injEq] at h
    exact ⟨hwaiting, h.symm⟩

theorem step_finish {i : Nat} {summary : Option String} (h : s.step (.finish i summary) = some t) :
    ∃ result, i < s.jobs.length ∧ i ∉ s.sent.map Prod.fst ∧
      t = { s with sent := s.sent ++ [(i, result)] } := by
  simp only [step] at h
  split at h
  · rename_i job hjob
    split at h
    · cases h
    · rename_i hnew
      exact ⟨_, (List.getElem?_eq_some_iff.mp hjob).1, hnew, (Option.some.inj h).symm⟩
  · cases h

theorem Accounted.delivered_all (h : Accounted s) :
    s.delivered ++ s.summarizer.summaries.drop s.summarizer.lastSentCount =
      s.summarizer.summaries := by
  rw [h.delivered, take_append_drop]

theorem accounted_step (hs : s.step action = some t) (h : Accounted s) : Accounted t := by
  cases action with
  | add chunk =>
    obtain ⟨hwaiting, rfl | rfl⟩ := step_add hs
    · exact h.drained.pushed hwaiting chunk
    · exact (h.drained.pushed hwaiting chunk).spawned
  | flush =>
    obtain ⟨-, rfl⟩ := step_flush hs
    refine { h.drained.spawned with rest := fun _ => ?_ }
    have htokens := h.drained.tokens
    simp only [spawned, ThinkingSummarizer.spawnSummaryJob]
    by_cases hempty : s.drained.summarizer.buffer = [] <;>
      by_cases hnone : s.drained.summarizer.tokenCount = 0 <;> simp_all [estimate_nil]
  | wake =>
    obtain ⟨-, -, rfl⟩ := step_wake hs
    exact { h.drained with rest := fun hwaiting => by cases hwaiting }
  | getNewSummaries =>
    obtain ⟨hwaiting, rfl⟩ := step_getNewSummaries hs
    exact { h.drained with
      lastSent := Nat.le_refl _
      delivered := h.drained.delivered_all.trans take_length.symm
      rest := fun hrest => absurd hrest hwaiting }
  | finish i summary =>
    obtain ⟨result, hi, hnew, rfl⟩ := step_finish hs
    have hreceived := h.received
    refine { h with once := ?_, known := ?_, received := ?_, summaries := ?_ } <;> simp only
    · rw [map_append]
      exact h.once.append (nodup_singleton i) (by simpa using hnew)
    · simpa [or_imp, forall_and] using ⟨by simpa using h.known, hi⟩
    · rw [length_append]
      omega
    · rw [take_append_of_le_length hreceived]
      exact h.summaries

/-- Each byte is part of one job, but for what is left over; what a job sends is delivered once, as
it comes. -/
theorem summarized_once (hrun : run step (new tokenThreshold) actions = some s) :
    s.jobs.flatMap SummaryJob.text ++ s.summarizer.buffer = s.text ∧
      (s.sent.map Prod.fst).Nodup ∧
      (∀ t, s.step .wake = some t → estimateTokensHeuristic t.summarizer.buffer = 0 ∧
        t.sent.length = t.jobs.length) ∧
      ∀ t, s.step .getNewSummaries = some t → t.delivered = t.sent.filterMap Prod.snd := by
  have h : Accounted s := run_invariant hrun (fun _ _ _ => accounted_step) accounted_new
  refine ⟨h.text, h.once, fun t ht => ?_, fun t ht => ?_⟩
  · obtain ⟨hwaiting, hlength, rfl⟩ := step_wake ht
    refine ⟨h.tokens.symm.trans (h.rest hwaiting), ?_⟩
    have hsent := h.pending
    have hreceived := h.received
    have hchannel : s.channel.length = s.sent.length - s.received := by simp [channel]
    simp only [drained]
    omega
  · obtain ⟨-, rfl⟩ := step_getNewSummaries ht
    refine h.drained.delivered_all.trans (h.drained.summaries.trans ?_)
    simp [drained]

theorem chunk_summarized_once : ∃ s,
    run step (new 1) [.add "abcd".toList, .finish 0 (some "A")] = some s ∧
      s.jobs.flatMap SummaryJob.text ++ s.summarizer.buffer = s.text :=
  ⟨_, rfl, (@summarized_once _ 1 [.add "abcd".toList, .finish 0 (some "A")] rfl).1⟩

/-- Three bytes are less than a token, and the second of two jobs may report first. -/
theorem short_rest_kept_and_reports_in_turn :
    (¬ ∀ threshold actions s t, run step (new threshold) actions = some s →
      s.step .wake = some t → t.jobs.flatMap SummaryJob.text = t.text) ∧
    ¬ ∀ threshold actions s t, run step (new threshold) actions = some s →
      s.step .getNewSummaries = some t → t.delivered = t.inOrder := by
  constructor
  · intro hall
    have h := hall 1 [.add "abc".toList, .flush] _ _ rfl rfl
    revert h
    decide
  · intro hall
    have h := hall 1 [.add "abcd".toList, .add "efgh".toList, .finish 1 (some "B"),
      .finish 0 (some "A")] _ _ rfl rfl
    revert h
    decide

end Summarizing

end ColossalCode.Agent
