import ColossalCode.Agent.Thinking

/-! The summarizer of thinking. Its jobs ask a service: what they send back, and when, comes from
outside. -/
namespace ColossalCode.Agent

/-- A summary with the tokens and the chunks it stands for. -/
abbrev Summary : Type := String × Nat × Nat

structure ThinkingSummarizer where
  buffer : List Char
  tokenCount : Nat
  chunkCount : Nat
  summaries : List Summary
  lastSentCount : Nat
  tokenThreshold : Nat
  pendingJobs : Nat

namespace ThinkingSummarizer

def withThreshold (tokenThreshold : Nat) : ThinkingSummarizer where
  buffer := []
  tokenCount := 0
  chunkCount := 0
  summaries := []
  lastSentCount := 0
  tokenThreshold
  pendingJobs := 0

/-- What jobs have sent, `none` for one that failed; each job sends once. -/
def drainReadySummaries (s : ThinkingSummarizer) (arrived : List (Option Summary)) :
    ThinkingSummarizer :=
  let arrived := arrived.take s.pendingJobs
  { s with
    summaries := s.summaries ++ arrived.filterMap id
    pendingJobs := s.pendingJobs - arrived.length }

def spawnSummaryJob (s : ThinkingSummarizer) : ThinkingSummarizer :=
  if s.buffer.isEmpty || s.tokenCount == 0 then s
  else { s with buffer := [], tokenCount := 0, chunkCount := 0, pendingJobs := s.pendingJobs + 1 }

def addThinkingChunk (s : ThinkingSummarizer) (arrived : List (Option Summary))
    (chunk : List Char) : ThinkingSummarizer :=
  let s := s.drainReadySummaries arrived
  let buffer := s.buffer ++ chunk
  let s := { s with
    buffer
    chunkCount := s.chunkCount + 1
    tokenCount := estimateTokensHeuristic buffer }
  if s.tokenThreshold ≤ s.tokenCount then s.spawnSummaryJob else s

/-- All the jobs are waited for; those `ended` does not list have failed. -/
def waitForAllSummaries (s : ThinkingSummarizer) (ended : List (Option Summary)) :
    ThinkingSummarizer :=
  { s with
    summaries := s.summaries ++ (ended.take s.pendingJobs).filterMap id
    pendingJobs := 0 }

def flush (s : ThinkingSummarizer) (arrived ended : List (Option Summary)) : ThinkingSummarizer :=
  let s := s.drainReadySummaries arrived
  let s := if !s.buffer.isEmpty && 0 < s.tokenCount then s.spawnSummaryJob else s
  s.waitForAllSummaries ended

/-- The summaries that have not been sent yet. -/
def getNewSummaries (s : ThinkingSummarizer) (arrived : List (Option Summary)) :
    List Summary × ThinkingSummarizer :=
  let s := s.drainReadySummaries arrived
  (s.summaries.drop s.lastSentCount, { s with lastSentCount := s.summaries.length })

end ThinkingSummarizer

/-- What comes from outside while the summarizer is held once: what the agents that share it have
done before, and what its jobs send. -/
structure Visit where
  others : ThinkingSummarizer → ThinkingSummarizer
  arrived : List (Option Summary)
  ended : List (Option Summary)
  later : List (Option Summary)

namespace Visit

/-- Thinking is added. -/
def add (visit : Visit) (chunk : List Char) (s : ThinkingSummarizer) :
    List Summary × ThinkingSummarizer :=
  ((visit.others s).addThinkingChunk visit.arrived chunk).getNewSummaries visit.later

/-- The thinking has come to its end. -/
def finish (visit : Visit) (s : ThinkingSummarizer) : List Summary × ThinkingSummarizer :=
  ((visit.others s).flush visit.arrived visit.ended).getNewSummaries visit.later

/-- The last of the thinking is added. -/
def addLast (visit : Visit) (chunk : List Char) (s : ThinkingSummarizer) :
    List Summary × ThinkingSummarizer :=
  (((visit.others s).addThinkingChunk visit.arrived chunk).flush [] visit.ended).getNewSummaries
    visit.later

end Visit

end ColossalCode.Agent
