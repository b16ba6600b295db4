import ColossalCode.Protocol.Text
import ColossalCode.Chunks.Feed

/-! The thinking tags of a model: how a turn splits the content it streams into thinking and
response. Text is the list of its characters; where the source counts bytes, so does the model. -/
namespace ColossalCode.Agent

/-- `ThinkingTags`, without the interval of the summarizer. -/
structure ThinkingTags where
  openTag : List Char
  closeTag : List Char

inductive ThinkingStartDecision where
  | needMoreData
  | detected (contentStartIdx : Nat)
  | notThinking
  deriving DecidableEq, Repr

def analyzeThinkingStart (buffer openTag : List Char) : ThinkingStartDecision :=
  let trimmed := buffer.dropWhile Text.isWhitespace
  let startIdx := (buffer.takeWhile Text.isWhitespace).length
  if trimmed.isEmpty then .needMoreData
  else if openTag.isPrefixOf trimmed then .detected (startIdx + openTag.length)
  else if trimmed.isPrefixOf openTag then .needMoreData
  else .notThinking

def hasVisibleText (value : List Char) : Bool := value.any fun c => !Text.isWhitespace c

/-- `Agent::estimate_tokens_heuristic`. -/
def estimateTokensHeuristic (text : List Char) : Nat :=
  text.foldl (fun bytes c => bytes + c.utf8Size) 0 / 4

/-- The messages of a turn that its text or its tool calls give rise to. -/
inductive AgentMessage where
  | thinkingContent (text : List Char) (tokens : Nat)
  | agentResponse (text : List Char) (tokens : Nat)
  | toolCallStarted (name arguments : String)
  | toolCallCompleted (name result : String)
  | error (message : String)
  | done
  deriving DecidableEq, Repr

/-- What `run_generation` holds of the text of a turn. -/
structure Splitter where
  inThinking : Bool
  thinkingBuffer : List Char
  allowThinkingStart : Bool
  pendingPrefix : List Char
  pendingAgentResponsePrefix : List Char
  finalResponseStarted : Bool
  accumulatedContent : List Char
  sent : List AgentMessage

namespace Splitter

def init : Splitter where
  inThinking := false
  thinkingBuffer := []
  allowThinkingStart := true
  pendingPrefix := []
  pendingAgentResponsePrefix := []
  finalResponseStarted := false
  accumulatedContent := []
  sent := []

def send (s : Splitter) (messages : List AgentMessage) : Splitter :=
  { s with sent := s.sent ++ messages }

/-- How many characters of thinking are held back, as a closing tag may start in them. -/
def heldBack : Nat := 11

/-- The loop that sends thinking in pieces of at most 100 characters; as many rounds as there are
characters are enough. -/
def inPieces : Nat → List Char → List (List Char)
  | 0, _ => []
  | rounds + 1, remaining =>
    if remaining.isEmpty then []
    else if 100 < remaining.length then
      remaining.take 100 :: inPieces rounds (remaining.drop 100)
    else [remaining]

def thinkingPieces (text : List Char) : List AgentMessage :=
  (inPieces text.length text).map fun piece =>
    .thinkingContent piece (estimateTokensHeuristic piece)

/-- The last of the thinking, if anything is left of it. -/
def lastThinking (text : List Char) : List AgentMessage :=
  if text.isEmpty then [] else [.thinkingContent text (estimateTokensHeuristic text)]

/-- A chunk of thinking. -/
def think (s : Splitter) (closeTag chunk : List Char) : Splitter :=
  if chunk.isEmpty then s
  else
    let buffer := s.thinkingBuffer ++ chunk
    match Chunks.find closeTag buffer with
    | some endIdx =>
      let afterThink := buffer.drop (endIdx + closeTag.length)
      let s := { s with inThinking := false, thinkingBuffer := [] }.send
        (lastThinking (buffer.take endIdx))
      if hasVisibleText afterThink then
        let outbound := s.pendingAgentResponsePrefix ++ afterThink
        { s.send [.agentResponse outbound (estimateTokensHeuristic outbound)] with
          pendingAgentResponsePrefix := []
          accumulatedContent := s.accumulatedContent ++ outbound
          finalResponseStarted := true }
      else { s with pendingAgentResponsePrefix := s.pendingAgentResponsePrefix ++ afterThink }
    | none =>
      if buffer.length > heldBack then
        let sendCharCount := buffer.length - heldBack
        { s.send (thinkingPieces (buffer.take sendCharCount)) with
          thinkingBuffer := buffer.drop sendCharCount }
      else { s with thinkingBuffer := buffer }

/-- A chunk of visible content. -/
def respond (s : Splitter) (chunk : List Char) : Splitter :=
  if !s.finalResponseStarted && !hasVisibleText chunk then
    { s with pendingAgentResponsePrefix := s.pendingAgentResponsePrefix ++ chunk }
  else
    let outbound := s.pendingAgentResponsePrefix ++ chunk
    let tokens := 1 + estimateTokensHeuristic s.pendingAgentResponsePrefix
    { s.send [.agentResponse outbound tokens] with
      pendingAgentResponsePrefix := []
      accumulatedContent := s.accumulatedContent ++ outbound
      finalResponseStarted := s.finalResponseStarted || hasVisibleText chunk }

/-- The content of a chunk. -/
def content (tags : ThinkingTags) (s : Splitter) (chunk : List Char) : Splitter :=
  if chunk.isEmpty then s
  else if s.allowThinkingStart then
    let pending := s.pendingPrefix ++ chunk
    match analyzeThinkingStart pending tags.openTag with
    | .needMoreData => { s with pendingPrefix := pending }
    | .detected contentStartIdx =>
      { s with allowThinkingStart := false, inThinking := true, pendingPrefix := [] }.think
        tags.closeTag (pending.drop contentStartIdx)
    | .notThinking =>
      let s := { s with allowThinkingStart := false, pendingPrefix := [] }
      if s.inThinking then s.think tags.closeTag pending else s.respond pending
  else if s.inThinking then s.think tags.closeTag chunk
  else s.respond chunk

/-- The thinking under way is sent before a tool call. -/
def interrupt (s : Splitter) : Splitter :=
  if s.inThinking && !s.thinkingBuffer.isEmpty then
    { s.send [.thinkingContent s.thinkingBuffer (estimateTokensHeuristic s.thinkingBuffer)] with
      thinkingBuffer := []
      inThinking := false }
  else s

/-- What is still held back is sent when the stream has ended. -/
def flush (s : Splitter) : Splitter :=
  let s :=
    if s.pendingPrefix.isEmpty then s
    else
      { s.send [.agentResponse s.pendingPrefix (estimateTokensHeuristic s.pendingPrefix)] with
        accumulatedContent := s.accumulatedContent ++ s.pendingPrefix }
  if s.inThinking then s.send (lastThinking s.thinkingBuffer) else s

end Splitter

end ColossalCode.Agent
