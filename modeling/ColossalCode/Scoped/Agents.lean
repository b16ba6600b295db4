import ColossalCode.Agent.Generation
import ColossalCode.Dispatch.Tools
import Mathlib.Logic.Function.Basic

/-! Agents as clones of each other: those made by `with_tools` and `with_working_directory` share
cells with the agent they are made from. Of an agent what its requests are made of is kept. -/
namespace ColossalCode.Scoped
open Function List Option

open Dispatch (Tool SafetyConfig SafetyMode)
open ColossalCode.Agent (Conversation ThinkingTags ToolCallResponse Response readTurn
    callTool startRequest)

/-- The template, and what `prompt_context` finds. -/
structure PromptSource where
  template : String
  osVersion : String
  workspacePath : String

/-- `str::replace`; `skip` characters belong to an occurrence that has been replaced. -/
def replaceFrom (pattern replacement : List Char) : Nat → List Char → List Char
  | _, [] => []
  | skip + 1, _ :: rest => replaceFrom pattern replacement skip rest
  | 0, c :: rest =>
    if pattern.isPrefixOf (c :: rest) then
      replacement ++ replaceFrom pattern replacement (pattern.length - 1) rest
    else c :: replaceFrom pattern replacement 0 rest

def replace (text pattern replacement : String) : String :=
  String.ofList (replaceFrom pattern.toList replacement.toList 0 text.toList)

/-- `str::find`, in characters. -/
def find (text pattern : List Char) : Option Nat :=
  text.tails.findIdx? fun rest => pattern.isPrefixOf rest

/-- It panics where the section ends before it starts. -/
def filterReadonlySections (template : String) : Option String :=
  let text := template.toList
  let closing := "</making_code_changes>".toList
  let filtered :=
    match find text "<making_code_changes>".toList, find text closing with
    | some first, some last =>
      let last := match (text.drop last).idxOf? '\n' with
        | some i => last + i + 1
        | none => last + closing.length
      if first ≤ last then some (text.take first ++ text.drop last) else none
    | _, _ => some text
  filtered.map fun text => Text.trim (String.ofList text)

def renderSystemPrompt (source : PromptSource) (modelLabel : String) (safetyMode : SafetyMode) :
    Option String :=
  let result := replace (replace (replace source.template "\x7bos_version\x7d" source.osVersion)
    "\x7bworkspace_path\x7d" source.workspacePath) "\x7bmodel_name\x7d" modelLabel
  if safetyMode = .readOnly then filterReadonlySections result else some result

def getSystemPromptSuffix (config : SafetyConfig) : Option String :=
  match config.mode with
  | .readOnly => some ("\n\n**READ-ONLY MODE ACTIVE**\n" ++
      "You are currently in read-only mode. You can:\n" ++
      "- Read files (read_file)\n" ++
      "- Search and list files (get_files, get_files_recursive, search_files_with_regex, " ++
      "semantic_search)\n" ++
      "- Search the web (web_search, html_to_text)\n" ++
      "- Track tasks or request spec splitting (todo_write, request_split)\n" ++
      "- Execute read-only bash commands\n\n" ++
      "Filesystem modifications are blocked by the sandbox:\n" ++
      "- Cannot write or edit files\n" ++
      "- Cannot delete files or directories\n" ++
      "- Cannot execute commands that modify the filesystem\n\n" ++
      "If the user requests modifications, politely explain that you're in read-only mode " ++
      "and they need to switch to regular or yolo mode first.")
  | _ => none

/-- A `RequestBuilder`. -/
structure Request where
  messages : Conversation
  tools : List Tool

/-- The cells that all clones of an agent share. -/
structure Family where
  tools : List Tool
  systemPrompt : String
  safetyConfig : SafetyConfig
  modelName : String

/-- `regenerate_system_prompt` with the suffix of the mode. -/
def regenerateSystemPrompt (source : PromptSource) (family : Family) : Option String :=
  (renderSystemPrompt source family.modelName family.safetyConfig.mode).map fun prompt =>
    prompt ++ (getSystemPromptSuffix family.safetyConfig).getD ""

/-- Agents that implement, and agents that verify what those have done. -/
inductive Side where
  | implementing
  | verifying
  deriving DecidableEq

/-- The cell of a conversation, among those that the agents of a side have made. -/
structure ConversationCell where
  side : Side
  index : Nat

/-- How far `with_tools` has come. -/
inductive Stage where
  | toolsSet
  | rendered (prompt : String)
  | promptSet
  | ready

structure Agent where
  family : Nat
  conversation : ConversationCell
  workingDirectory : Option String
  stage : Stage

/-- A `process_message` and its request. -/
structure Generation where
  conversation : ConversationCell
  builder : Request
  running : Bool

structure Half where
  conversations : List (Option Request)
  agents : List Agent
  generations : List Generation

structure World where
  families : List Family
  half : Side → Half

/-- What an agent is used for. Of a reply of the backend the results of its tool calls are given, of
a message that is cancelled the responses that have been read. -/
inductive Op where
  | withWorkingDirectory (i : Nat) (cwd : String)
  | withTools (i : Nat) (tools : List Tool)
  | renderPrompt (i : Nat) (source : PromptSource)
  | setPrompt (i : Nat)
  | dropConversation (i : Nat)
  | clearConversation (i : Nat)
  | message (i : Nat) (userMessage : String)
  | reply (k : Nat) (reply : Agent.Reply) (results : List (Except String String))
  | cancel (k : Nat) (responses : List Response)

/-- With `verify` an agent that implements is given the tools of a verification. -/
inductive Action where
  | newWithBackend (family : Family)
  | verify (i : Nat) (tools : List Tool)
  | act (side : Side) (op : Op)

/-- The actions of verifications. -/
def Action.verifies : Action → Bool
  | .verify _ _ | .act .verifying _ => true
  | _ => false

namespace World

def start : World := ⟨[], fun _ => ⟨[], [], []⟩⟩

section Cells

variable (w : World)

def setHalf (side : Side) (half : Half) : World :=
  { w with half := update w.half side half }

def agent (side : Side) (i : Nat) : Option Agent := (w.half side).agents[i]?

/-- An agent that the caller of `with_tools` has. -/
def readyAgent (side : Side) (i : Nat) : Option Agent :=
  (w.agent side i).filter fun agent => match agent.stage with
    | .ready => true
    | _ => false

def generation (side : Side) (k : Nat) : Option Generation :=
  ((w.half side).generations[k]?).filter (·.running)

def conversation (cell : ConversationCell) : Option (Option Request) :=
  (w.half cell.side).conversations[cell.index]?

def setAgent (side : Side) (i : Nat) (agent : Agent) : World :=
  w.setHalf side { w.half side with agents := (w.half side).agents.set i agent }

def addAgent (side : Side) (agent : Agent) : World :=
  w.setHalf side { w.half side with agents := (w.half side).agents ++ [agent] }

def setGeneration (side : Side) (k : Nat) (generation : Generation) : World :=
  w.setHalf side { w.half side with
    generations := (w.half side).generations.set k generation }

def addGeneration (side : Side) (generation : Generation) : World :=
  w.setHalf side { w.half side with generations := (w.half side).generations ++ [generation] }

def setConversation (cell : ConversationCell) (request : Option Request) : World :=
  w.setHalf cell.side { w.half cell.side with
    conversations := (w.half cell.side).conversations.set cell.index request }

def setFamily (f : Nat) (family : Family) : World :=
  { w with families := w.families.set f family }

end Cells

end World

/-- The results of tool calls in their order. -/
def nextResult : List (Except String String) → ToolCallResponse →
    List (Except String String) × Except String String
  | [], _ => ([], .error "")
  | result :: results, _ => (results, result)

section Step

variable (tags : ThinkingTags) (failureYaml : String → String → String)

/-- The request after the tool calls of a turn. -/
def afterTools (request : Request) (responses : List Response)
    (results : List (Except String String)) : Request :=
  let turn := readTurn tags responses
  { request with
    messages := (turn.calls.foldl (callTool nextResult failureYaml
      (String.ofList turn.splitter.accumulatedContent)) ⟨results, request.messages, []⟩).builder }

/-- The request that is stored when a message is cancelled. -/
def cancelled (request : Request) (responses : List Response) : Request :=
  let content := (Agent.Turn.read tags responses .init).splitter.accumulatedContent
  if content.isEmpty then request
  else { request with messages := request.messages.addMessage .assistant (String.ofList content) }

/-- `process_message` takes the conversation, or starts one with the prompt and the tools. -/
def firstRequest (family : Family) (conversation : Option Request)
    (userMessage : String) : Request :=
  ⟨startRequest family.systemPrompt (conversation.map (·.messages)) userMessage,
    (conversation.map (·.tools)).getD family.tools⟩

/-- `with_tools` sets the tools of a clone first. -/
def withTools (w : World) (side : Side) (agent : Agent) (tools : List Tool) : Option World :=
  (w.families[agent.family]?).map fun family =>
    (w.setFamily agent.family { family with tools }).addAgent side { agent with stage := .toolsSet }

def opStep (w : World) (side : Side) : Op → Option World
  | .withWorkingDirectory i cwd => (w.readyAgent side i).map fun agent =>
      let half := w.half side
      (w.setHalf side { half with conversations := half.conversations ++ [none] }).addAgent side
        { agent with
          conversation := ⟨side, half.conversations.length⟩, workingDirectory := some cwd }
  | .withTools i tools => (w.readyAgent side i).bind fun agent => withTools w side agent tools
  | .renderPrompt i source => (w.agent side i).bind fun agent =>
      match agent.stage with
      | .toolsSet => (w.families[agent.family]?).bind fun family =>
          (regenerateSystemPrompt source family).map fun prompt =>
            w.setAgent side i { agent with stage := .rendered prompt }
      | _ => none
  | .setPrompt i => (w.agent side i).bind fun agent =>
      match agent.stage with
      | .rendered prompt => (w.families[agent.family]?).map fun family =>
          (w.setFamily agent.family { family with systemPrompt := prompt }).setAgent side i
            { agent with stage := .promptSet }
      | _ => none
  | .dropConversation i => (w.agent side i).bind fun agent =>
      match agent.stage with
      | .promptSet => (w.conversation agent.conversation).map fun _ =>
          (w.setConversation agent.conversation none).setAgent side i { agent with stage := .ready }
      | _ => none
  | .clearConversation i => (w.readyAgent side i).bind fun agent =>
      (w.conversation agent.conversation).map fun _ => w.setConversation agent.conversation none
  | .message i userMessage => (w.readyAgent side i).bind fun agent =>
      (w.families[agent.family]?).bind fun family =>
        (w.conversation agent.conversation).map fun conversation =>
          (w.setConversation agent.conversation none).addGeneration side
            ⟨agent.conversation, firstRequest family conversation userMessage, true⟩
  | .reply k (.refused _) _ => (w.generation side k).map fun generation =>
      w.setGeneration side k { generation with running := false }
  | .reply k (.streamed responses) results => (w.generation side k).bind fun generation =>
      if (readTurn tags responses).calls.isEmpty then
        (w.conversation generation.conversation).map fun _ =>
          (w.setConversation generation.conversation (some generation.builder)).setGeneration side k
            { generation with running := false }
      else if (readTurn tags responses).calls.length = results.length then
        some (w.setGeneration side k { generation with
          builder := afterTools tags failureYaml generation.builder responses results })
      else none
  | .cancel k responses => (w.generation side k).bind fun generation =>
      (w.conversation generation.conversation).map fun _ =>
        (w.setConversation generation.conversation
          (some (cancelled tags generation.builder responses))).setGeneration side k
            { generation with running := false }

def step (w : World) : Action → Option World
  | .newWithBackend family =>
    let half := w.half .implementing
    some (World.addAgent { w with
      families := w.families ++ [family]
      half := update w.half .implementing
        { half with conversations := half.conversations ++ [none] } } .implementing
      ⟨w.families.length, ⟨.implementing, half.conversations.length⟩, none, .ready⟩)
  | .verify i tools => (w.readyAgent .implementing i).bind fun agent =>
      withTools w .verifying agent tools
  | .act side op => opStep tags failureYaml w side op

/-- The steps of an agent and of its messages, with what each finds. -/
inductive Does (w : World) (side : Side) : Op → World → Prop
  | withWorkingDirectory {i : Nat} {cwd : String} {agent : Agent}
      (hagent : w.readyAgent side i = some agent) :
      Does w side (.withWorkingDirectory i cwd)
        ((w.setHalf side { w.half side with
          conversations := (w.half side).conversations ++ [none] }).addAgent side { agent with
            conversation := ⟨side, (w.half side).conversations.length⟩
            workingDirectory := some cwd })
  | withTools {i : Nat} {tools : List Tool} {agent : Agent} {t : World}
      (hagent : w.readyAgent side i = some agent) (ht : withTools w side agent tools = some t) :
      Does w side (.withTools i tools) t
  | renderPrompt {i : Nat} {source : PromptSource} {agent : Agent} {family : Family}
      {prompt : String}
      (hagent : w.agent side i = some agent) (hstage : agent.stage = .toolsSet)
      (hfamily : w.families[agent.family]? = some family)
      (hprompt : regenerateSystemPrompt source family = some prompt) :
      Does w side (.renderPrompt i source)
        (w.setAgent side i { agent with stage := .rendered prompt })
  | setPrompt {i : Nat} {agent : Agent} {family : Family} {prompt : String}
      (hagent : w.agent side i = some agent) (hstage : agent.stage = .rendered prompt)
      (hfamily : w.families[agent.family]? = some family) :
      Does w side (.setPrompt i)
        ((w.setFamily agent.family { family with systemPrompt := prompt }).setAgent side i
          { agent with stage := .promptSet })
  | dropConversation {i : Nat} {agent : Agent} {before : Option Request}
      (hagent : w.agent side i = some agent) (hstage : agent.stage = .promptSet)
      (hbefore : w.conversation agent.conversation = some before) :
      Does w side (.dropConversation i)
        ((w.setConversation agent.conversation none).setAgent side i { agent with stage := .ready })
  | clearConversation {i : Nat} {agent : Agent} {before : Option Request}
      (hagent : w.readyAgent side i = some agent)
      (hbefore : w.conversation agent.conversation = some before) :
      Does w side (.clearConversation i) (w.setConversation agent.conversation none)
  | message {i : Nat} {userMessage : String} {agent : Agent} {family : Family}
      {before : Option Request} (hagent : w.readyAgent side i = some agent)
      (hfamily : w.families[agent.family]? = some family)
      (hbefore : w.conversation agent.conversation = some before) :
      Does w side (.message i userMessage)
        ((w.setConversation agent.conversation none).addGeneration side
          ⟨agent.conversation, firstRequest family before userMessage, true⟩)
  | refused {k : Nat} {error : String} {results : List (Except String String)}
      {generation : Generation} (hgeneration : w.generation side k = some generation) :
      Does w side (.reply k (.refused error) results)
        (w.setGeneration side k { generation with running := false })
  | ended {k : Nat} {responses : List Response} {results : List (Except String String)}
      {generation : Generation} {before : Option Request}
      (hgeneration : w.generation side k = some generation)
      (hcalls : (readTurn tags responses).calls = [])
      (hbefore : w.conversation generation.conversation = some before) :
      Does w side (.reply k (.streamed responses) results)
        ((w.setConversation generation.conversation (some generation.builder)).setGeneration side k
          { generation with running := false })
  | called {k : Nat} {responses : List Response} {results : List (Except String String)}
      {generation : Generation} (hgeneration : w.generation side k = some generation)
      (hcalls : (readTurn tags responses).calls ≠ [])
      (hresults : (readTurn tags responses).calls.length = results.length) :
      Does w side (.reply k (.streamed responses) results)
        (w.setGeneration side k { generation with
          builder := afterTools tags failureYaml generation.builder responses results })
  | cancel {k : Nat} {responses : List Response} {generation : Generation} {before : Option Request}
      (hgeneration : w.generation side k = some generation)
      (hbefore : w.conversation generation.conversation = some before) :
      Does w side (.cancel k responses)
        ((w.setConversation generation.conversation
          (some (cancelled tags generation.builder responses))).setGeneration side k
            { generation with running := false })

theorem does_of_step {w t : World} {side : Side} {op : Op}
    (h : opStep tags failureYaml w side op = some t) : Does tags failureYaml w side op t := by
  cases op with
  | withWorkingDirectory i cwd =>
    obtain ⟨agent, hagent, rfl⟩ := map_eq_some_iff.mp h
    exact .withWorkingDirectory hagent
  | withTools i tools =>
    obtain ⟨agent, hagent, h⟩ := bind_eq_some_iff.mp h
    exact .withTools hagent h
  | renderPrompt i source =>
    obtain ⟨agent, hagent, h⟩ := bind_eq_some_iff.mp h
    split at h
    · rename_i hstage
      obtain ⟨family, hfamily, h⟩ := bind_eq_some_iff.mp h
      obtain ⟨prompt, hprompt, rfl⟩ := map_eq_some_iff.mp h
      exact .renderPrompt hagent hstage hfamily hprompt
    · cases h
  | setPrompt i =>
    obtain ⟨agent, hagent, h⟩ := bind_eq_some_iff.mp h
    split at h
    · rename_i prompt hstage
      obtain ⟨family, hfamily, rfl⟩ := map_eq_some_iff.mp h
      exact .setPrompt hagent hstage hfamily
    · cases h
  | dropConversation i =>
    obtain ⟨agent, hagent, h⟩ := bind_eq_some_iff.mp h
    split at h
    · rename_i hstage
      obtain ⟨before, hbefore, rfl⟩ := map_eq_some_iff.mp h
      exact .dropConversation hagent hstage hbefore
    · cases h
  | clearConversation i =>
    obtain ⟨agent, hagent, h⟩ := bind_eq_some_iff.mp h
    obtain ⟨before, hbefore, rfl⟩ := map_eq_some_iff.mp h
    exact .clearConversation hagent hbefore
  | message i userMessage =>
    obtain ⟨agent, hagent, h⟩ := bind_eq_some_iff.mp h
    obtain ⟨family, hfamily, h⟩ := bind_eq_some_iff.mp h
    obtain ⟨before, hbefore, rfl⟩ := map_eq_some_iff.mp h
    exact .message hagent hfamily hbefore
  | reply k reply results =>
    cases reply with
    | refused error =>
      obtain ⟨generation, hgeneration, rfl⟩ := map_eq_some_iff.mp h
      exact .refused hgeneration
    | streamed responses =>
      obtain ⟨generation, hgeneration, h⟩ := bind_eq_some_iff.mp h
      split at h
      · rename_i hcalls
        obtain ⟨before, hbefore, rfl⟩ := map_eq_some_iff.mp h
        exact .ended hgeneration (isEmpty_iff.mp hcalls) hbefore
      · rename_i hcalls
        split at h
        · rename_i hresults
          cases h
          exact .called hgeneration (fun hnil => hcalls (isEmpty_iff.mpr hnil)) hresults
        · cases h
  | cancel k responses =>
    obtain ⟨generation, hgeneration, h⟩ := bind_eq_some_iff.mp h
    obtain ⟨before, hbefore, rfl⟩ := map_eq_some_iff.mp h
    exact .cancel hgeneration hbefore

theorem step_of_does {w t : World} {side : Side} {op : Op} (h : Does tags failureYaml w side op t) :
    opStep tags failureYaml w side op = some t := by
  cases h with
  | withWorkingDirectory hagent => rw [opStep, hagent, map_some]
  | withTools hagent ht => rw [opStep, hagent, bind_some, ht]
  | renderPrompt hagent hstage hfamily hprompt =>
    rw [opStep, hagent, bind_some, hstage]
    dsimp only
    rw [hfamily, bind_some, hprompt, map_some]
  | setPrompt hagent hstage hfamily =>
    rw [opStep, hagent, bind_some, hstage]
    dsimp only
    rw [hfamily, map_some]
  | dropConversation hagent hstage hbefore =>
    rw [opStep, hagent, bind_some, hstage]
    dsimp only
    rw [hbefore, map_some]
  | clearConversation hagent hbefore =>
    rw [opStep, hagent, bind_some, hbefore, map_some]
  | message hagent hfamily hbefore =>
    rw [opStep, hagent, bind_some, hfamily, bind_some, hbefore, map_some]
  | refused hgeneration => rw [opStep, hgeneration, map_some]
  | ended hgeneration hcalls hbefore =>
    rw [opStep, hgeneration, bind_some, if_pos (isEmpty_iff.mpr hcalls), hbefore,
      map_some]
  | called hgeneration hcalls hresults =>
    rw [opStep, hgeneration, bind_some,
      if_neg (fun hnil => hcalls (isEmpty_iff.mp hnil)),
      if_pos hresults]
  | cancel hgeneration hbefore =>
    rw [opStep, hgeneration, bind_some, hbefore, map_some]

end Step

end ColossalCode.Scoped
