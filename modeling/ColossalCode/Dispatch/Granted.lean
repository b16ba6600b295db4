import ColossalCode.Agent.Generation
import ColossalCode.Dispatch.Executed
import ColossalCode.Transition.Run

/-! Agents, their tools and their modes, and the calls of their turns. An agent made from another
one shares the cells of both; what is kept here of an agent is what its calls read. -/
namespace ColossalCode.Dispatch
open List Option

open Agent (Response ThinkingTags ToolCallResponse readTurn)
open Transition

/-- The cells that an agent shares with all that are made from it. -/
structure Family where
  tools : List Tool
  safetyConfig : SafetyConfig
  deriving DecidableEq

structure Agent where
  family : Nat
  workingDirectory : Option String

/-- A call that has been executed, with the tools and the mode its agent had then. -/
structure Executed where
  agent : Nat
  call : ToolCallResponse
  family : Family
  result : Outcome × List Effect

structure World where
  families : List Family
  agents : List Agent
  executed : List Executed

namespace World

def init : World := ⟨[], [], []⟩

def familyOf (w : World) (i : Nat) : Option (Agent × Family) :=
  w.agents[i]?.bind fun agent => w.families[agent.family]?.map fun family => (agent, family)

def setFamily (w : World) (agent : Agent) (family : Family) : World :=
  { w with families := w.families.set agent.family family }

end World

/-- A turn is given by the responses of the backend, and each of its calls by the replies it gets.
Of an update of the mode that does not wait, each cell may be missed. -/
inductive Action where
  | newWithBackend (tools : List Tool) (safetyConfig : SafetyConfig)
  | withWorkingDirectory (i : Nat) (cwd : String)
  | withTools (i : Nat) (tools : List Tool)
  | updateSafetyConfig (i : Nat) (safetyConfig : SafetyConfig)
  | applySafetyConfigImmediately (i : Nat) (safetyConfig : SafetyConfig)
      (configFree toolsFree : Bool)
  | turn (i : Nat) (responses : List Response) (replies : List (List Reply))

section Step

variable (platform : Platform) (tags : ThinkingTags)

/-- What a call reads of its agent. -/
def Agent.calling (agent : Agent) (family : Family) : CallingAgent where
  safetyConfig := family.safetyConfig
  effectiveCwd := agent.workingDirectory.getD platform.workspaceRoot

/-- The calls of a turn, one after the other. -/
def executeCalls (i : Nat) (agent : Agent) (family : Family) :
    List (ToolCallResponse × List Reply) → Option (List Executed)
  | [] => some []
  | (call, replies) :: rest =>
    (executeToolCall platform (agent.calling platform family) call.function.name
      call.function.arguments replies).bind fun result =>
        (executeCalls i agent family rest).map fun later => ⟨i, call, family, result⟩ :: later

/-- The calls of a turn with their replies. -/
def turnCalls (responses : List Response) (replies : List (List Reply)) :
    List (ToolCallResponse × List Reply) :=
  (readTurn tags responses).calls.zip replies

def step (w : World) : Action → Option World
  | .newWithBackend tools safetyConfig => some { w with
      families := w.families ++ [⟨tools, safetyConfig⟩]
      agents := w.agents ++ [⟨w.families.length, none⟩] }
  | .withWorkingDirectory i cwd => (w.familyOf i).map fun (agent, _) =>
      { w with agents := w.agents ++ [{ agent with workingDirectory := some cwd }] }
  | .withTools i tools => (w.familyOf i).map fun (agent, family) =>
      { w.setFamily agent { family with tools } with agents := w.agents ++ [agent] }
  | .updateSafetyConfig i safetyConfig => (w.familyOf i).map fun (agent, _) =>
      w.setFamily agent ⟨safetyConfig.tools, safetyConfig⟩
  | .applySafetyConfigImmediately i safetyConfig configFree toolsFree =>
    (w.familyOf i).map fun (agent, family) => w.setFamily agent
      ⟨if toolsFree then safetyConfig.tools else family.tools,
        if configFree then safetyConfig else family.safetyConfig⟩
  | .turn i responses replies => (w.familyOf i).bind fun (agent, family) =>
      if (readTurn tags responses).calls.length = replies.length then
        (executeCalls platform i agent family (turnCalls tags responses replies)).map
          fun records => { w with executed := w.executed ++ records }
      else none

end Step

/-- The tool is one of those offered, and the mode allows it. -/
def Granted (family : Family) (name : String) : Prop :=
  name ∈ family.tools.map (·.name) ∧ family.safetyConfig.isToolAllowed name = true

instance (family : Family) (name : String) : Decidable (Granted family name) := instDecidableAnd

/-- Only tools that were offered and allowed have run; any other call has failed and done nothing.
-/
def OnlyGranted (w : World) : Prop :=
  ∀ e ∈ w.executed, Granted e.family e.call.function.name ∨ FailsIdle e.result

/-- Each call of a turn names a tool that is offered and allowed, or is withheld. -/
def Behaves (platform : Platform) (tags : ThinkingTags) (w : World) : Action → Prop
  | .turn i responses replies => ∀ agent family, w.familyOf i = some (agent, family) →
      ∀ pair ∈ turnCalls tags responses replies,
        Granted family pair.1.function.name ∨
          Withheld platform pair.1.function.name pair.1.function.arguments pair.2
  | _ => True

section Runs

variable {platform : Platform} {tags : ThinkingTags} {w w' : World}

theorem executeCalls_lawful {i : Nat} {agent : Agent} {family : Family}
    {calls : List (ToolCallResponse × List Reply)} {records : List Executed}
    (h : executeCalls platform i agent family calls = some records) :
    (∀ e ∈ records, Granted e.family e.call.function.name ∨ FailsIdle e.result) ↔
      ∀ pair ∈ calls, Granted family pair.1.function.name ∨
        Withheld platform pair.1.function.name pair.1.function.arguments pair.2 := by
  induction calls generalizing records with
  | nil =>
    obtain rfl := Option.some.inj h
    exact iff_of_true (fun e he => absurd he not_mem_nil)
      fun pair hpair => absurd hpair not_mem_nil
  | cons pair calls ih =>
    obtain ⟨call, replies⟩ := pair
    obtain ⟨result, hresult, h⟩ := bind_eq_some_iff.mp h
    obtain ⟨later, hlater, rfl⟩ := map_eq_some_iff.mp h
    rw [forall_mem_cons, forall_mem_cons, ih hlater, failsIdle_iff_withheld hresult]

theorem step_lawful {a : Action} (h : step platform tags w a = some w') (hw : OnlyGranted w) :
    OnlyGranted w' ↔ Behaves platform tags w a := by
  have hkept : w'.executed = w.executed → (OnlyGranted w' ↔ True) := by
    intro hexecuted
    rw [OnlyGranted, hexecuted]
    exact iff_true_intro hw
  cases a with
  | newWithBackend tools safetyConfig =>
    obtain rfl := Option.some.inj h
    exact hkept rfl
  | withWorkingDirectory i cwd | withTools i tools | updateSafetyConfig i safetyConfig
  | applySafetyConfigImmediately i safetyConfig configFree toolsFree =>
    obtain ⟨⟨agent, family⟩, -, rfl⟩ := map_eq_some_iff.mp h
    exact hkept rfl
  | turn i responses replies =>
    obtain ⟨⟨agent, family⟩, hfamily, h⟩ := bind_eq_some_iff.mp h
    dsimp only at h
    split at h
    · obtain ⟨records, hrecords, rfl⟩ := map_eq_some_iff.mp h
      have hboth : OnlyGranted { w with executed := w.executed ++ records } ↔ OnlyGranted w ∧
          ∀ e ∈ records, Granted e.family e.call.function.name ∨ FailsIdle e.result :=
        forall_mem_append
      rw [hboth, and_iff_right hw, executeCalls_lawful hrecords, Behaves, hfamily]
      constructor
      · intro hcalls agent' family' heq
        obtain ⟨rfl, rfl⟩ := Prod.mk.inj (Option.some.inj heq)
        exact hcalls
      · intro hcalls
        exact hcalls agent family rfl
    · cases h

/-- Only offered and allowed tools run where the model calls no other, but for calls that are
withheld: the code itself checks neither. -/
theorem only_granted_iff {actions : List Action}
    (h : run (step platform tags) .init actions = some w) :
    Throughout (step platform tags) OnlyGranted .init actions ↔
      Steps (step platform tags) (Behaves platform tags) .init actions w := by
  refine throughout_iff_steps (I := fun _ => True) (fun _ _ _ _ _ => trivial) ?_ h trivial ?_
  · intro w a w' _ hstep hw
    exact step_lawful hstep hw
  · exact fun e he => absurd he not_mem_nil

end Runs

def editArguments : String :=
  "\x7b\"path\": \"a.rs\", \"old_string\": \"a\", \"new_string\": \"b\"\x7d"

def posixPlatform : Platform where
  env := ⟨none, none, [], false⟩
  workspaceRoot := "/repo"
  shellKind := .posix
  parse text :=
    if text = editArguments then
      .ok (.object [("path", .string "a.rs"), ("old_string", .string "a"),
        ("new_string", .string "b")])
    else .error "expected value at line 1 column 1"
  jsonText _ := "[]"

def thinkTags : ThinkingTags := ⟨"<think>".toList, "</think>".toList⟩

def calling (name arguments : String) : List Response :=
  [.chunk [⟨none, 0, ⟨none, "assistant", some [⟨0, "call_0", ⟨name, arguments⟩⟩]⟩⟩], .done []]

/-- A main agent, the verifier made from it, and one turn of the verifier. -/
def verifierTurn (name arguments : String) (replies : List Reply) : List Action :=
  [.newWithBackend getAllTools (.fromMode .regular), .withTools 0 getVerifierTools,
    .turn 1 (calling name arguments) [replies]]

def editReplies : List Reply :=
  [.done, .policy (sandboxPolicyFromConfigWithWorkspace posixPlatform.env (.fromMode .regular)
    posixPlatform.workspaceRoot), .binary (.exited true "File edited" "")]

theorem verifier_edits : ∃ w,
    run (step posixPlatform thinkTags) .init (verifierTurn "edit_file" editArguments editReplies) =
      some w ∧ ¬ OnlyGranted w := by
  refine ⟨_, rfl, ?_⟩
  intro h
  rcases h _ mem_cons_self with hgranted | ⟨-, hidle⟩
  · exact absurd hgranted (by decide)
  · cases hidle

/-- A verifier that calls a tool with arguments that cannot be read has failed and done nothing. -/
theorem only_granted_unreadable : ∃ w,
    run (step posixPlatform thinkTags) .init (verifierTurn "edit_file" "" [.done]) = some w ∧
      Throughout (step posixPlatform thinkTags) OnlyGranted .init
        (verifierTurn "edit_file" "" [.done]) := by
  refine ⟨_, rfl, (only_granted_iff rfl).mpr ?_⟩
  refine .head trivial rfl (.head trivial rfl (.head ?_ rfl (.refl _)))
  intro agent family hfamily pair hpair
  obtain rfl := mem_singleton.mp hpair
  exact .inr trivial

end ColossalCode.Dispatch
