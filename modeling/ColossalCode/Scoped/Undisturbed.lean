import ColossalCode.Scoped.Agents
import ColossalCode.Transition.Interference

/-! When verifications leave alone the agents that implement. -/
namespace ColossalCode.Scoped
open Function List Option Dispatch World

open ColossalCode.Agent (ThinkingTags Response readTurn)
open Dispatch (Tool)
open Transition

/-- All that an agent that implements can see. -/
def World.seen (w : World) : List Family × Half := (w.families, w.half .implementing)

/-- What a conversation is set to, if it is one of those that implement. -/
def World.Holds (w : World) (cell : ConversationCell) (request : Option Request) : Prop :=
  cell.side = .implementing → w.conversation cell = some request

/-- A verification gets the tools that are there, renders the prompt that is there, and finds and
leaves no conversation. -/
def Upholds (tags : ThinkingTags) (w : World) : Action → Prop
  | .verify i tools => ∀ agent family, w.readyAgent .implementing i = some agent →
      w.families[agent.family]? = some family → tools = family.tools
  | .act .verifying (.withTools i tools) => ∀ agent family,
      w.readyAgent .verifying i = some agent → w.families[agent.family]? = some family →
        tools = family.tools
  | .act .verifying (.setPrompt i) => ∀ agent family prompt, w.agent .verifying i = some agent →
      w.families[agent.family]? = some family → agent.stage = .rendered prompt →
        prompt = family.systemPrompt
  | .act .verifying (.dropConversation i) => ∀ agent, w.agent .verifying i = some agent →
      w.Holds agent.conversation none
  | .act .verifying (.clearConversation i) | .act .verifying (.message i _) => ∀ agent,
      w.readyAgent .verifying i = some agent → w.Holds agent.conversation none
  | .act .verifying (.reply k (.streamed responses) _) => ∀ generation,
      w.generation .verifying k = some generation → (readTurn tags responses).calls = [] →
        w.Holds generation.conversation (some generation.builder)
  | .act .verifying (.cancel k responses) => ∀ generation,
      w.generation .verifying k = some generation →
        w.Holds generation.conversation (some (cancelled tags generation.builder responses))
  | _ => True

/-- Agents that implement talk in conversations of their own side. -/
structure Kept (w : World) : Prop where
  agents : ∀ agent ∈ (w.half .implementing).agents, agent.conversation.side = .implementing
  generations : ∀ generation ∈ (w.half .implementing).generations,
    generation.conversation.side = .implementing

theorem kept_start : Kept .start where
  agents agent h := by cases h
  generations generation h := by cases h

section Step

variable {tags : ThinkingTags} {failureYaml : String → String → String}
    {w w' t : World} {side : Side}
  {i k f : Nat} {agent : Agent} {generation : Generation} {cell : ConversationCell}
  {family : Family}

theorem readyAgent_eq_some (h : w.readyAgent side i = some agent) : w.agent side i = some agent :=
  (filter_eq_some_iff.mp h).1

theorem generation_mem (h : w.generation side k = some generation) :
    generation ∈ (w.half side).generations :=
  mem_of_getElem? (filter_eq_some_iff.mp h).1

theorem Kept.agent_side (hk : Kept w) (h : w.agent side i = some agent)
    (hside : side = .implementing) :
    agent.conversation.side = .implementing := by
  subst hside
  exact hk.agents agent (mem_of_getElem? h)

theorem Kept.generation_side (hk : Kept w) (h : w.generation side k = some generation)
    (hside : side = .implementing) : generation.conversation.side = .implementing := by
  subst hside
  exact hk.generations generation (generation_mem h)

theorem half_setHalf (side other : Side) (half : Half) :
    (w.setHalf side half).half other = if other = side then half else w.half other := by
  by_cases h : other = side
  · subst h
    rw [if_pos rfl]
    exact update_self ..
  · rw [if_neg h]
    exact update_of_ne h ..

/-- What agents and generations there are on the implementing side afterwards. -/
theorem Kept.setHalf {half : Half} (hk : Kept w)
    (hagents : side = .implementing → ∀ agent ∈ half.agents,
      agent.conversation.side = .implementing)
    (hgenerations : side = .implementing → ∀ generation ∈ half.generations,
      generation.conversation.side = .implementing) : Kept (w.setHalf side half) := by
  by_cases h : Side.implementing = side
  · subst h
    refine ⟨?_, ?_⟩
    · rw [half_setHalf, if_pos rfl]
      exact hagents rfl
    · rw [half_setHalf, if_pos rfl]
      exact hgenerations rfl
  · refine ⟨?_, ?_⟩
    · rw [half_setHalf, if_neg h]
      exact hk.agents
    · rw [half_setHalf, if_neg h]
      exact hk.generations

theorem Kept.addAgent (hk : Kept w)
    (hagent : side = .implementing → agent.conversation.side = .implementing) :
    Kept (w.addAgent side agent) := by
  refine hk.setHalf (fun hside other hother => ?_) (fun hside => hside ▸ hk.generations)
  subst hside
  rcases mem_append.mp hother with hother | hother
  · exact hk.agents other hother
  · exact mem_singleton.mp hother ▸ hagent rfl

theorem Kept.setAgent (hk : Kept w)
    (hagent : side = .implementing → agent.conversation.side = .implementing) :
    Kept (w.setAgent side i agent) := by
  refine hk.setHalf (fun hside other hother => ?_) (fun hside => hside ▸ hk.generations)
  subst hside
  rcases mem_or_eq_of_mem_set hother with hother | rfl
  · exact hk.agents other hother
  · exact hagent rfl

theorem Kept.addGeneration (hk : Kept w)
    (hgeneration : side = .implementing → generation.conversation.side = .implementing) :
    Kept (w.addGeneration side generation) := by
  refine hk.setHalf (fun hside => hside ▸ hk.agents) (fun hside other hother => ?_)
  subst hside
  rcases mem_append.mp hother with hother | hother
  · exact hk.generations other hother
  · exact mem_singleton.mp hother ▸ hgeneration rfl

theorem Kept.setGeneration (hk : Kept w)
    (hgeneration : side = .implementing → generation.conversation.side = .implementing) :
    Kept (w.setGeneration side k generation) := by
  refine hk.setHalf (fun hside => hside ▸ hk.agents) (fun hside other hother => ?_)
  subst hside
  rcases mem_or_eq_of_mem_set hother with hother | rfl
  · exact hk.generations other hother
  · exact hgeneration rfl

theorem Kept.setConversation (hk : Kept w) (cell : ConversationCell) (request : Option Request) :
    Kept (w.setConversation cell request) :=
  hk.setHalf (fun hside => hside ▸ hk.agents) (fun hside => hside ▸ hk.generations)

theorem Kept.setFamily (hk : Kept w) (f : Nat) (family : Family) : Kept (w.setFamily f family) :=
  ⟨hk.agents, hk.generations⟩

variable {tools : List Tool} {a : Action}

theorem withTools_eq_some :
    withTools w side agent tools = some t ↔ ∃ family, w.families[agent.family]? = some family ∧
      t = (w.setFamily agent.family { family with tools }).addAgent side
        { agent with stage := .toolsSet } := by
  refine map_eq_some_iff.trans (exists_congr fun family => and_congr_right fun _ => ?_)
  exact eq_comm

theorem op_kept {op : Op} (h : Does tags failureYaml w side op t) (hk : Kept w) : Kept t := by
  cases h with
  | withWorkingDirectory hagent =>
    refine Kept.addAgent (hk.setHalf ?_ ?_) id
    · exact fun hside => hside ▸ hk.agents
    · exact fun hside => hside ▸ hk.generations
  | withTools hagent ht =>
    obtain ⟨family, -, rfl⟩ := withTools_eq_some.mp ht
    have hside := hk.agent_side (readyAgent_eq_some hagent)
    exact (hk.setFamily _ _).addAgent hside
  | renderPrompt hagent =>
    have hside := hk.agent_side hagent
    exact hk.setAgent hside
  | setPrompt hagent =>
    have hside := hk.agent_side hagent
    exact (hk.setFamily _ _).setAgent hside
  | dropConversation hagent =>
    have hside := hk.agent_side hagent
    exact (hk.setConversation _ _).setAgent hside
  | clearConversation => exact hk.setConversation _ _
  | message hagent =>
    exact (hk.setConversation _ _).addGeneration (hk.agent_side (readyAgent_eq_some hagent))
  | refused hgeneration | called hgeneration =>
    have hside := hk.generation_side hgeneration
    exact hk.setGeneration hside
  | ended hgeneration | cancel hgeneration =>
    have hside := hk.generation_side hgeneration
    exact (hk.setConversation _ _).setGeneration hside

theorem step_kept (h : step tags failureYaml w a = some t) (hk : Kept w) : Kept t := by
  cases a with
  | newWithBackend family =>
    cases h
    refine Kept.addAgent ⟨?_, ?_⟩ fun _ => rfl
    · exact hk.agents
    · exact hk.generations
  | verify i tools =>
    obtain ⟨agent, hagent, ht⟩ := bind_eq_some_iff.mp h
    obtain ⟨family, -, rfl⟩ := withTools_eq_some.mp ht
    refine (hk.setFamily _ _).addAgent fun hside => ?_
    cases hside
  | act side op => exact op_kept (does_of_step tags failureYaml h) hk

theorem forall_found {α : Type} {o : Option α} {x : α} {P : α → Prop} (h : o = some x) :
    (∀ y, o = some y → P y) ↔ P x := by
  constructor
  · exact fun hall => hall x h
  · intro hx y hy
    exact some.inj (h.symm.trans hy) ▸ hx

theorem found_tools (hagent : w.readyAgent side i = some agent)
    (hfamily : w.families[agent.family]? = some family) :
    (∀ agent family, w.readyAgent side i = some agent → w.families[agent.family]? = some family →
      tools = family.tools) ↔ tools = family.tools := by
  constructor
  · exact fun hall => hall agent family hagent hfamily
  · intro htools agent' family' hagent' hfamily'
    obtain rfl := some.inj (hagent.symm.trans hagent')
    obtain rfl := some.inj (hfamily.symm.trans hfamily')
    exact htools

theorem set_eq_self {α : Type} {xs : List α} {x y : α} (h : xs[i]? = some x) :
    xs.set i y = xs ↔ y = x := by
  obtain ⟨hlt, hx⟩ := List.getElem?_eq_some_iff.mp h
  constructor
  · intro heq
    have hset : (xs.set i y)[i]? = some y := List.getElem?_set_self hlt
    rw [heq, h] at hset
    exact (Option.some.inj hset).symm
  · intro heq
    rw [heq, ← hx]
    exact set_getElem_self hlt

theorem setFamily_seen {after : Family} (h : w.families[f]? = some family) :
    (w.setFamily f after).seen = w.seen ↔ after = family := by
  refine Iff.trans ⟨fun heq => congrArg Prod.fst heq, fun heq => ?_⟩ (set_eq_self h)
  exact Prod.ext heq rfl

/-- A conversation that is not one of those that implement is not seen. -/
theorem setConversation_seen {before request : Option Request}
    (h : w.conversation cell = some before) :
    (w.setConversation cell request).seen = w.seen ↔ w.Holds cell request := by
  obtain ⟨side, index⟩ := cell
  rw [World.Holds, h]
  cases side with
  | verifying => exact iff_of_true rfl fun hside => (by cases hside)
  | implementing =>
    rw [forall_prop_of_true rfl, some.injEq, eq_comm (a := before), ← set_eq_self h]
    constructor
    · exact fun heq => congrArg (fun seen : List Family × Half => seen.2.conversations) heq
    · intro heq
      have hhalf : ((w.setConversation ⟨.implementing, index⟩ request).half .implementing) =
          w.half .implementing := by
        rw [setConversation, half_setHalf, if_pos rfl, heq]
      exact Prod.ext rfl hhalf

theorem verify_seen (hready : w.families[agent.family]? = some family)
    (ht : withTools w .verifying agent tools = some t) :
    t.seen = w.seen ↔ tools = family.tools := by
  obtain ⟨family', hfamily, rfl⟩ := withTools_eq_some.mp ht
  obtain rfl := some.inj (hready.symm.trans hfamily)
  refine Iff.trans (setFamily_seen hready) ⟨fun h => congrArg Family.tools h, fun h => ?_⟩
  rw [h]

/-- A step of a verification changes nothing that agents that implement can see exactly where it
upholds what is there. -/
theorem op_seen {op : Op} (h : Does tags failureYaml w .verifying op t) :
    t.seen = w.seen ↔ Upholds tags w (.act .verifying op) := by
  cases h with
  | withWorkingDirectory => exact iff_of_true rfl trivial
  | renderPrompt => exact iff_of_true rfl trivial
  | refused => exact iff_of_true rfl trivial
  | called hgeneration hcalls =>
    exact iff_of_true rfl fun _ _ hnil => absurd hnil hcalls
  | withTools hagent ht =>
    obtain ⟨family, hfamily, -⟩ := withTools_eq_some.mp ht
    rw [verify_seen hfamily ht]
    exact (found_tools hagent hfamily).symm
  | setPrompt hagent hstage hfamily =>
    refine (setFamily_seen hfamily).trans ⟨fun heq => ?_, fun huphold => ?_⟩
    · intro agent' family' prompt' hagent' hfamily' hstage'
      obtain rfl := some.inj (hagent.symm.trans hagent')
      obtain rfl := some.inj (hfamily.symm.trans hfamily')
      obtain rfl := Stage.rendered.inj (hstage.symm.trans hstage')
      exact congrArg Family.systemPrompt heq
    · rw [huphold _ _ _ hagent hfamily hstage]
  | dropConversation hagent _ hbefore | clearConversation hagent hbefore
  | message hagent _ hbefore =>
    refine (setConversation_seen hbefore).trans (Iff.symm ?_)
    exact forall_found (P := fun agent => w.Holds agent.conversation none) hagent
  | @ended k responses results _ before hgeneration hcalls hbefore =>
    refine (setConversation_seen hbefore).trans (Iff.symm ?_)
    refine (forall_found (P := fun generation => (readTurn tags responses).calls = [] →
      w.Holds generation.conversation (some generation.builder)) hgeneration).trans ?_
    exact ⟨fun h => h hcalls, fun h _ => h⟩
  | @cancel k responses _ before hgeneration hbefore =>
    refine (setConversation_seen hbefore).trans (Iff.symm ?_)
    exact forall_found (P := fun generation =>
      w.Holds generation.conversation
        (some (cancelled tags generation.builder responses))) hgeneration

theorem families_of_seen (h : w.seen = w'.seen) : w.families = w'.families := congrArg Prod.fst h

theorem half_of_seen (h : w.seen = w'.seen) : w.half .implementing = w'.half .implementing :=
  congrArg Prod.snd h

theorem setHalf_seen (half : Half) : (w.setHalf .implementing half).seen = (w.families, half) := by
  rw [seen, half_setHalf, if_pos rfl]
  rfl

theorem seen_setHalf (h : w.seen = w'.seen) {half half' : Half} (hhalf : half = half') :
    (w.setHalf .implementing half).seen = (w'.setHalf .implementing half').seen := by
  rw [setHalf_seen, setHalf_seen, families_of_seen h, hhalf]

theorem seen_setFamily (h : w.seen = w'.seen) (f : Nat) (family : Family) :
    (w.setFamily f family).seen = (w'.setFamily f family).seen := by
  refine Prod.ext ?_ (half_of_seen h)
  exact congrArg (fun families : List Family => families.set f family) (families_of_seen h)

theorem seen_addAgent (h : w.seen = w'.seen) (agent : Agent) :
    (w.addAgent .implementing agent).seen = (w'.addAgent .implementing agent).seen :=
  seen_setHalf h (by rw [half_of_seen h])

theorem seen_setAgent (h : w.seen = w'.seen) (i : Nat) (agent : Agent) :
    (w.setAgent .implementing i agent).seen = (w'.setAgent .implementing i agent).seen :=
  seen_setHalf h (by rw [half_of_seen h])

theorem seen_addGeneration (h : w.seen = w'.seen) (generation : Generation) :
    (w.addGeneration .implementing generation).seen =
      (w'.addGeneration .implementing generation).seen :=
  seen_setHalf h (by rw [half_of_seen h])

theorem seen_setGeneration (h : w.seen = w'.seen) (k : Nat) (generation : Generation) :
    (w.setGeneration .implementing k generation).seen =
      (w'.setGeneration .implementing k generation).seen :=
  seen_setHalf h (by rw [half_of_seen h])

theorem seen_setConversation (h : w.seen = w'.seen) (hside : cell.side = .implementing)
    (request : Option Request) :
    (w.setConversation cell request).seen = (w'.setConversation cell request).seen := by
  rw [setConversation, setConversation, hside]
  exact seen_setHalf h (by rw [half_of_seen h])

theorem agent_of_seen (h : w.seen = w'.seen) (i : Nat) :
    w.agent .implementing i = w'.agent .implementing i := by
  rw [agent, agent, half_of_seen h]

theorem readyAgent_of_seen (h : w.seen = w'.seen) (i : Nat) :
    w.readyAgent .implementing i = w'.readyAgent .implementing i := by
  rw [readyAgent, readyAgent, agent_of_seen h]

theorem generation_of_seen (h : w.seen = w'.seen) (k : Nat) :
    w.generation .implementing k = w'.generation .implementing k := by
  rw [generation, generation, half_of_seen h]

theorem conversation_of_seen (h : w.seen = w'.seen) (hside : cell.side = .implementing) :
    w.conversation cell = w'.conversation cell := by
  rw [conversation, conversation, hside, half_of_seen h]

theorem withTools_of_seen (h : w.seen = w'.seen)
    (ht : withTools w .implementing agent tools = some t) :
    ∃ t', withTools w' .implementing agent tools = some t' ∧ t.seen = t'.seen := by
  obtain ⟨family, hfamily, rfl⟩ := withTools_eq_some.mp ht
  refine ⟨_, withTools_eq_some.mpr ⟨family, families_of_seen h ▸ hfamily, rfl⟩, ?_⟩
  exact seen_addAgent (seen_setFamily h _ _) _

theorem op_of_seen {op : Op} (hk : Kept w) (h : w.seen = w'.seen)
    (ht : Does tags failureYaml w .implementing op t) :
    ∃ t', Does tags failureYaml w' .implementing op t' ∧ t.seen = t'.seen := by
  cases ht with
  | withWorkingDirectory hagent =>
    refine ⟨_, .withWorkingDirectory (readyAgent_of_seen h _ ▸ hagent), ?_⟩
    rw [half_of_seen h]
    exact seen_addAgent (seen_setHalf h rfl) _
  | withTools hagent ht =>
    obtain ⟨t', ht', hseen⟩ := withTools_of_seen h ht
    exact ⟨t', .withTools (readyAgent_of_seen h _ ▸ hagent) ht', hseen⟩
  | renderPrompt hagent hstage hfamily hprompt =>
    refine ⟨_, .renderPrompt (agent_of_seen h _ ▸ hagent) hstage
      (families_of_seen h ▸ hfamily) hprompt, ?_⟩
    exact seen_setAgent h _ _
  | setPrompt hagent hstage hfamily =>
    refine ⟨_, .setPrompt (agent_of_seen h _ ▸ hagent) hstage (families_of_seen h ▸ hfamily), ?_⟩
    exact seen_setAgent (seen_setFamily h _ _) _ _
  | dropConversation hagent hstage hbefore =>
    have hside := hk.agent_side hagent rfl
    refine ⟨_, .dropConversation (agent_of_seen h _ ▸ hagent) hstage
      (conversation_of_seen h hside ▸ hbefore), ?_⟩
    exact seen_setAgent (seen_setConversation h hside _) _ _
  | clearConversation hagent hbefore =>
    have hside := hk.agent_side (readyAgent_eq_some hagent) rfl
    refine ⟨_, .clearConversation (readyAgent_of_seen h _ ▸ hagent)
      (conversation_of_seen h hside ▸ hbefore), ?_⟩
    exact seen_setConversation h hside _
  | message hagent hfamily hbefore =>
    have hside := hk.agent_side (readyAgent_eq_some hagent) rfl
    refine ⟨_, .message (readyAgent_of_seen h _ ▸ hagent) (families_of_seen h ▸ hfamily)
      (conversation_of_seen h hside ▸ hbefore), ?_⟩
    exact seen_addGeneration (seen_setConversation h hside _) _
  | refused hgeneration =>
    refine ⟨_, .refused (generation_of_seen h _ ▸ hgeneration), ?_⟩
    exact seen_setGeneration h _ _
  | ended hgeneration hcalls hbefore =>
    have hside := hk.generation_side hgeneration rfl
    refine ⟨_, .ended (generation_of_seen h _ ▸ hgeneration) hcalls
      (conversation_of_seen h hside ▸ hbefore), ?_⟩
    exact seen_setGeneration (seen_setConversation h hside _) _ _
  | called hgeneration hcalls hresults =>
    refine ⟨_, .called (generation_of_seen h _ ▸ hgeneration) hcalls hresults, ?_⟩
    exact seen_setGeneration h _ _
  | cancel hgeneration hbefore =>
    have hside := hk.generation_side hgeneration rfl
    refine ⟨_, .cancel (generation_of_seen h _ ▸ hgeneration)
      (conversation_of_seen h hside ▸ hbefore), ?_⟩
    exact seen_setGeneration (seen_setConversation h hside _) _ _

theorem step_of_seen (ha : a.verifies = false) (hk : Kept w) (h : w.seen = w'.seen)
    (ht : step tags failureYaml w a = some t) :
    ∃ t', step tags failureYaml w' a = some t' ∧ t.seen = t'.seen := by
  cases a with
  | newWithBackend family =>
    cases ht
    refine ⟨_, rfl, ?_⟩
    rw [families_of_seen h, half_of_seen h]
    exact seen_addAgent rfl _
  | verify i tools => cases ha
  | act side op =>
    cases side with
    | verifying => cases ha
    | implementing =>
      obtain ⟨t', ht', hseen⟩ := op_of_seen hk h (does_of_step tags failureYaml ht)
      exact ⟨t', step_of_does tags failureYaml ht', hseen⟩

/-- An action leaves alone what agents that implement see exactly where it upholds it. -/
theorem leaves_iff (ht : step tags failureYaml w a = some t) :
    Leaves (step tags failureYaml) seen Action.verifies w a ↔ Upholds tags w a := by
  have hleaves : a.verifies = true →
      (Leaves (step tags failureYaml) seen Action.verifies w a ↔ t.seen = w.seen) := by
    intro ha
    constructor
    · exact fun hleave => hleave ha t ht
    · intro hseen _ t' ht'
      exact some.inj (ht.symm.trans ht') ▸ hseen
  cases a with
  | newWithBackend family => exact iff_of_true (fun ha => (by cases ha)) trivial
  | verify i tools =>
    refine (hleaves rfl).trans ?_
    obtain ⟨agent, hagent, ht⟩ := bind_eq_some_iff.mp ht
    obtain ⟨family, hfamily, -⟩ := withTools_eq_some.mp ht
    rw [verify_seen hfamily ht]
    exact (found_tools hagent hfamily).symm
  | act side op =>
    cases side with
    | implementing => exact iff_of_true (fun ha => (by cases ha)) trivial
    | verifying => exact (hleaves rfl).trans (op_seen (does_of_step tags failureYaml ht))

end Step

/-- Whatever agents and messages a run makes, no action of a verification changes the tools, the
prompt or a conversation of an agent that implements, and those are what they would be with no
verification, if and only if every action of the run upholds them. -/
theorem implementors_undisturbed_iff {tags : ThinkingTags} {failureYaml : String → String → String}
    {actions : List Action} {w : World}
    (hrun : run (step tags failureYaml) .start actions = some w) :
    Steps (step tags failureYaml) (Leaves (step tags failureYaml) seen Action.verifies) .start
        actions w ∧
      Undisturbed (step tags failureYaml) seen Action.verifies .start actions ↔
    Steps (step tags failureYaml) (Upholds tags) .start actions w := by
  have hundisturbed : Undisturbed
    (step tags failureYaml) seen Action.verifies .start actions ↔
      Steps (step tags failureYaml) (Upholds tags) .start actions w :=
    undisturbed_iff (I := Kept) (fun _ _ _ ht hk => step_kept ht hk)
      (fun _ _ _ _ ha hk _ h ht => step_of_seen ha hk h ht) (fun _ _ _ _ ht => leaves_iff ht) hrun
      kept_start
  refine ⟨fun h => hundisturbed.mp h.2, fun h => ⟨?_, hundisturbed.mpr h⟩⟩
  exact steps_of_undisturbed (hundisturbed.mpr h) hrun

/-- A verification with some tools, up to the agent that its caller gets. -/
def verification (i : Nat) (tools : List Tool) : List Action :=
  [.verify i tools,
    .act .verifying (.renderPrompt 0 ⟨"You are \x7bmodel_name\x7d.", "Linux", "/repo"⟩),
    .act .verifying (.setPrompt 0), .act .verifying (.dropConversation 0)]

def thinkTags : ThinkingTags := ⟨"<think>".toList, "</think>".toList⟩

def mainFamily (tools : List Tool) : Family := ⟨tools, "You are m.", .fromMode .regular, "m"⟩

def yaml (error tool : String) : String := error ++ tool

/-- A verifier that is made in a worktree, with the tools of its parent; the backend refuses its
message. -/
def refusedVerification : List Action :=
  [.newWithBackend (mainFamily getVerifierTools),
      .act .implementing (.withWorkingDirectory 0 "/tree")] ++
    verification 1 getVerifierTools ++
    [.act .verifying (.message 0 "Verify."), .act .verifying (.reply 0 (.refused "busy") []),
      .act .implementing (.message 1 "Go on.")]

/-- Some run of these actions upholds what is there. -/
def Upheld (w : World) (actions : List Action) : Prop :=
  ∃ t, Steps (step thinkTags yaml) (Upholds thinkTags) w actions t

theorem goes {w u : World} {a : Action} {actions : List Action} (ha : Upholds thinkTags w a)
    (hu : step thinkTags yaml w a = some u) (hrest : Upheld u actions) :
    Upheld w (a :: actions) := by
  obtain ⟨t, hrest⟩ := hrest
  exact ⟨t, .head ha hu hrest⟩

theorem implementors_undisturbed_refused : ∃ w,
    run (step thinkTags yaml) .start refusedVerification = some w ∧
    Steps (step thinkTags yaml) (Leaves (step thinkTags yaml) seen Action.verifies) .start
      refusedVerification w ∧
    Undisturbed (step thinkTags yaml) seen Action.verifies .start refusedVerification := by
  have hupheld : Upheld .start refusedVerification := by
    refine goes trivial rfl (goes trivial rfl (goes (fun agent family hagent hfamily => ?_) rfl
      (goes trivial rfl (goes (fun agent family prompt hagent hfamily hstage => ?_) rfl
        (goes (fun agent hagent _ => ?_) rfl (goes (fun agent hagent _ => ?_) rfl
          (goes trivial rfl (goes trivial rfl ⟨_, .refl _⟩))))))))
    · cases hagent
      cases hfamily
      rfl
    · cases hagent
      cases hfamily
      cases hstage
      rfl
    · cases hagent
      rfl
    · cases hagent
      rfl
  obtain ⟨w, hsteps⟩ := hupheld
  exact ⟨w, hsteps.run_eq, (implementors_undisturbed_iff hsteps.run_eq).mpr hsteps⟩

/-- The implementor is left with the tools of its verifier, and with its conversation. -/
theorem implementors_disturbed :
    (∃ w, run (step thinkTags yaml) .start ([.newWithBackend (mainFamily getAllTools),
        .act .implementing (.withWorkingDirectory 0 "/tree"),
        .verify 1 getVerifierTools]) = some w ∧
      ¬ Undisturbed (step thinkTags yaml) seen Action.verifies .start
        ([.newWithBackend (mainFamily getAllTools),
          .act .implementing (.withWorkingDirectory 0 "/tree"),
          .verify 1 getVerifierTools])) ∧
    ∃ w, run (step thinkTags yaml) .start (.newWithBackend (mainFamily getVerifierTools) ::
        verification 0 getVerifierTools ++ [.act .verifying (.message 0 "Verify."),
          .act .verifying (.reply 0 (.streamed []) [])]) = some w ∧
      ¬ Undisturbed (step thinkTags yaml) seen Action.verifies .start
        (.newWithBackend (mainFamily getVerifierTools) ::
          verification 0 getVerifierTools ++ [.act .verifying (.message 0 "Verify."),
            .act .verifying (.reply 0 (.streamed []) [])]) := by
  refine ⟨⟨_, rfl, fun h => ?_⟩, ⟨_, rfl, fun h => ?_⟩⟩
  · obtain ⟨v, hv, hseen⟩ := h _ _ (prefix_refl _) rfl
    obtain rfl := some.inj hv
    have htools := congrArg (fun seen : List Family × Half => seen.1.map (·.tools)) hseen
    exact absurd htools (by decide)
  · obtain ⟨v, hv, hseen⟩ := h _ _ (prefix_refl _) rfl
    obtain rfl := some.inj hv
    have hconversations := congrArg (fun seen : List Family × Half =>
      seen.2.conversations.map (·.isSome)) hseen
    exact absurd hconversations (by decide)

end ColossalCode.Scoped
