import ColossalCode.Agent.Recorded
import ColossalCode.Runtime.Tasks
import Mathlib.Data.List.Perm.Basic
import Mathlib.Data.List.Perm.Subperm

/-! Turns that overlap: when the stored conversation has the history and all their messages. -/
namespace ColossalCode.Runtime
open List Task

open Transition
open ColossalCode.Agent (ThinkingTags Response Reply Message Conversation MessageContent
    TextMessageRole callMessages callTool readTurn)
open Scoped (Request Family firstRequest afterTools cancelled nextResult)

def messages (conversation : Option Request) : Conversation :=
  (conversation.map (·.messages)).getD []

def userEntry (userMessage : String) : Message :=
  [("role", .text "user"), ("content", .text userMessage)]

def isUserEntry (message : Message) : Bool :=
  match message.lookup "role" with
  | some (.text role) => role == "user"
  | _ => false

def countUsers (conversation : Conversation) : Nat := conversation.countP isUserEntry

/-- The user messages of commands, in their order. -/
def userMessages (commands : List Command) : List String :=
  commands.filterMap fun
    | .userInput userMessage => some userMessage
    | _ => none

def Command.isTurn : Command → Bool
  | .userInput _ | .cancel => true
  | _ => false

def Task.isMessage : Task → Bool
  | .message .. => true
  | _ => false

def Task.userMessage : Task → Option String
  | .message userMessage .. => some userMessage
  | _ => none

/-- What a call has taken out of the cell and not stored yet, with its message. -/
def Task.carried : Task → Option Conversation
  | .message userMessage (.taken conversation) _ =>
    some (messages conversation ++ [userEntry userMessage])
  | .message _ (.generating builder) _ => some builder.messages
  | .message _ (.storing request) _ => some request.messages
  | _ => none

/-- The message of a call that has taken the conversation. -/
def Task.takenUser : Task → Option String
  | .message _ .spawned _ | .message _ .reset _ => none
  | .message userMessage .. => some userMessage
  | _ => none

/-- The call has been sent a cancel request that it may still honour. -/
def Task.awaitsCancel : Task → Bool
  | .message _ .ended _ | .message _ (.storing _) _ => false
  | .message _ _ marked => marked
  | _ => false

def State.carried (s : State) : List Conversation := s.tasks.filterMap Task.carried

def State.takenUsers (s : State) : List String := s.tasks.filterMap takenUser

/-- The history and the messages of the calls that have taken the conversation. -/
def State.required (before : Option Request) (s : State) : Conversation :=
  messages before ++ s.takenUsers.map userEntry

/-- Every message of the history is stored, and so are the user messages of all turns. -/
def KeepsHistory (before : Option Request) (users : List String) (s : State) : Prop :=
  (messages before ++ users.map userEntry).Subperm (messages s.conversation)

/-- A cancel request stands until the call it was sent to has ended. -/
def CancelsStand (s : State) : Prop :=
  ∀ task ∈ s.tasks, task.awaitsCancel = true → s.cancelRequested = true

/-- A call starts when no other one has a cancel request to honour. -/
def Heedful (s : State) : Action → Prop
  | .start i => ∀ j task, j ≠ i → s.tasks[j]? = some task → task.awaitsCancel = false
  | _ => True

/-- A call takes the conversation when no other one has taken it and not ended, and is not refused
by the backend. -/
def Lossless (s : State) : Action → Prop
  | .take _ => s.carried = []
  | .reply _ _ (.refused _) _ => False
  | _ => True

def Orderly (s : State) (action : Action) : Prop := Heedful s action ∧ Lossless s action

section Requests

variable {tags : ThinkingTags} {failureYaml : String → String → String} {request : Request}
  {conversation : Option Request} {userMessage : String}

theorem countUsers_append (before added : Conversation) :
    countUsers (before ++ added) = countUsers before + countUsers added :=
  countP_append ..

theorem countUsers_users (users : List String) :
    countUsers (users.map userEntry) = users.length := by
  induction users with
  | nil => rfl
  | cons user users ih =>
    rw [map_cons, countUsers, countP_cons_of_pos (by rfl), length_cons]
    exact congrArg (· + 1) ih

theorem countUsers_callMessages (text : String) (call : Agent.ToolCallResponse) (result : String) :
    countUsers (callMessages text call result) = 0 := by
  simp [countUsers, callMessages, Conversation.addMessageWithToolCall, Conversation.addToolMessage,
    isUserEntry, TextMessageRole.toString]

theorem callTools_messages (failureYaml : String → String → String) (text : String)
    (calls : List Agent.ToolCallResponse) (p : Agent.Progress (List (Except String String))) :
    ∃ added, (calls.foldl (callTool nextResult failureYaml text) p).builder = p.builder ++ added ∧
      countUsers added = 0 := by
  induction calls generalizing p with
  | nil => exact ⟨[], (append_nil _).symm, rfl⟩
  | cons call calls ih =>
    obtain ⟨added, hbuilder, hcount⟩ := ih (callTool nextResult failureYaml text p call)
    refine ⟨callMessages text call
      (Agent.toolResult failureYaml call (nextResult p.world call).2) ++ added, ?_, ?_⟩
    · rw [foldl_cons, hbuilder, Agent.callTool_builder, append_assoc]
    · rw [countUsers_append, countUsers_callMessages, hcount]

/-- The conversation grows, and not by messages of the user. -/
def Grows (c c' : Conversation) : Prop := c.Subperm c' ∧ countUsers c' = countUsers c

theorem grows_append {c added : Conversation} (h : countUsers added = 0) : Grows c (c ++ added) := by
  refine ⟨(sublist_append_left c added).subperm, ?_⟩
  rw [countUsers_append, h, Nat.add_zero]

theorem grows_afterTools (responses : List Response) (results : List (Except String String)) :
    Grows request.messages (afterTools tags failureYaml request responses results).messages := by
  obtain ⟨added, hbuilder, hcount⟩ := callTools_messages failureYaml
    (String.ofList (readTurn tags responses).splitter.accumulatedContent)
    (readTurn tags responses).calls ⟨results, request.messages, []⟩
  rw [afterTools]
  dsimp only
  rw [hbuilder]
  exact grows_append hcount

theorem grows_cancelled (responses : List Response) :
    Grows request.messages (cancelled tags request responses).messages := by
  unfold cancelled
  dsimp only
  split
  · exact ⟨List.Subperm.refl _, rfl⟩
  · exact grows_append rfl

theorem grows_firstRequest (family : Family) :
    Grows (messages conversation ++ [userEntry userMessage])
      (firstRequest family conversation userMessage).messages := by
  cases conversation with
  | none => exact ⟨(sublist_cons_self _ _).subperm, rfl⟩
  | some request => exact ⟨List.Subperm.refl _, rfl⟩

end Requests

/-- What a list of tasks gives, one of them and the others. -/
theorem filterMap_eraseIdx {α β : Type} {xs : List α} {i : Nat} {x : α} (f : α → Option β)
    (h : xs[i]? = some x) :
    (xs.filterMap f).Perm ((f x).toList ++ (xs.eraseIdx i).filterMap f) := by
  obtain ⟨hi, rfl⟩ := List.getElem?_eq_some_iff.mp h
  have hperm := (getElem_cons_eraseIdx_perm hi).symm.filterMap f
  cases hx : f xs[i] with
  | none => rwa [filterMap_cons_none hx] at hperm
  | some a => rwa [filterMap_cons_some hx] at hperm

theorem filterMap_set {α β : Type} {xs : List α} {i : Nat} {x : α} (f : α → Option β)
    (h : xs[i]? = some x) (y : α) :
    ((xs.set i y).filterMap f).Perm ((f y).toList ++ (xs.eraseIdx i).filterMap f) := by
  obtain ⟨hi, rfl⟩ := List.getElem?_eq_some_iff.mp h
  have hperm := (set_perm_cons_eraseIdx hi y).filterMap f
  cases hy : f y with
  | none => rwa [filterMap_cons_none hy] at hperm
  | some b => rwa [filterMap_cons_some hy] at hperm

/-- What was carried is still carried, has grown, or has been stored. -/
inductive Carries (s t : State) : Prop
  | same (hconversation : t.conversation = s.conversation) (hcarried : t.carried.Perm s.carried)
      (husers : t.takenUsers.Perm s.takenUsers)
  | grow {c c' : Conversation} {others : List Conversation}
      (hconversation : t.conversation = s.conversation) (hgrows : Grows c c')
      (hbefore : s.carried.Perm (c :: others)) (hcarried : t.carried.Perm (c' :: others))
      (husers : t.takenUsers.Perm s.takenUsers)
  | store (hcarried : s.carried.Perm (messages t.conversation :: t.carried))
      (husers : t.takenUsers.Perm s.takenUsers)

/-- A call takes the conversation. -/
structure Takes (s t : State) (userMessage : String) : Prop where
  conversation : t.conversation = none
  carried : t.carried.Perm ((messages s.conversation ++ [userEntry userMessage]) :: s.carried)
  users : t.takenUsers.Perm (userMessage :: s.takenUsers)

/-- A call ends with an error, and what it has carried is gone. -/
structure Refuses (s t : State) (c : Conversation) : Prop where
  conversation : t.conversation = s.conversation
  carried : s.carried.Perm (c :: t.carried)
  users : t.takenUsers.Perm s.takenUsers

def Changes (s t : State) : Action → Prop
  | .take _ => ∃ userMessage, Takes s t userMessage
  | .reply _ _ (.refused _) _ => ∃ c, Refuses s t c
  | _ => Carries s t

/-- Only turns and cancels have been sent. -/
structure Turns (s : State) : Prop where
  commands : ∀ command ∈ s.commands, command.isTurn = true
  tasks : ∀ task ∈ s.tasks, task.isMessage = true

section Steps

variable {failureYaml : String → String → String} {s t : State} {i : Nat} {action : Action}

theorem mark_carried (tasks : List Task) :
    (tasks.map mark).filterMap carried = tasks.filterMap carried := by
  rw [filterMap_map]
  refine filterMap_congr fun task _ => ?_
  cases task with
  | message userMessage phase marked => cases phase <;> rfl
  | clear | inject | reload => rfl

theorem mark_takenUser (tasks : List Task) :
    (tasks.map mark).filterMap takenUser = tasks.filterMap takenUser := by
  rw [filterMap_map]
  refine filterMap_congr fun task _ => ?_
  cases task with
  | message userMessage phase marked => cases phase <;> rfl
  | clear | inject | reload => rfl

theorem receive_carries {command : Command} {commands : List Command}
    (hturn : command.isTurn = true) : Carries s (s.receive command commands) := by
  cases command with
  | userInput userMessage =>
    refine .same rfl (.of_eq ?_) (.of_eq ?_)
    · simp [State.carried, State.receive, Command.task, Task.carried]
    · simp [State.takenUsers, State.receive, Command.task, Task.takenUser]
  | cancel => exact .same rfl (.of_eq (mark_carried _)) (.of_eq (mark_takenUser _))
  | clearContext | injectContext | reloadModel => cases hturn

theorem carried_set {task : Task} (htask : s.tasks[i]? = some task) {task' : Task}
    (hnone : task.carried = none) :
    ((s.tasks.set i task').filterMap Task.carried).Perm (task'.carried.toList ++ s.carried) := by
  have hbefore := filterMap_eraseIdx Task.carried htask
  rw [hnone] at hbefore
  exact (filterMap_set Task.carried htask task').trans (hbefore.symm.append_left _)

/-- What a call has carried is no longer carried. -/
theorem carried_dropped {task task' : Task} {c : Conversation} (htask : s.tasks[i]? = some task)
    (hcarried : task.carried = some c) (hnone : task'.carried = none) :
    s.carried.Perm (c :: (s.tasks.set i task').filterMap Task.carried) := by
  have hafter := filterMap_set Task.carried htask task'
  have hbefore := filterMap_eraseIdx Task.carried htask
  rw [hnone] at hafter
  rw [hcarried] at hbefore
  exact hbefore.trans (hafter.symm.cons c)

theorem users_set {task : Task} (htask : s.tasks[i]? = some task) (task' : Task)
    (hsame : task'.takenUser = task.takenUser) :
    ((s.tasks.set i task').filterMap takenUser).Perm s.takenUsers := by
  have hafter := filterMap_set takenUser htask task'
  rw [hsame] at hafter
  exact hafter.trans (filterMap_eraseIdx takenUser htask).symm

theorem does_changes (hturns : Turns s) (h : Does failureYaml s action t) :
    Changes s t action := by
  have hmessage : ∀ {i : Nat} {task : Task}, s.tasks[i]? = some task → task.isMessage = true :=
    fun htask => hturns.tasks _ (mem_of_getElem? htask)
  cases h with
  | receive hcommands =>
    exact receive_carries (hturns.commands _ (hcommands ▸ mem_cons_self))
  | start htask => exact .same rfl (carried_set htask rfl) (users_set htask _ rfl)
  | take htask hfree =>
    refine ⟨_, rfl, carried_set htask rfl, ?_⟩
    exact (filterMap_set Task.takenUser htask _).trans
      ((filterMap_eraseIdx Task.takenUser htask).symm.append_left _)
  | build htask =>
    exact .grow rfl (grows_firstRequest s.family) (filterMap_eraseIdx Task.carried htask)
      (filterMap_set Task.carried htask _) (users_set htask _ rfl)
  | @reply i userMessage marked builder tags reply results phase htask hanswer =>
    cases reply with
    | refused error =>
      cases hanswer
      exact ⟨_, rfl, carried_dropped htask rfl rfl, users_set htask _ rfl⟩
    | streamed responses =>
      rw [answer] at hanswer
      split at hanswer
      · cases hanswer
        exact .grow rfl ⟨List.Subperm.refl _, rfl⟩ (filterMap_eraseIdx Task.carried htask)
          (filterMap_set Task.carried htask _) (users_set htask _ rfl)
      · split at hanswer
        · cases hanswer
          exact .grow rfl (grows_afterTools responses results)
            (filterMap_eraseIdx Task.carried htask) (filterMap_set Task.carried htask _)
            (users_set htask _ rfl)
        · cases hanswer
  | honour htask hcancel =>
    exact .grow rfl (grows_cancelled _) (filterMap_eraseIdx Task.carried htask)
      (filterMap_set Task.carried htask _) (users_set htask _ rfl)
  | store htask hfree =>
    exact .store (carried_dropped htask rfl rfl) (users_set htask _ rfl)
  | clear htask | render htask | inject htask | reload htask => cases hmessage htask

theorem Turns.step (h : Turns s) (hdoes : Does failureYaml s action t) : Turns t := by
  have hset : ∀ {i : Nat} {task : Task}, task.isMessage = true →
      ∀ other ∈ s.tasks.set i task, other.isMessage = true := by
    intro i task hmessage other hother
    rcases mem_or_eq_of_mem_set hother with hother | rfl
    · exact h.tasks other hother
    · exact hmessage
  have hmessage : ∀ {i : Nat} {task : Task}, s.tasks[i]? = some task → task.isMessage = true :=
    fun htask => h.tasks _ (mem_of_getElem? htask)
  cases hdoes with
  | @receive command commands hcommands =>
    obtain ⟨hturn, hrest⟩ := forall_mem_cons.mp (hcommands ▸ h.commands)
    cases command with
    | userInput userMessage =>
      refine ⟨hrest, fun task htask => ?_⟩
      rcases mem_append.mp htask with htask | htask
      · exact h.tasks task htask
      · exact (mem_singleton.mp htask) ▸ rfl
    | cancel =>
      refine ⟨hrest, fun task htask => ?_⟩
      obtain ⟨unmarked, hmem, rfl⟩ := mem_map.mp htask
      have hunmarked := h.tasks unmarked hmem
      cases unmarked with
      | message => rfl
      | clear | inject | reload => cases hunmarked
    | clearContext | injectContext | reloadModel => cases hturn
  | start | take | build | reply | honour | store => exact ⟨h.commands, hset rfl⟩
  | clear htask | render htask | inject htask | reload htask => cases hmessage htask

end Steps

section Loss

variable {before : Option Request} {s t : State} {action : Action} {missing : Nat}

/-- Nowhere are more messages of the user than the history and the turns so far have, less some that
are missing. -/
structure Lacks (missing : Nat) (before : Option Request) (s : State) : Prop where
  stored : countUsers (messages s.conversation) + missing ≤
    countUsers (messages before) + s.takenUsers.length
  carried : ∀ c ∈ s.carried, countUsers c + missing ≤
    countUsers (messages before) + s.takenUsers.length

/-- All that is required is stored, or one call carries it. -/
def Intact (before : Option Request) (s : State) : Prop :=
  (s.carried = [] ∧ (s.required before).Subperm (messages s.conversation)) ∨
  ∃ c, s.carried = [c] ∧ s.conversation = none ∧ (s.required before).Subperm c

theorem countUsers_required (before : Option Request) (s : State) :
    countUsers (s.required before) = countUsers (messages before) + s.takenUsers.length := by
  rw [State.required, countUsers_append, countUsers_users]

theorem required_perm {users : List String} (h : t.takenUsers.Perm users) :
    (t.required before).Perm (messages before ++ users.map userEntry) :=
  (h.map userEntry).append_left _

theorem Intact.not_lacks (h : Intact before s) : ¬ Lacks 1 before s := by
  intro hlacks
  rcases h with ⟨-, hstored⟩ | ⟨c, hcarried, -, hrequired⟩
  · have hcount := hstored.countP_le isUserEntry
    have hless := hlacks.stored
    rw [← countUsers_required] at hless
    exact absurd (Nat.lt_of_succ_le hless) (Nat.not_lt.mpr hcount)
  · have hcount := hrequired.countP_le isUserEntry
    have hless := hlacks.carried c (hcarried ▸ mem_singleton_self c)
    rw [← countUsers_required] at hless
    exact absurd (Nat.lt_of_succ_le hless) (Nat.not_lt.mpr hcount)

/-- Nothing that is missing comes back. -/
theorem Lacks.step (h : Lacks missing before s) (hchanges : Changes s t action) :
    Lacks missing before t := by
  have hcarries : Carries s t → Lacks missing before t := by
    intro hcarries
    cases hcarries with
    | same hconversation hcarried husers =>
      refine ⟨?_, fun c hc => ?_⟩
      · rw [hconversation, husers.length_eq]
        exact h.stored
      · rw [husers.length_eq]
        exact h.carried c (hcarried.mem_iff.mp hc)
    | @grow c c' others hconversation hgrows hbefore hcarried husers =>
      refine ⟨?_, fun d hd => ?_⟩
      · rw [hconversation, husers.length_eq]
        exact h.stored
      · rw [husers.length_eq]
        rcases mem_cons.mp (hcarried.mem_iff.mp hd) with rfl | hd
        · rw [hgrows.2]
          exact h.carried c (hbefore.mem_iff.mpr mem_cons_self)
        · exact h.carried d (hbefore.mem_iff.mpr (mem_cons_of_mem c hd))
    | store hcarried husers =>
      refine ⟨?_, fun c hc => ?_⟩
      · rw [husers.length_eq]
        exact h.carried _ (hcarried.mem_iff.mpr mem_cons_self)
      · rw [husers.length_eq]
        exact h.carried c (hcarried.mem_iff.mpr (mem_cons_of_mem _ hc))
  unfold Changes at hchanges
  split at hchanges
  · obtain ⟨userMessage, htakes⟩ := hchanges
    have husers := htakes.users.length_eq
    have hstored := h.stored
    rw [length_cons] at husers
    refine ⟨?_, fun c hc => ?_⟩
    · rw [htakes.conversation, husers]
      have hnone : countUsers (messages none) = 0 := rfl
      omega
    · rw [husers]
      rcases mem_cons.mp (htakes.carried.mem_iff.mp hc) with rfl | hc
      · rw [countUsers_append]
        have hone : countUsers [userEntry userMessage] = 1 := rfl
        omega
      · have hmember := h.carried c hc
        omega
  · obtain ⟨c, hrefuses⟩ := hchanges
    refine ⟨?_, fun d hd => ?_⟩
    · rw [hrefuses.conversation, hrefuses.users.length_eq]
      exact h.stored
    · rw [hrefuses.users.length_eq]
      exact h.carried d (hrefuses.carried.mem_iff.mpr (mem_cons_of_mem c hd))
  · exact hcarries hchanges

/-- What is carried has been taken by a call. -/
theorem few_step (h : s.carried.length ≤ s.takenUsers.length) (hchanges : Changes s t action) :
    t.carried.length ≤ t.takenUsers.length := by
  have hcarries : Carries s t → t.carried.length ≤ t.takenUsers.length := by
    intro hcarries
    cases hcarries with
    | same hconversation hcarried husers =>
      rwa [hcarried.length_eq, husers.length_eq]
    | grow hconversation hgrows hbefore hcarried husers =>
      rw [hcarried.length_eq, husers.length_eq]
      rwa [hbefore.length_eq] at h
    | store hcarried husers =>
      have hlength := hcarried.length_eq
      rw [length_cons] at hlength
      rw [husers.length_eq]
      omega
  unfold Changes at hchanges
  split at hchanges
  · obtain ⟨userMessage, htakes⟩ := hchanges
    rw [htakes.carried.length_eq, htakes.users.length_eq, length_cons, length_cons]
    omega
  · obtain ⟨c, hrefuses⟩ := hchanges
    have hlength := hrefuses.carried.length_eq
    rw [length_cons] at hlength
    rw [hrefuses.users.length_eq]
    omega
  · exact hcarries hchanges

theorem Intact.carries (h : Intact before s) (hcarries : Carries s t) : Intact before t := by
  have hrequired : t.takenUsers.Perm s.takenUsers → (t.required before).Perm (s.required before) :=
    fun husers => required_perm husers
  cases hcarries with
  | same hconversation hcarried husers =>
    rcases h with ⟨hnone, hstored⟩ | ⟨c, hone, hconv, hin⟩
    · refine .inl ⟨?_, ?_⟩
      · rw [hnone] at hcarried
        exact hcarried.eq_nil
      · rw [hconversation]
        exact (hrequired husers).subperm.trans hstored
    · rw [hone] at hcarried
      exact .inr ⟨c, hcarried.eq_singleton, hconversation.trans hconv,
        (hrequired husers).subperm.trans hin⟩
  | @grow c c' others hconversation hgrows hbefore hcarried husers =>
    rcases h with ⟨hnone, hstored⟩ | ⟨d, hone, hconv, hin⟩
    · rw [hnone] at hbefore
      exact absurd hbefore.symm.eq_nil (cons_ne_nil c others)
    · rw [hone] at hbefore
      obtain ⟨rfl, rfl⟩ := List.cons.inj hbefore.symm.eq_singleton
      exact .inr ⟨c', hcarried.eq_singleton, hconversation.trans hconv,
        (hrequired husers).subperm.trans (hin.trans hgrows.1)⟩
  | store hcarried husers =>
    rcases h with ⟨hnone, hstored⟩ | ⟨c, hone, hconv, hin⟩
    · rw [hnone] at hcarried
      exact absurd hcarried.symm.eq_nil (cons_ne_nil _ _)
    · rw [hone] at hcarried
      obtain ⟨hsame, hnone⟩ := List.cons.inj hcarried.symm.eq_singleton
      exact .inl ⟨hnone, hsame ▸ (hrequired husers).subperm.trans hin⟩

/-- A step loses something exactly when another call has taken the conversation, or the call is
refused. -/
theorem Intact.step (h : Intact before s) (hlacks : Lacks 0 before s)
    (hfew : s.carried.length ≤ s.takenUsers.length) (hchanges : Changes s t action) :
    Intact before t ∧ Lossless s action ∨ Lacks 1 before t ∧ ¬ Lossless s action := by
  unfold Changes at hchanges
  split at hchanges
  · obtain ⟨userMessage, htakes⟩ := hchanges
    have hrequired : (t.required before).Perm (s.required before ++ [userEntry userMessage]) := by
      refine (required_perm htakes.users).trans ?_
      rw [State.required, append_assoc]
      exact (perm_append_singleton _ _).symm.append_left _
    rcases h with ⟨hnone, hstored⟩ | ⟨c, hone, hconv, hin⟩
    · refine .inl ⟨.inr ⟨messages s.conversation ++ [userEntry userMessage], ?_,
        htakes.conversation, ?_⟩, hnone⟩
      · have hcarried := htakes.carried
        rw [hnone] at hcarried
        exact hcarried.eq_singleton
      · exact hrequired.subperm.trans ((subperm_append_right _).mpr hstored)
    · refine .inr ⟨?_, fun hempty => cons_ne_nil c [] (hone.symm.trans hempty)⟩
      have husers := htakes.users.length_eq
      rw [hone] at hfew
      rw [length_cons] at husers hfew
      refine ⟨?_, fun d hd => ?_⟩
      · rw [htakes.conversation, husers]
        have hnone : countUsers (messages none) = 0 := rfl
        omega
      · rw [husers]
        rcases mem_cons.mp (htakes.carried.mem_iff.mp hd) with rfl | hd
        · rw [hconv]
          have hone : countUsers (messages none ++ [userEntry userMessage]) = 1 := rfl
          omega
        · have hmember := hlacks.carried d hd
          omega
  · obtain ⟨c, hrefuses⟩ := hchanges
    refine .inr ⟨?_, id⟩
    rcases h with ⟨hnone, hstored⟩ | ⟨d, hone, hconv, hin⟩
    · have hcarried := hrefuses.carried
      rw [hnone] at hcarried
      exact absurd hcarried.symm.eq_nil (cons_ne_nil _ _)
    · have hcarried := hrefuses.carried
      rw [hone] at hcarried
      obtain ⟨-, hnone⟩ := List.cons.inj hcarried.symm.eq_singleton
      rw [hone, length_singleton] at hfew
      refine ⟨?_, fun e he => ?_⟩
      · rw [hrefuses.conversation, hconv, hrefuses.users.length_eq]
        have hzero : countUsers (messages none) = 0 := rfl
        omega
      · rw [hnone] at he
        cases he
  · refine .inl ⟨h.carries hchanges, ?_⟩
    rename_i htake hrefused
    cases action with
    | take i => exact (htake i rfl).elim
    | reply i tags reply results =>
      cases reply with
      | refused error => exact (hrefused i tags error results rfl).elim
      | streamed responses => trivial
    | receive | start | build | honour | store | clear | render | inject | reload => trivial

end Loss

section Cancel

variable {failureYaml : String → String → String} {s t : State} {action : Action}

/-- A step that leaves the cancel flag alone, and no call with more to honour. -/
theorem stand_set (h : CancelsStand s) {i : Nat} {task task' : Task}
    (htask : s.tasks[i]? = some task) (hflag : t.cancelRequested = s.cancelRequested)
    (htasks : t.tasks = s.tasks.set i task')
    (hless : task'.awaitsCancel = true → task.awaitsCancel = true) : CancelsStand t := by
  intro other hother hawaits
  rw [hflag]
  rw [htasks] at hother
  rcases mem_or_eq_of_mem_set hother with hother | rfl
  · exact h other hother hawaits
  · exact h task (mem_of_getElem? htask) (hless hawaits)

theorem stand_step_iff (h : CancelsStand s) (hdoes : Does failureYaml s action t) :
    CancelsStand t ↔ Heedful s action := by
  cases hdoes with
  | @receive command commands hcommands =>
    refine iff_of_true ?_ trivial
    have happend : ∀ task : Task, task.awaitsCancel = false →
        CancelsStand { s with commands, tasks := s.tasks ++ [task] } := by
      intro task hnot other hother hawaits
      rcases mem_append.mp hother with hother | hother
      · exact h other hother hawaits
      · rw [mem_singleton.mp hother, hnot] at hawaits
        cases hawaits
    cases command with
    | cancel => exact fun _ _ _ => rfl
    | userInput | clearContext | injectContext | reloadModel => exact happend _ rfl
  | @start i userMessage marked htask =>
    obtain ⟨hi, -⟩ := List.getElem?_eq_some_iff.mp htask
    constructor
    · intro hstand j other hj hother
      have hset : (s.tasks.set i (.message userMessage .reset false))[j]? = some other := by
        rw [List.getElem?_set_ne (Ne.symm hj), hother]
      cases hawaits : other.awaitsCancel with
      | false => rfl
      | true => cases hstand other (mem_of_getElem? hset) hawaits
    · intro hheed other hother hawaits
      obtain ⟨j, hj⟩ := mem_iff_getElem?.mp hother
      by_cases hij : j = i
      · subst hij
        have hself : (s.tasks.set j (.message userMessage .reset false))[j]? = some other := hj
        rw [List.getElem?_set_self hi] at hself
        cases hself
        cases hawaits
      · have hset : (s.tasks.set i (.message userMessage .reset false))[j]? = some other := hj
        rw [List.getElem?_set_ne (Ne.symm hij)] at hset
        rw [hheed j other hij hset] at hawaits
        cases hawaits
  | take htask hfree => exact iff_of_true (stand_set h htask rfl rfl id) trivial
  | build htask => exact iff_of_true (stand_set h htask rfl rfl id) trivial
  | @reply i userMessage marked builder tags reply results phase htask hanswer =>
    refine iff_of_true (stand_set h htask rfl rfl fun hawaits => ?_) trivial
    cases phase with
    | ended | storing => cases hawaits
    | spawned | reset | taken | generating => exact hawaits
  | honour htask hcancel =>
    exact iff_of_true (stand_set h htask rfl rfl fun hawaits => by cases hawaits) trivial
  | store htask hfree =>
    exact iff_of_true (stand_set h htask rfl rfl fun hawaits => by cases hawaits) trivial
  | clear htask hfree => exact iff_of_true (stand_set h htask rfl rfl id) trivial
  | render htask => exact iff_of_true (stand_set h htask rfl rfl id) trivial
  | inject htask hfree => exact iff_of_true (stand_set h htask rfl rfl id) trivial
  | reload htask => exact iff_of_true (stand_set h htask rfl rfl id) trivial

end Cancel

section Runs

variable {failureYaml : String → String → String} {s t : State} {action : Action}
  {before : Option Request} {users : List String}

/-- The messages of the calls, and those that are still to come. -/
def Sent (users : List String) (s : State) : Prop :=
  (s.tasks.filterMap userMessage ++ userMessages s.commands).Perm users

theorem Sent.step (h : Sent users s) (hdoes : Does failureYaml s action t) : Sent users t := by
  have hset : ∀ {i : Nat} {task task' : Task} {u : State}, s.tasks[i]? = some task →
      u.tasks = s.tasks.set i task' → u.commands = s.commands →
      task'.userMessage = task.userMessage → Sent users u := by
    intro i task task' u htask htasks hcommands hsame
    have hafter := filterMap_set Task.userMessage htask task'
    rw [hsame] at hafter
    have hperm := hafter.trans (filterMap_eraseIdx Task.userMessage htask).symm
    rw [Sent, htasks, hcommands]
    exact (hperm.append_right _).trans h
  cases hdoes with
  | @receive command commands hcommands =>
    rw [Sent, hcommands] at h
    cases command with
    | userInput userMessage =>
      have hlist : (s.tasks ++ [Task.message userMessage .spawned false]).filterMap
          Task.userMessage = s.tasks.filterMap Task.userMessage ++ [userMessage] := by
        rw [filterMap_append]
        rfl
      have hafter : (s.receive (.userInput userMessage) commands).tasks.filterMap
          Task.userMessage = s.tasks.filterMap Task.userMessage ++ [userMessage] := hlist
      rw [Sent, hafter, append_assoc]
      exact h
    | cancel =>
      have hmark : (s.tasks.map Task.mark).filterMap Task.userMessage =
          s.tasks.filterMap Task.userMessage := by
        rw [filterMap_map]
        exact filterMap_congr fun task _ => by cases task <;> rfl
      have hafter : (s.receive .cancel commands).tasks.filterMap Task.userMessage =
          s.tasks.filterMap Task.userMessage := hmark
      rw [Sent, hafter]
      exact h
    | clearContext | injectContext | reloadModel =>
      rw [Sent, State.receive, Command.task]
      dsimp only
      rw [filterMap_append, append_assoc]
      exact h
  | start htask => exact hset htask rfl rfl rfl
  | take htask hfree => exact hset htask rfl rfl rfl
  | build htask => exact hset htask rfl rfl rfl
  | reply htask hanswer => exact hset htask rfl rfl rfl
  | honour htask hcancel => exact hset htask rfl rfl rfl
  | store htask hfree => exact hset htask rfl rfl rfl
  | clear htask hfree => exact hset htask rfl rfl rfl
  | render htask => exact hset htask rfl rfl rfl
  | inject htask hfree => exact hset htask rfl rfl rfl
  | reload htask => exact hset htask rfl rfl rfl

structure Kept (before : Option Request) (users : List String) (s : State) : Prop where
  turns : Turns s
  sent : Sent users s
  lacks : Lacks 0 before s
  few : s.carried.length ≤ s.takenUsers.length
  lost : Intact before s ∨ Lacks 1 before s

theorem Kept.step (h : Kept before users s) (hdoes : Does failureYaml s action t) :
    Kept before users t := by
  have hchanges := does_changes h.turns hdoes
  refine ⟨h.turns.step hdoes, h.sent.step hdoes, h.lacks.step hchanges, few_step h.few hchanges, ?_⟩
  rcases h.lost with hintact | hlacks
  · exact (hintact.step h.lacks h.few hchanges).imp And.left And.left
  · exact .inr (hlacks.step hchanges)

theorem Kept.intact (h : Kept before users s) (hnot : ¬ Lacks 1 before s) : Intact before s :=
  h.lost.resolve_right hnot

theorem start_kept (family : Family) (before : Option Request) {commands : List Command}
    (hturns : ∀ command ∈ commands, command.isTurn = true) :
    Kept before (userMessages commands) (start family before commands) := by
  have hrequired : (start family before commands).required before = messages before :=
    append_nil _
  refine ⟨⟨hturns, fun task htask => absurd htask not_mem_nil⟩, .refl _, ⟨Nat.le_refl _, ?_⟩,
    Nat.le_refl 0, .inl (.inl ⟨rfl, ?_⟩)⟩
  · exact fun c hc => absurd hc not_mem_nil
  · rw [hrequired]
    exact List.Subperm.refl _

/-- At the end everything is there unless something is missing. -/
theorem Kept.keepsHistory_iff (h : Kept before users t) (hended : t.Ended) :
    KeepsHistory before users t ↔ ¬ Lacks 1 before t := by
  have htaken : t.takenUsers = t.tasks.filterMap userMessage := by
    refine filterMap_congr fun task htask => ?_
    have hmessage := h.turns.tasks task htask
    have hdone := hended.2 task htask
    cases task with
    | message userMessage phase marked =>
      cases phase with
      | ended => rfl
      | spawned | reset | taken | generating | storing => cases hdone
    | clear | inject | reload => cases hmessage
  have husers : t.takenUsers.Perm users := by
    have hsent := h.sent
    rw [Sent, hended.1] at hsent
    rw [htaken]
    exact (append_nil (t.tasks.filterMap userMessage)) ▸ hsent
  have hcarried : t.carried = [] := by
    rw [State.carried, filterMap_eq_nil_iff]
    intro task htask
    have hdone := hended.2 task htask
    cases task with
    | message userMessage phase marked =>
      cases phase with
      | ended => rfl
      | spawned | reset | taken | generating | storing => cases hdone
    | clear | inject | reload => rfl
  constructor
  · intro hkeeps hlacks
    have hcount := hkeeps.countP_le isUserEntry
    have hsame : countUsers (messages before ++ users.map userEntry) =
        countUsers (messages before) + users.length := by
      rw [countUsers_append, countUsers_users]
    have hless := hlacks.stored
    rw [husers.length_eq, ← hsame] at hless
    exact absurd (Nat.lt_of_succ_le hless) (Nat.not_lt.mpr hcount)
  · intro hnot
    rcases h.intact hnot with ⟨-, hstored⟩ | ⟨c, hone, -, -⟩
    · exact (required_perm husers).symm.subperm.trans hstored
    · rw [hcarried] at hone
      cases hone

/-- After any turns and cancels, whatever their order, the stored conversation has the history and
every message of the user, and each cancel request has stood until its call had ended, if and only
if the calls were orderly. -/
theorem overlapping_turns_iff {family : Family} {commands : List Command} {actions : List Action}
    (hturns : ∀ command ∈ commands, command.isTurn = true)
    (hrun : run (step failureYaml) (start family before commands) actions = some t)
    (hended : t.Ended) :
    (KeepsHistory before (userMessages commands) t ∧
      Throughout (step failureYaml) CancelsStand (start family before commands) actions) ↔
    Steps (step failureYaml) Orderly (start family before commands) actions t := by
  have hkept := start_kept family before hturns
  have hstart : CancelsStand (start family before commands) ∧
      ¬ Lacks 1 before (start family before commands) := by
    refine ⟨fun task htask => absurd htask not_mem_nil, Intact.not_lacks (.inl ⟨rfl, ?_⟩)⟩
    exact (append_nil (messages before)) ▸ List.Subperm.refl _
  have hend : Kept before (userMessages commands) t :=
    run_invariant hrun (fun s a u hs hk => hk.step (does_of_step hs)) hkept
  rw [hend.keepsHistory_iff hended]
  have hthroughout : Throughout (step failureYaml) (fun s => CancelsStand s ∧ ¬ Lacks 1 before s)
      (start family before commands) actions ↔
      Steps (step failureYaml) Orderly (start family before commands) actions t :=
    throughout_iff_steps (I := Kept before (userMessages commands))
      (fun s a u hs hk => hk.step (does_of_step hs))
      (fun s a u hk hs hsound => ?_) hrun hkept hstart
  · rw [← hthroughout]
    constructor
    · rintro ⟨hnot, hstand⟩ pre u hpre hu
      refine ⟨hstand pre u hpre hu, fun hlacks => hnot ?_⟩
      obtain ⟨rest, rfl⟩ := hpre
      obtain ⟨v, hv, hrest⟩ := run_append_eq_some.mp hrun
      obtain rfl := Option.some.inj (hu.symm.trans hv)
      have hu : Kept before (userMessages commands) u :=
        run_invariant hv (fun s a u hs hk => hk.step (does_of_step hs)) hkept
      have hboth : Turns t ∧ Lacks 1 before t :=
        run_invariant hrest (P := fun s => Turns s ∧ Lacks 1 before s) (fun s a u hs h =>
          ⟨h.1.step (does_of_step hs), h.2.step (does_changes h.1 (does_of_step hs))⟩)
          ⟨hu.turns, hlacks⟩
      exact hboth.2
    · intro hall
      exact ⟨(hall actions t prefix_rfl hrun).2, fun pre u hpre hu => (hall pre u hpre hu).1⟩
  · have hdoes := does_of_step hs
    refine and_congr (stand_step_iff hsound.1 hdoes) ?_
    rcases (hk.intact hsound.2).step hk.lacks hk.few (does_changes hk.turns hdoes) with
      ⟨hintact, hlossless⟩ | ⟨hlacks, hlossy⟩
    · exact iff_of_true hintact.not_lacks hlossless
    · exact iff_of_false (not_not.mpr hlacks) hlossy

end Runs

def thinkTags : ThinkingTags := ⟨"<think>".toList, "</think>".toList⟩

def yaml (message tool : String) : String := message ++ tool

def helper : Family := ⟨[], "You help.", ⟨.yolo, false, true⟩, "nite"⟩

def greeted : Option Request := some ⟨[userEntry "hello"], []⟩

/-- A call of a turn that is answered without tool calls. -/
def answered (i : Nat) : List Action :=
  [.start i, .take i, .build i, .reply i thinkTags (.streamed []) [], .store i]

theorem overlapping_turns_apart : ∃ t,
    run (step yaml) (start helper greeted [.userInput "one", .userInput "two"])
      (.receive :: answered 0 ++ .receive :: answered 1) = some t ∧
    KeepsHistory greeted ["one", "two"] t := by
  have hrun : run (step yaml) (start helper greeted [.userInput "one", .userInput "two"])
      (.receive :: answered 0 ++ .receive :: answered 1) = some _ := rfl
  refine ⟨_, hrun, ((overlapping_turns_iff ?_ hrun ?_).mpr ?_).1⟩
  · intro command hcommand
    rcases mem_cons.mp hcommand with rfl | hcommand
    · rfl
    · exact (mem_singleton.mp hcommand) ▸ rfl
  · refine ⟨rfl, fun task htask => ?_⟩
    rcases mem_cons.mp htask with rfl | htask
    · rfl
    · exact (mem_singleton.mp htask) ▸ rfl
  · have hfree : ∀ (s : State) (i : Nat), (∀ task ∈ s.tasks, task.awaitsCancel = false) →
        Orderly s (.start i) := fun s i hnone =>
      ⟨fun j task _ htask => hnone task (mem_of_getElem? htask), trivial⟩
    refine .head ⟨trivial, trivial⟩ rfl (.head (hfree _ _ fun task htask => ?_) rfl
      (.head ⟨trivial, rfl⟩ rfl (.head ⟨trivial, trivial⟩ rfl (.head ⟨trivial, trivial⟩ rfl
        (.head ⟨trivial, trivial⟩ rfl (.head ⟨trivial, trivial⟩ rfl
          (.head (hfree _ _ fun task htask => ?_) rfl (.head ⟨trivial, rfl⟩ rfl
            (.head ⟨trivial, trivial⟩ rfl (.head ⟨trivial, trivial⟩ rfl
              (.head ⟨trivial, trivial⟩ rfl (.refl _))))))))))))
    · exact (mem_singleton.mp htask) ▸ rfl
    · rcases mem_cons.mp htask with rfl | htask
      · rfl
      · exact (mem_singleton.mp htask) ▸ rfl

/-- The second turn starts before the first has ended: it takes away the cancel request and finds no
conversation, and what the first has stored is replaced. -/
theorem overlapping_turns_lost :
    (∃ t, run (step yaml) (start helper greeted [.userInput "one", .userInput "two"])
      ([.receive, .start 0, .take 0, .build 0, .receive, .start 1, .take 1, .build 1,
        .reply 0 thinkTags (.streamed []) [], .store 0,
        .reply 1 thinkTags (.streamed []) [], .store 1]) = some t ∧ t.Ended ∧
      ¬ KeepsHistory greeted ["one", "two"] t) ∧
    ¬ Throughout (step yaml) CancelsStand
      (start helper greeted [.userInput "one", .cancel, .userInput "two"])
      [.receive, .start 0, .take 0, .build 0, .receive, .receive, .start 1] := by
  refine ⟨⟨_, rfl, ⟨rfl, fun task htask => ?_⟩, fun hkeeps => ?_⟩, fun hstand => ?_⟩
  · rcases mem_cons.mp htask with rfl | htask
    · rfl
    · exact (mem_singleton.mp htask) ▸ rfl
  · exact absurd hkeeps.length_le (by decide)
  · cases hstand _ _ prefix_rfl rfl _ mem_cons_self rfl

end ColossalCode.Runtime
