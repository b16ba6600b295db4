import ColossalCode.Runtime.Tasks

/-! A conversation that is cleared and replaced by its summary, while other tasks are under way. -/
namespace ColossalCode.Runtime
open List Option Command State Task

open Transition
open ColossalCode.Agent (ThinkingTags Response Reply readTurn)
open Scoped (Request Family firstRequest)

/-- The commands end with a clear and an injection. -/
def replaced (commands : List Command) (summary : String) : List Command :=
  commands ++ [.clearContext, .injectContext summary]

/-- The task of the injection comes after that of the clear. -/
def lastTask (commands : List Command) : Nat := (commands.filterMap task).length + 1

/-- The conversation is the summary, as that task has written it. -/
def HasInjected (last : Nat) (summary : String) (s : State) : Prop :=
  s.writer = some last ∧ ∃ systemPrompt,
    s.conversation = some (injectSummaryContext { s.family with systemPrompt } summary)

/-- What an injection has written. -/
def Task.written : Task → Option Request
  | .inject _ rendered true => rendered
  | _ => none

def Injected (last : Nat) (s : State) : Prop := ((s.tasks[last]?).bind written).isSome = true

/-- The task has the conversation still to take, to clear or to write. -/
def Task.owes : Task → Bool
  | .message _ .spawned _ | .message _ .reset _ | .message _ (.storing _) _ => true
  | .clear ended | .inject _ _ ended => !ended
  | _ => false

def OthersSettled (last : Nat) (s : State) : Prop :=
  ∀ j task, j ≠ last → s.tasks[j]? = some task → task.owes = false

/-- The injection is written when no other task has to touch the conversation any more; a generation
that is in flight then is refused in the end, and is neither cancelled nor completed. -/
def Settles (last : Nat) (s : State) : Action → Prop
  | .inject i => i = last → OthersSettled last s
  | .honour .. => ¬ Injected last s
  | .reply _ tags (.streamed responses) _ =>
    Injected last s → (readTurn tags responses).calls ≠ []
  | _ => True

def Task.summary : Task → Option String
  | .inject summary _ _ => some summary
  | _ => none

/-- What is injected is a summary with the system prompt of its time. -/
def Task.Rendered (family : Family) : Task → Prop
  | .inject _ none ended => ended = false
  | .inject summary (some request) _ =>
    ∃ systemPrompt, request = injectSummaryContext { family with systemPrompt } summary
  | _ => True

section Kept

variable {failureYaml : String → String → String} {last : Nat} {summary : String} {s t : State}
  {action : Action}

structure Waits (last : Nat) (summary : String) (s : State) : Prop where
  count : s.tasks.length + (s.commands.filterMap Command.task).length = last + 1
  here : ((s.tasks ++ s.commands.filterMap Command.task)[last]?).bind Task.summary = some summary
  locks : ∀ j task, s.tasks[j]? = some task → task.locks = true → s.writer = some j
  rendered : ∀ task ∈ s.tasks, task.Rendered s.family
  written : ∀ request, (s.tasks[last]?).bind Task.written = some request →
    s.writer = some last → s.conversation = some request

/-- No other task has to touch a conversation that has been injected. -/
def Stays (last : Nat) (s : State) : Prop :=
  Injected last s → s.writer = some last ∧ OthersSettled last s

theorem mark_same (task : Task) : task.mark.owes = task.owes ∧ task.mark.locks = task.locks ∧
    task.mark.summary = task.summary ∧ task.mark.written = task.written ∧
    ∀ family, task.mark.Rendered family ↔ task.Rendered family := by
  cases task with
  | message userMessage phase marked => cases phase <;> exact ⟨rfl, rfl, rfl, rfl, fun _ => Iff.rfl⟩
  | clear | inject | reload => exact ⟨rfl, rfl, rfl, rfl, fun _ => Iff.rfl⟩

theorem rendered_reload {task : Task} {family : Family} (systemPrompt : String)
    (h : task.Rendered family) : task.Rendered { family with systemPrompt } := by
  cases task with
  | inject other rendered ended => cases rendered <;> exact h
  | message | clear | reload => trivial

theorem receive_waits {command : Command} {commands : List Command}
    (h : Waits last summary s) (hcommands : s.commands = command :: commands) :
    Waits last summary (s.receive command commands) := by
  obtain ⟨hcount, hhere, hlocks, hrendered, hwritten⟩ := h
  rw [hcommands] at hcount hhere
  cases htask : command.task with
  | none =>
    rw [filterMap_cons_none htask] at hcount hhere
    rw [receive, htask]
    dsimp only
    refine ⟨?_, ?_, fun j task hj hlock => ?_, fun task hmem => ?_, fun request hrequest => ?_⟩
    · rwa [length_map]
    · rw [getElem?_append, length_map]
      rw [getElem?_append] at hhere
      split at hhere
      · rename_i hlt
        rw [if_pos hlt, getElem?_map]
        rw [← hhere]
        cases s.tasks[last]? with
        | none => rfl
        | some task => exact (mark_same task).2.2.1
      · rename_i hlt
        rwa [if_neg hlt]
    · rw [getElem?_map] at hj
      obtain ⟨unmarked, hunmarked, rfl⟩ := map_eq_some_iff.mp hj
      exact hlocks j unmarked hunmarked ((mark_same unmarked).2.1 ▸ hlock)
    · obtain ⟨unmarked, hunmarked, rfl⟩ := mem_map.mp hmem
      exact ((mark_same unmarked).2.2.2.2 _).mpr (hrendered unmarked hunmarked)
    · rw [getElem?_map] at hrequest
      refine hwritten request ?_
      rw [← hrequest]
      cases s.tasks[last]? with
      | none => rfl
      | some task => exact (mark_same task).2.2.2.1.symm
  | some task =>
    have hnew : task.locks = false ∧ task.Rendered s.family ∧ task.written = none := by
      cases command with
      | userInput | clearContext | reloadModel => cases htask; exact ⟨rfl, trivial, rfl⟩
      | injectContext => cases htask; exact ⟨rfl, rfl, rfl⟩
      | cancel => cases htask
    rw [filterMap_cons_some htask] at hcount hhere
    rw [receive, htask]
    dsimp only
    refine ⟨?_, ?_, fun j other hj hlock => ?_, fun other hmem => ?_, fun request hrequest => ?_⟩
    · dsimp only
      rw [length_append, length_singleton]
      rw [length_cons] at hcount
      omega
    · rwa [append_assoc]
    · rw [getElem?_append] at hj
      split at hj
      · exact hlocks j other hj hlock
      · rw [mem_singleton.mp (mem_of_getElem? hj), hnew.1] at hlock
        cases hlock
    · rcases mem_append.mp hmem with hmem | hmem
      · exact hrendered other hmem
      · exact (mem_singleton.mp hmem) ▸ hnew.2.1
    · rw [getElem?_append] at hrequest
      split at hrequest
      · exact hwritten request hrequest
      · obtain ⟨other, hother, hwrote⟩ := bind_eq_some_iff.mp hrequest
        rw [mem_singleton.mp (mem_of_getElem? hother), hnew.2.2] at hwrote
        cases hwrote

variable {task task' : Task}

/-- A task is replaced by its next state. -/
theorem Waits.set (h : Waits last summary s) {i : Nat}
    (htask : s.tasks[i]? = some task) (htasks : t.tasks = s.tasks.set i task')
    (hcommands : t.commands = s.commands) (hsummary : task'.summary = task.summary)
    (hlocks : ∀ j other, t.tasks[j]? = some other → other.locks = true → t.writer = some j)
    (hrendered : ∀ other ∈ t.tasks, other.Rendered t.family)
    (hwritten : ∀ request, (t.tasks[last]?).bind Task.written = some request →
      t.writer = some last → t.conversation = some request) : Waits last summary t := by
  obtain ⟨hi, -⟩ := List.getElem?_eq_some_iff.mp htask
  refine ⟨?_, ?_, hlocks, hrendered, hwritten⟩
  · rw [htasks, hcommands, length_set]
    exact h.count
  · have hhere := h.here
    rw [htasks, hcommands, List.getElem?_append, length_set]
    rw [List.getElem?_append] at hhere
    split at hhere
    · rename_i hlt
      rw [if_pos hlt]
      by_cases hlast : i = last
      · subst hlast
        rw [List.getElem?_set_self hi, bind_some, hsummary]
        rwa [htask, bind_some] at hhere
      · rwa [List.getElem?_set_ne hlast]
    · rename_i hlt
      rwa [if_neg hlt]

/-- A step that does not touch the conversation. -/
theorem Waits.setTask (h : Waits last summary s) {i : Nat}
    (htask : s.tasks[i]? = some task) (htasks : t.tasks = s.tasks.set i task')
    (hcommands : t.commands = s.commands) (hwriter : t.writer = s.writer)
    (hconversation : t.conversation = s.conversation)
    (hfamily : ∀ other : Task, other.Rendered s.family → other.Rendered t.family)
    (hsummary : task'.summary = task.summary) (hlocks : task'.locks = false)
    (hrendered : task'.Rendered t.family) (hwritten : task'.written = none) :
    Waits last summary t := by
  obtain ⟨hi, -⟩ := List.getElem?_eq_some_iff.mp htask
  refine h.set htask htasks hcommands hsummary (fun j other hj hlock => ?_)
    (fun other hother => ?_) (fun request hrequest hlast => ?_)
  · rw [htasks] at hj
    by_cases hij : i = j
    · subst hij
      rw [List.getElem?_set_self hi] at hj
      rw [← Option.some.inj hj, hlocks] at hlock
      cases hlock
    · rw [List.getElem?_set_ne hij] at hj
      exact hwriter ▸ h.locks j other hj hlock
  · rw [htasks] at hother
    rcases mem_or_eq_of_mem_set hother with hother | rfl
    · exact hfamily other (h.rendered other hother)
    · exact hrendered
  · rw [htasks] at hrequest
    by_cases hil : i = last
    · subst hil
      rw [List.getElem?_set_self hi, bind_some, hwritten] at hrequest
      cases hrequest
    · rw [List.getElem?_set_ne hil] at hrequest
      exact hconversation ▸ h.written request hrequest (hwriter ▸ hlast)

theorem unlocked (hfree : s.locked = false) {j : Nat}
    (htask : s.tasks[j]? = some task) : task.locks = false := by
  have hall := any_eq_false.mp hfree task (mem_of_getElem? htask)
  exact Bool.eq_false_iff.mpr hall

/-- A step that writes the conversation. -/
theorem Waits.write (h : Waits last summary s) (hfree : s.locked = false) {i : Nat}
    {conversation : Option Request} (htask : s.tasks[i]? = some task)
    (hsummary : task'.summary = task.summary) (hrendered : task'.Rendered s.family)
    (hwritten : ∀ request, task'.written = some request → conversation = some request) :
    Waits last summary (s.write i conversation task') := by
  obtain ⟨hi, -⟩ := List.getElem?_eq_some_iff.mp htask
  refine h.set htask rfl rfl hsummary (fun j other hj hlock => ?_) (fun other hother => ?_)
    (fun request hrequest hlast => ?_)
  · by_cases hij : i = j
    · exact congrArg some hij
    · have hset : (s.tasks.set i task')[j]? = some other := hj
      rw [List.getElem?_set_ne hij] at hset
      rw [unlocked hfree hset] at hlock
      cases hlock
  · rcases mem_or_eq_of_mem_set hother with hother | rfl
    · exact h.rendered other hother
    · exact hrendered
  · obtain rfl : i = last := Option.some.inj hlast
    have hset : ((s.tasks.set i task')[i]?).bind Task.written = some request := hrequest
    rw [List.getElem?_set_self hi, bind_some] at hset
    exact hwritten request hset

theorem Waits.step (h : Waits last summary s) (hdoes : Does failureYaml s action t) :
    Waits last summary t := by
  have hnext : ∀ {i : Nat} {task task' : Task}, s.tasks[i]? = some task →
      task'.summary = task.summary → task'.locks = false → task'.Rendered s.family →
      task'.written = none → Waits last summary (s.setTask i task') := by
    intro i task task' htask
    exact h.setTask (t := s.setTask i task') htask rfl rfl rfl rfl fun _ => id
  cases hdoes with
  | receive hcommands => exact receive_waits h hcommands
  | start htask =>
    exact h.setTask htask rfl rfl rfl rfl (fun _ => id) rfl rfl trivial rfl
  | take htask hfree => exact h.write hfree htask rfl trivial fun request hnone => by cases hnone
  | build htask => exact hnext htask rfl rfl trivial rfl
  | @reply i userMessage marked builder tags reply results phase htask hanswer =>
    have hlocks : (message userMessage phase marked).locks = false := by
      cases phase with
      | taken conversation =>
        cases reply with
        | refused error => cases hanswer
        | streamed responses =>
          rw [answer] at hanswer
          split at hanswer
          · cases hanswer
          · split at hanswer <;> cases hanswer
      | spawned | reset | generating | storing | ended => rfl
    exact hnext htask rfl hlocks trivial rfl
  | honour htask hcancel => exact hnext htask rfl rfl trivial rfl
  | store htask hfree => exact h.write hfree htask rfl trivial fun request hnone => by cases hnone
  | clear htask hfree => exact h.write hfree htask rfl trivial fun request hnone => by cases hnone
  | render htask => exact hnext htask rfl rfl ⟨s.family.systemPrompt, rfl⟩ rfl
  | inject htask hfree =>
    have hbefore := h.rendered _ (mem_of_getElem? htask)
    exact h.write hfree htask rfl hbefore fun _ hsame => hsame
  | reload htask =>
    exact h.setTask htask rfl rfl rfl rfl (fun _ => rendered_reload _) rfl rfl trivial rfl

end Kept

section Stays

variable {failureYaml : String → String → String} {last i : Nat} {summary : String} {s t : State}
  {action : Action} {task task' : Task}

theorem injected_set (hne : i ≠ last) (htasks : t.tasks = s.tasks.set i task') :
    Injected last t ↔ Injected last s := by
  rw [Injected, Injected, htasks, getElem?_set_ne hne]

theorem not_injected_self (htask : s.tasks[i]? = some task) (htasks : t.tasks = s.tasks.set i task')
    (hwritten : task'.written = none) : ¬ Injected i t := by
  obtain ⟨hi, -⟩ := List.getElem?_eq_some_iff.mp htask
  rw [Injected, htasks, List.getElem?_set_self hi, bind_some, hwritten]
  exact Bool.false_ne_true

/-- The injection has no more steps once it has been written. -/
theorem Injected.ne (h : Injected last s) (htask : s.tasks[i]? = some task)
    (hwritten : task.written = none) : i ≠ last := by
  rintro rfl
  rw [Injected, htask, bind_some, hwritten] at h
  cases h

theorem others_set (h : OthersSettled last s) (htasks : t.tasks = s.tasks.set i task')
    (howes : task'.owes = false) : OthersSettled last t := by
  intro j other hj hother
  rw [htasks] at hother
  by_cases hij : i = j
  · subst hij
    obtain ⟨hi, hget⟩ := List.getElem?_eq_some_iff.mp hother
    rw [getElem_set_self] at hget
    exact hget ▸ howes
  · rw [List.getElem?_set_ne hij] at hother
    exact h j other hj hother

theorem not_others_set (hne : i ≠ last) (htask : s.tasks[i]? = some task)
    (htasks : t.tasks = s.tasks.set i task') (howes : task'.owes = true) :
    ¬ OthersSettled last t := by
  intro h
  obtain ⟨hi, -⟩ := List.getElem?_eq_some_iff.mp htask
  have hself : t.tasks[i]? = some task' := by rw [htasks, List.getElem?_set_self hi]
  rw [h i task' hne hself] at howes
  cases howes

theorem others_back (h : OthersSettled last t) (htask : s.tasks[i]? = some task)
    (htasks : t.tasks = s.tasks.set i task') (howes : task.owes = false) : OthersSettled last s := by
  intro j other hj hother
  by_cases hij : i = j
  · subst hij
    exact some.inj (htask.symm.trans hother) ▸ howes
  · refine h j other hj ?_
    rw [htasks, getElem?_set_ne hij, hother]

/-- A step of a task that stays clear of the conversation. -/
theorem stays_quiet (hs : Stays last s) (htask : s.tasks[i]? = some task)
    (htasks : t.tasks = s.tasks.set i task') (hwriter : t.writer = s.writer)
    (hwritten : task'.written = none) (howes : Injected last s → task'.owes = false) : Stays last t := by
  intro hinjected
  by_cases hne : i = last
  · subst hne
    exact absurd hinjected (not_injected_self htask htasks hwritten)
  · have hinjected := (injected_set hne htasks).mp hinjected
    obtain ⟨hwrites, hothers⟩ := hs hinjected
    exact ⟨hwriter.trans hwrites, others_set hothers htasks (howes hinjected)⟩

/-- A step of a task that has to touch the conversation comes before the injection is written. -/
theorem stays_owing (hs : Stays last s) (htask : s.tasks[i]? = some task)
    (htasks : t.tasks = s.tasks.set i task') (howes : task.owes = true)
    (hwritten : i = last → task'.written = none) : Stays last t := by
  intro hinjected
  by_cases hne : i = last
  · subst hne
    exact absurd hinjected (not_injected_self htask htasks (hwritten rfl))
  · have hinjected := (injected_set hne htasks).mp hinjected
    rw [(hs hinjected).2 i task hne htask] at howes
    cases howes

/-- A generation that is to store its request does so over what has been injected. -/
theorem stays_storing (hs : Stays last s) (htask : s.tasks[i]? = some task)
    (htasks : t.tasks = s.tasks.set i task') (hbefore : task.written = none)
    (howes : task'.owes = true) (hwritten : task'.written = none) :
    Stays last t ↔ ¬ Injected last s := by
  constructor
  · intro ht hinjected
    have hne := hinjected.ne htask hbefore
    have hstill := (injected_set hne htasks).mpr hinjected
    exact not_others_set hne htask htasks howes (ht hstill).2
  · intro hnot hinjected
    by_cases hne : i = last
    · subst hne
      exact absurd hinjected (not_injected_self htask htasks hwritten)
    · exact absurd ((injected_set hne htasks).mp hinjected) hnot

theorem bind_written_mark (task : Option Task) :
    (task.map mark).bind written = task.bind written := by
  cases task with
  | none => rfl
  | some task => exact (mark_same task).2.2.2.1

variable {commands : List Command}

/-- Nothing more is spawned once the injection has been written. -/
theorem Waits.receive_injected {command : Command}
    (h : Waits last summary s) (hcommands : s.commands = command :: commands)
    (hinjected : Injected last s) : command.task = none := by
  obtain ⟨request, hrequest⟩ := isSome_iff_exists.mp hinjected
  obtain ⟨task, htask, -⟩ := bind_eq_some_iff.mp hrequest
  obtain ⟨hlast, -⟩ := List.getElem?_eq_some_iff.mp htask
  have hcount := h.count
  rw [hcommands] at hcount
  cases hnew : command.task with
  | none => rfl
  | some task =>
    rw [filterMap_cons_some hnew, length_cons] at hcount
    omega

theorem receive_stays_iff {command : Command} (h : Waits last summary s)
    (hcommands : s.commands = command :: commands) :
    Stays last (s.receive command commands) ↔ Stays last s := by
  cases htask : command.task with
  | none =>
    have hinjected : Injected last (s.receive command commands) ↔ Injected last s := by
      rw [Injected, Injected, receive, htask]
      dsimp only
      rw [getElem?_map, bind_written_mark]
    have hothers : OthersSettled last (s.receive command commands) ↔ OthersSettled last s := by
      rw [OthersSettled, OthersSettled, receive, htask]
      dsimp only
      constructor
      · intro hall j task hj hget
        have howes := hall j task.mark hj (by rw [getElem?_map, hget]; rfl)
        exact (mark_same task).1 ▸ howes
      · intro hall j task hj hget
        rw [getElem?_map] at hget
        obtain ⟨unmarked, hunmarked, rfl⟩ := map_eq_some_iff.mp hget
        exact (mark_same unmarked).1 ▸ hall j unmarked hj hunmarked
    have hwriter : (s.receive command commands).writer = s.writer := by
      rw [receive, htask]
    rw [Stays, Stays, hinjected, hothers, hwriter]
  | some task =>
    have hbefore : ¬ Injected last s := by
      intro hinjected
      rw [h.receive_injected hcommands hinjected] at htask
      cases htask
    have hafter : ¬ Injected last (s.receive command commands) := by
      have hwritten : task.written = none := by
        cases command with
        | userInput | clearContext | reloadModel | injectContext => cases htask; rfl
        | cancel => cases htask
      rw [Injected, receive, htask]
      dsimp only
      rw [getElem?_append]
      split
      · exact hbefore
      · cases hget : [task][last - s.tasks.length]? with
        | none => exact Bool.false_ne_true
        | some other =>
          rw [mem_singleton.mp (mem_of_getElem? hget), bind_some, hwritten]
          exact Bool.false_ne_true
    exact iff_of_true (fun hinjected => absurd hinjected hafter)
      fun hinjected => absurd hinjected hbefore

theorem stays_step_iff (h : Waits last summary s) (hs : Stays last s)
    (hdoes : Does failureYaml s action t) : Stays last t ↔ Settles last s action := by
  cases hdoes with
  | receive hcommands => exact iff_of_true ((receive_stays_iff h hcommands).mpr hs) trivial
  | start htask => exact iff_of_true (stays_owing hs htask rfl rfl fun _ => rfl) trivial
  | take htask hfree => exact iff_of_true (stays_owing hs htask rfl rfl fun _ => rfl) trivial
  | build htask => exact iff_of_true (stays_quiet hs htask rfl rfl rfl fun _ => rfl) trivial
  | @reply i userMessage marked builder tags reply results phase htask hanswer =>
    cases reply with
    | refused error =>
      cases hanswer
      exact iff_of_true (stays_quiet hs htask rfl rfl rfl fun _ => rfl) trivial
    | streamed responses =>
      rw [answer] at hanswer
      split at hanswer
      · rename_i hcalls
        cases hanswer
        refine (stays_storing hs htask rfl rfl rfl rfl).trans ?_
        rw [List.isEmpty_iff] at hcalls
        exact ⟨fun hnot hinjected => absurd hinjected hnot, fun hmore hinjected =>
          hmore hinjected hcalls⟩
      · rename_i hcalls
        split at hanswer
        · cases hanswer
          refine iff_of_true (stays_quiet hs htask rfl rfl rfl fun _ => rfl) fun _ hnil => ?_
          exact hcalls (List.isEmpty_iff.mpr hnil)
        · cases hanswer
  | honour htask hcancel => exact stays_storing hs htask rfl rfl rfl rfl
  | store htask hfree => exact iff_of_true (stays_owing hs htask rfl rfl fun _ => rfl) trivial
  | clear htask hfree => exact iff_of_true (stays_owing hs htask rfl rfl fun _ => rfl) trivial
  | render htask => exact iff_of_true (stays_owing hs htask rfl rfl fun _ => rfl) trivial
  | @inject i other request htask hfree =>
    by_cases hlast : i = last
    · subst hlast
      obtain ⟨hi, -⟩ := List.getElem?_eq_some_iff.mp htask
      have hinjected : Injected i (s.write i (some request) (.inject other (some request) true)) := by
        have hself : (s.tasks.set i (.inject other (some request) true))[i]? = some _ :=
          List.getElem?_set_self hi
        rw [Injected, State.write]
        dsimp only
        rw [hself]
        rfl
      have hothers : OthersSettled i
          (s.write i (some request) (.inject other (some request) true)) ↔ OthersSettled i s := by
        refine forall_congr' fun j => forall_congr' fun task => imp_congr_right fun hj => ?_
        rw [State.write]
        dsimp only
        rw [List.getElem?_set_ne (Ne.symm hj)]
      constructor
      · intro ht _
        exact hothers.mp (ht hinjected).2
      · intro hsettles _
        exact ⟨rfl, hothers.mpr (hsettles rfl)⟩
    · exact iff_of_true (stays_owing hs htask rfl rfl fun h => absurd h hlast)
        fun h => absurd h hlast
  | reload htask => exact iff_of_true (stays_quiet hs htask rfl rfl rfl fun _ => rfl) trivial

/-- What has been written over an injection is not undone. -/
theorem stays_back (h : Waits last summary s) (hdoes : Does failureYaml s action t)
    (ht : Stays last t) : Stays last s := by
  have hwrites : ∀ {i : Nat} {task task' : Task} {conversation : Option Request},
      s.tasks[i]? = some task → task.written = none →
      t = s.write i conversation task' → Stays last s := by
    rintro i task task' conversation htask hwritten rfl hinjected
    have hne := hinjected.ne htask hwritten
    have hstill := (injected_set (t := s.write i conversation task') hne rfl).mpr hinjected
    exact absurd (some.inj (ht hstill).1) hne
  have howes : ∀ {i : Nat} {task task' : Task}, s.tasks[i]? = some task → task.written = none →
      t.tasks = s.tasks.set i task' → task'.owes = true → Stays last s := by
    intro i task task' htask hwritten htasks howes hinjected
    have hne := hinjected.ne htask hwritten
    have hstill := (injected_set hne htasks).mpr hinjected
    exact absurd (ht hstill).2 (not_others_set hne htask htasks howes)
  have hquiet : ∀ {i : Nat} {task task' : Task}, s.tasks[i]? = some task → task.written = none →
      t.tasks = s.tasks.set i task' → t.writer = s.writer → task.owes = false → Stays last s := by
    intro i task task' htask hwritten htasks hwriter howes hinjected
    have hne := hinjected.ne htask hwritten
    obtain ⟨hwrites, hothers⟩ := ht ((injected_set hne htasks).mpr hinjected)
    exact ⟨hwriter ▸ hwrites, others_back hothers htask htasks howes⟩
  cases hdoes with
  | receive hcommands => exact (receive_stays_iff h hcommands).mp ht
  | start htask => exact howes htask rfl rfl rfl
  | take htask hfree => exact hwrites htask rfl rfl
  | build htask =>
    intro hinjected
    have hne := hinjected.ne htask rfl
    have hwriter := (ht ((injected_set (t := s.setTask _ _) hne rfl).mpr hinjected)).1
    exact absurd (some.inj ((h.locks _ _ htask rfl).symm.trans hwriter)) hne
  | reply htask hanswer => exact hquiet htask rfl rfl rfl rfl
  | honour htask hcancel => exact hquiet htask rfl rfl rfl rfl
  | store htask hfree => exact hwrites htask rfl rfl
  | clear htask hfree => exact hwrites htask rfl rfl
  | render htask => exact howes htask rfl rfl rfl
  | inject htask hfree => exact hwrites htask rfl rfl
  | reload htask => exact hquiet htask rfl rfl rfl rfl

end Stays

section Replaced

variable {failureYaml : String → String → String} {last : Nat} {family : Family}
  {before : Option Request} {commands : List Command} {summary : String} {actions : List Action}
  {t : State}

theorem waits_start :
    Waits (lastTask commands) summary (start family before (replaced commands summary)) := by
  have htasks : (replaced commands summary).filterMap Command.task =
      commands.filterMap Command.task ++ [.clear false, .inject summary none false] := by
    rw [replaced, filterMap_append]
    rfl
  constructor
  case count =>
    change 0 + ((replaced commands summary).filterMap Command.task).length = lastTask commands + 1
    rw [htasks, length_append, lastTask, Nat.zero_add]
    rfl
  case here =>
    change ((([] : List Task) ++ (replaced commands summary).filterMap Command.task)[lastTask
      commands]?).bind Task.summary = some summary
    rw [htasks, nil_append, lastTask, getElem?_append_right (Nat.le_add_right _ 1),
      Nat.add_sub_cancel_left]
    rfl
  case locks => intro j task htask; cases htask
  case rendered => intro task htask; cases htask
  case written => intro request hrequest; cases hrequest

theorem owes_of_ended {task : Task} (h : task.ended = true) : task.owes = false := by
  cases task with
  | message userMessage phase marked => cases phase <;> first | rfl | cases h
  | clear ended | inject summary rendered ended =>
    change (!ended) = false
    rw [show ended = true from h]
    rfl
  | reload ended => rfl

theorem Waits.ended (h : Waits last summary t) (hended : t.Ended) :
    ∃ systemPrompt, t.tasks[last]? = some (.inject summary
      (some (injectSummaryContext { t.family with systemPrompt } summary)) true) := by
  obtain ⟨hcommands, htasks⟩ := hended
  have hhere := h.here
  rw [hcommands, filterMap_nil, append_nil] at hhere
  obtain ⟨task, htask, hsummary⟩ := bind_eq_some_iff.mp hhere
  have hmem := mem_of_getElem? htask
  have hrendered := h.rendered task hmem
  have hdone := htasks task hmem
  cases task with
  | message | clear | reload => cases hsummary
  | inject other rendered ended =>
    obtain rfl : other = summary := some.inj hsummary
    obtain rfl : ended = true := hdone
    cases rendered with
    | none => cases hrendered
    | some request =>
      obtain ⟨systemPrompt, rfl⟩ := hrendered
      exact ⟨systemPrompt, htask⟩

theorem stays_ended_iff (h : Waits last summary t) (hended : t.Ended) :
    Stays last t ↔ HasInjected last summary t := by
  obtain ⟨systemPrompt, htask⟩ := h.ended hended
  have hwritten : (t.tasks[last]?).bind written =
      some (injectSummaryContext { t.family with systemPrompt } summary) := by
    rw [htask]
    rfl
  constructor
  · intro hstays
    have hinjected : Injected last t := by rw [Injected, hwritten]; rfl
    have hwriter := (hstays hinjected).1
    exact ⟨hwriter, systemPrompt, h.written _ hwritten hwriter⟩
  · rintro ⟨hwriter, -⟩ -
    refine ⟨hwriter, fun j task _ hget => ?_⟩
    exact owes_of_ended (hended.2 task (mem_of_getElem? hget))

theorem context_replaced_iff
    (hrun : run (step failureYaml) (start family before (replaced commands summary)) actions = some t)
    (hended : t.Ended) : HasInjected (lastTask commands) summary t ↔
      Steps (step failureYaml) (Settles (lastTask commands))
        (start family before (replaced commands summary)) actions t := by
  have hwaits : Waits (lastTask commands) summary t :=
    run_invariant hrun (fun _ _ _ hstep h => h.step (does_of_step hstep)) waits_start
  have hstays : Stays (lastTask commands) (start family before (replaced commands summary)) := by
    intro hinjected
    cases hinjected
  rw [← stays_ended_iff hwaits hended]
  exact end_iff_steps (fun _ _ _ hstep h => h.step (does_of_step hstep))
    (fun _ _ _ h hstep hs => stays_step_iff h hs (does_of_step hstep))
    (fun _ _ _ h hstep => stays_back h (does_of_step hstep)) hrun waits_start hstays

end Replaced

def idle (message tool : String) : String := message ++ tool

def idleTags : ThinkingTags := ⟨"<think>".toList, "</think>".toList⟩

def assistant : Family := ⟨[], "You help.", ⟨.yolo, false, true⟩, "nite"⟩

theorem context_replaced_in_order : ∃ t,
    run (step idle) (start assistant none (replaced [] "so far"))
      [.receive, .receive, .clear 0, .render 1, .inject 1] = some t ∧
    HasInjected (lastTask []) "so far" t := by
  have hrun : run (step idle) (start assistant none (replaced [] "so far"))
      [.receive, .receive, .clear 0, .render 1, .inject 1] = some _ := rfl
  refine ⟨_, hrun, (context_replaced_iff hrun ⟨rfl, fun task htask => ?_⟩).mpr ?_⟩
  · rcases mem_cons.mp htask with rfl | htask
    · rfl
    · exact (mem_singleton.mp htask) ▸ rfl
  · refine .head trivial rfl (.head trivial rfl (.head trivial rfl (.head trivial rfl
      (.head (fun _ j task hj htask => ?_) rfl (.refl _)))))
    match j with
    | 0 => cases htask; rfl
    | 1 => exact absurd rfl hj
    | _ + 2 => cases htask

/-- The clear erases an injection that is written before it, and a generation that was in flight
stores its own request over one. -/
theorem context_replaced_erased :
    (∃ t, run (step idle) (start assistant none (replaced [] "so far"))
      [.receive, .receive, .render 1, .inject 1, .clear 0] = some t ∧ t.Ended ∧
      t.conversation = none) ∧
    ∃ t, run (step idle) (start assistant none (replaced [.userInput "one"] "so far"))
      [.receive, .start 0, .take 0, .build 0, .receive, .receive, .clear 1, .render 2, .inject 2,
        .reply 0 idleTags (.streamed []) [], .store 0] = some t ∧ t.Ended ∧
      t.conversation = some (firstRequest assistant none "one") := by
  refine ⟨⟨_, rfl, ⟨rfl, fun task htask => ?_⟩, rfl⟩, ⟨_, rfl, ⟨rfl, fun task htask => ?_⟩, rfl⟩⟩
  · rcases mem_cons.mp htask with rfl | htask
    · rfl
    · exact (mem_singleton.mp htask) ▸ rfl
  · rcases mem_cons.mp htask with rfl | htask
    · rfl
    · rcases mem_cons.mp htask with rfl | htask
      · rfl
      · exact (mem_singleton.mp htask) ▸ rfl

end ColossalCode.Runtime
