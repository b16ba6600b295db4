import ColossalCode.Dispatch.Calls

/-! One call from its start to its end: what it does outside, and when it fails without doing
anything. -/
namespace ColossalCode.Dispatch
open List Option

open Sessionizer

/-- What a call does outside of the agent. -/
inductive Effect where
  | toolsBinary (args : List String)
  | readOutput (sessionId : SessionId)
  | search (query : String)
  | fetch (url : String)
  | command (command : String)
  deriving DecidableEq, Repr

def attemptEffects (command : String) : Attempt → List Effect
  | .ran _ => [.command command]
  | .unmanaged => []
  | .failed _ started => if started then [.command command] else []

/-- What happens outside when a question is replied to. -/
def effects : Query → Reply → List Effect
  | .toolsBinary _ _ _, .binary (.notStarted _) => []
  | .toolsBinary args _ _, _ => [.toolsBinary args]
  | .readBackgroundOutput sessionId, .output (.ok (some _)) => [.readOutput sessionId]
  | .webSearch _ _ _, .search (.unreachable _) => []
  | .webSearch query _ _, _ => [.search query]
  | .htmlToText url _, .page (.ok _) => [.fetch url]
  | .forkEval _ request _, .attempt attempt => attemptEffects request.command attempt
  | .execInSession _ request _, .attempt attempt => attemptEffects request.command attempt
  | .runIsolated request _ _ _ _, .attempt attempt => attemptEffects request.command attempt
  | _, _ => []

/-- The outside has done something for the call, or says that it will. -/
def Reply.serves : Reply → Bool
  | .binary (.notStarted _) => false
  | .binary _ => true
  | .output (.error _) => false
  | .output (.ok _) => true
  | .search (.unreachable _) => false
  | .search _ => true
  | .page _ => true
  | .attempt (.ran _) => true
  | .attempt (.failed _ started) => started
  | _ => false

section Call

variable (platform : Platform) (agent : CallingAgent) (name arguments : String)

/-- A call with all the replies it gets; nothing as long as it has not come to its end. -/
def converse : Phase → List Reply → Option (Outcome × List Effect)
  | .ended outcome, [] => some (outcome, [])
  | _, [] => none
  | p, reply :: replies =>
    match query platform agent p, resume platform agent name arguments p reply with
    | some q, some p' =>
      (converse p' replies).map fun result => (result.1, effects q reply ++ result.2)
    | _, _ => none

def executeToolCall (replies : List Reply) : Option (Outcome × List Effect) :=
  converse platform agent name arguments .called replies

/-- The call fails and nothing has happened. -/
def FailsIdle (result : Outcome × List Effect) : Prop := failed result.1 = true ∧ result.2 = []

instance (result : Outcome × List Effect) : Decidable (FailsIdle result) := instDecidableAnd

/-- The tools that fail when the outside does nothing for them. -/
def refusable : List String := "exec_command" :: "read_output" :: "web_search" :: binaryTools

/-- The call cannot be read, contradicts itself, or is refused all it asks of the outside. -/
def Withheld (replies : List Reply) : Prop :=
  match platform.parse arguments with
  | .error _ => True
  | .ok value =>
    (name = "exec_command" ∧ (execRequest value).conflicting = true) ∨
      (name ∈ refusable ∧ ∀ reply ∈ replies, reply.serves = false)

end Call

section Ends

variable {platform : Platform} {agent : CallingAgent} {name arguments : String}
  {p : Phase} {reply : Reply} {replies : List Reply} {result : Outcome × List Effect}

theorem converse_cons_eq_some :
    converse platform agent name arguments p (reply :: replies) = some result ↔
      ∃ q p' rest, query platform agent p = some q ∧
        resume platform agent name arguments p reply = some p' ∧
        converse platform agent name arguments p' replies = some rest ∧
        result = (rest.1, effects q reply ++ rest.2) := by
  rw [converse]
  cases hq : query platform agent p with
  | none => simp
  | some q =>
    cases hp : resume platform agent name arguments p reply with
    | none => simp
    | some p' =>
      simp only [map_eq_some_iff, some.injEq]
      constructor
      · rintro ⟨rest, hrest, rfl⟩
        exact ⟨q, p', rest, rfl, rfl, hrest, rfl⟩
      · rintro ⟨q', p'', rest, rfl, rfl, hrest, rfl⟩
        exact ⟨rest, hrest, rfl⟩

theorem converse_ended_eq_some {outcome : Outcome} :
    converse platform agent name arguments (.ended outcome) replies = some result ↔
      replies = [] ∧ result = (outcome, []) := by
  cases replies with
  | nil =>
    simp only [converse, some.injEq, true_and]
    exact eq_comm
  | cons reply replies => simp [converse, query]

/-- The call is on its way to run a command, and no command has run. -/
def Phase.unserved : Phase → Bool
  | .opening _ _ _ _ => true
  | .attempting _ _ _ _ _ => true
  | .reopening _ _ _ => true
  | .readingContinuity _ _ => true
  | .readingIsolatedPolicy _ _ _ => true
  | .isolated _ _ _ _ => true
  | .askingFork _ _ => true
  | .askingReplay _ _ => true
  | .askingIsolated _ => true
  | .ended outcome => failed outcome
  | _ => false

theorem refused_unserved {asking : Phase} (h : asking.unserved = true) (command : String)
    (error : ColossalErr) : (refused asking command error).unserved = true := by
  cases error with
  | denied code reason =>
    rw [refused]
    split
    · exact h
    · rfl
  | io message | missingSandboxHelper => rfl

theorem answered_unserved {again : Phase} (h : again.unserved = true) (command : String)
    (answer : Option Bool) : (answered again command answer).unserved = true := by
  match answer with
  | some true => exact h
  | some false | none => rfl

theorem attempt_effects_iff (command : String) (attempt : Attempt) :
    attemptEffects command attempt ≠ [] ↔ (Reply.attempt attempt).serves = true := by
  cases attempt with
  | ran output => simp [attemptEffects, Reply.serves]
  | unmanaged => simp [attemptEffects, Reply.serves]
  | failed error started => cases started <;> simp [attemptEffects, Reply.serves]

variable {attempt : Attempt} {request : ExecRequest}

/-- The attempts that have not run the command. -/
theorem not_serves_attempt (h : (Reply.attempt attempt).serves = false) :
    attempt = .unmanaged ∨ ∃ error, attempt = .failed error false := by
  cases attempt with
  | ran output => cases h
  | unmanaged => exact .inl rfl
  | failed error started =>
    obtain rfl : started = false := h
    exact .inr ⟨error, rfl⟩

theorem resume_attempting {way : Way} {approval : AskForApproval}
    {retried : Bool} {sessionId : SessionId} {p' : Phase}
    (hserves : (Reply.attempt attempt).serves = false)
    (hp : resume platform agent name arguments (.attempting way request approval retried sessionId)
      (.attempt attempt) = some p') : p'.unserved = true := by
  rcases not_serves_attempt hserves with rfl | ⟨error, rfl⟩
  · cases way with
    | fork =>
      obtain rfl := some.inj hp
      rfl
    | generic | replay => cases hp
  · cases way with
    | fork =>
      obtain rfl := some.inj hp
      exact refused_unserved rfl _ error
    | generic =>
      obtain rfl := some.inj hp
      rfl
    | replay =>
      cases error with
      | io message =>
        rw [resume] at hp
        split at hp
        · obtain rfl := some.inj hp
          rfl
        · obtain rfl := some.inj hp
          rfl
      | denied code reason =>
        obtain rfl := some.inj hp
        exact refused_unserved rfl _ _
      | missingSandboxHelper =>
        obtain rfl := some.inj hp
        rfl

/-- A command runs with the reply, or the call goes on as before or fails. -/
theorem resume_unserved {q : Query} {p' : Phase} (h : p.unserved = true)
    (hq : query platform agent p = some q)
    (hp : resume platform agent name arguments p reply = some p') :
    if reply.serves = true then effects q reply ≠ []
    else effects q reply = [] ∧ p'.unserved = true := by
  have hidle : reply.serves = false → effects q reply = [] → p'.unserved = true →
      if reply.serves = true then effects q reply ≠ []
      else effects q reply = [] ∧ p'.unserved = true := by
    intro hserves heffects hp'
    rw [if_neg (by rw [hserves]; exact Bool.false_ne_true)]
    exact ⟨heffects, hp'⟩
  have hattempt : ∀ attempt command, reply = .attempt attempt →
      effects q reply = attemptEffects command attempt →
      (reply.serves = false → p'.unserved = true) →
      if reply.serves = true then effects q reply ≠ []
      else effects q reply = [] ∧ p'.unserved = true := by
    rintro attempt command rfl heffects hp'
    have hiff := attempt_effects_iff command attempt
    rw [← heffects] at hiff
    split
    · next hserves => exact hiff.mpr hserves
    · next hserves =>
      exact ⟨not_not.mp fun hne => hserves (hiff.mp hne), hp' (by simpa using hserves)⟩
  cases p with
  | called | readingPolicy | invoking | readingOutput | searching | fetching | syncing | dropping =>
    cases h
  | ended outcome => cases hq
  | opening way request approval retried =>
    cases reply with
    | session opened =>
      obtain rfl := some.inj hq
      cases opened with
      | ok sessionId =>
        obtain rfl := some.inj hp
        exact hidle rfl rfl rfl
      | error error =>
        obtain rfl := some.inj hp
        exact hidle rfl rfl rfl
    | _ => cases hp
  | attempting way request approval retried sessionId =>
    cases reply with
    | attempt attempt =>
      refine hattempt attempt request.command rfl ?_ fun hserves => resume_attempting hserves hp
      cases way <;> obtain rfl := some.inj hq <;> rfl
    | _ => cases way <;> cases hp
  | reopening request approval sessionId =>
    cases reply with
    | done =>
      obtain rfl := some.inj hq
      obtain rfl := some.inj hp
      exact hidle rfl rfl rfl
    | _ => cases hp
  | readingContinuity request approval =>
    cases reply with
    | continuity state =>
      obtain rfl := some.inj hq
      obtain rfl := some.inj hp
      exact hidle rfl rfl rfl
    | _ => cases hp
  | readingIsolatedPolicy request approval state =>
    cases reply with
    | policy policy =>
      obtain rfl := some.inj hq
      obtain rfl := some.inj hp
      exact hidle rfl rfl rfl
    | _ => cases hp
  | isolated request approval state policy =>
    cases reply with
    | attempt attempt =>
      obtain rfl := some.inj hq
      refine hattempt attempt request.command rfl rfl fun hserves => ?_
      rcases not_serves_attempt hserves with rfl | ⟨error, rfl⟩
      · cases hp
      · obtain rfl := some.inj hp
        exact refused_unserved rfl _ error
    | _ => cases hp
  | askingFork request sessionId | askingReplay request retried | askingIsolated request =>
    cases reply with
    | approval answer =>
      obtain rfl := some.inj hq
      obtain rfl := some.inj hp
      exact hidle rfl rfl (answered_unserved rfl _ answer)
    | _ => cases hp

/-- A call for a command fails idly exactly when no reply serves it. -/
theorem converse_unserved (h : p.unserved = true)
    (hresult : converse platform agent name arguments p replies = some result) :
    FailsIdle result ↔ ∀ reply ∈ replies, reply.serves = false := by
  induction replies generalizing p result with
  | nil =>
    cases p with
    | ended outcome =>
      obtain ⟨-, rfl⟩ := converse_ended_eq_some.mp hresult
      exact iff_of_true ⟨h, rfl⟩ fun _ hreply => absurd hreply not_mem_nil
    | _ => cases hresult
  | cons reply replies ih =>
    obtain ⟨q, p', rest, hq, hp, hrest, rfl⟩ := converse_cons_eq_some.mp hresult
    have hstep := resume_unserved h hq hp
    rw [forall_mem_cons]
    split at hstep
    · next hserves =>
      refine iff_of_false ?_ fun hall => absurd hserves (by rw [hall.1]; exact Bool.false_ne_true)
      rintro ⟨-, hnil⟩
      exact hstep (append_eq_nil_iff.mp hnil).1
    · next hserves =>
      obtain ⟨heffects, hp'⟩ := hstep
      rw [heffects, nil_append, and_iff_right (by simpa using hserves)]
      exact ih hp' hrest

/-- The phases of the tools that fail when they are refused. -/
def Phase.asks : Phase → Bool
  | .readingPolicy _ => true
  | .readingOutput _ => true
  | .searching _ _ _ => true
  | _ => false

/-- The phases of the tools that report no failure. -/
def Phase.succeeds : Phase → Bool
  | .fetching _ _ => true
  | .ended outcome => !failed outcome
  | _ => false

theorem executeNonExecToolCall_cases (name : String) (value : Protocol.Value)
    (hname : name ≠ "exec_command") :
    (name ∈ refusable ∧
      ∃ p, executeNonExecToolCall platform name value = some p ∧ p.asks = true) ∨
    (name ∉ refusable ∧ (executeNonExecToolCall platform name value = none ∨
      ∃ p, executeNonExecToolCall platform name value = some p ∧ p.succeeds = true)) := by
  have hmem : name ∈ refusable ↔
      name = "read_output" ∨ name = "web_search" ∨ name ∈ binaryTools := by
    simp [refusable, hname]
  rw [hmem]
  unfold executeNonExecToolCall
  dsimp only
  by_cases hread : name = "read_output"
  · rw [if_pos hread]
    exact .inl ⟨.inl hread, _, rfl, rfl⟩
  rw [if_neg hread]
  by_cases hsubmit : name = "submit_verification"
  · rw [if_pos hsubmit]
    exact .inr ⟨by subst hsubmit; decide, .inr ⟨_, rfl, rfl⟩⟩
  rw [if_neg hsubmit]
  by_cases hbinary : name ∈ binaryTools
  · rw [if_pos hbinary]
    exact .inl ⟨.inr (.inr hbinary), _, rfl, rfl⟩
  rw [if_neg hbinary]
  by_cases hsearch : name = "web_search"
  · rw [if_pos hsearch]
    exact .inl ⟨.inr (.inl hsearch), _, rfl, rfl⟩
  rw [if_neg hsearch]
  refine .inr ⟨by simp [hread, hsearch, hbinary], ?_⟩
  by_cases hpage : name = "html_to_text"
  · rw [if_pos hpage]
    exact .inr ⟨_, rfl, rfl⟩
  rw [if_neg hpage]
  by_cases htodo : name = "todo_write"
  · rw [if_pos htodo]
    exact .inr ⟨_, rfl, rfl⟩
  rw [if_neg htodo]
  by_cases hsplit : name = "request_split"
  · rw [if_pos hsplit]
    exact .inr ⟨_, rfl, rfl⟩
  rw [if_neg hsplit]
  by_cases horchestrate : name = "orchestrate_task"
  · rw [if_pos horchestrate]
    exact .inr ⟨_, rfl, rfl⟩
  · rw [if_neg horchestrate]
    exact .inl rfl

/-- A question whose reply ends the call. -/
theorem converse_last {q : Query} (hq : query platform agent p = some q)
    (hends : ∀ reply p', resume platform agent name arguments p reply = some p' →
      ∃ outcome, p' = .ended outcome ∧
        (FailsIdle (outcome, effects q reply) ↔ reply.serves = false))
    (hresult : converse platform agent name arguments p replies = some result) :
    FailsIdle result ↔ ∀ reply ∈ replies, reply.serves = false := by
  cases replies with
  | nil =>
    cases p with
    | ended outcome => cases hq
    | _ => cases hresult
  | cons reply replies =>
    obtain ⟨q', p', rest, hq', hp, hrest, rfl⟩ := converse_cons_eq_some.mp hresult
    obtain rfl := some.inj (hq.symm.trans hq')
    obtain ⟨outcome, rfl, hiff⟩ := hends reply p' hp
    obtain ⟨rfl, rfl⟩ := converse_ended_eq_some.mp hrest
    rw [append_nil, hiff]
    simp

theorem converse_invoking {args : List String} {policy : SandboxPolicy}
    (hresult : converse platform agent name arguments (.invoking args policy) replies =
      some result) : FailsIdle result ↔ ∀ reply ∈ replies, reply.serves = false := by
  refine converse_last rfl ?_ hresult
  intro reply p' hp
  cases reply with
  | binary run =>
    obtain rfl := some.inj hp
    refine ⟨_, rfl, ?_⟩
    cases run with
    | notStarted error => exact iff_of_true ⟨rfl, rfl⟩ rfl
    | timedOut => exact iff_of_false (fun h => nomatch h.2) Bool.noConfusion
    | exited success stdout stderr => exact iff_of_false (fun h => nomatch h.2) Bool.noConfusion
  | _ => cases hp

/-- A tool that fails when it is refused fails idly exactly then. -/
theorem converse_asks (h : p.asks = true)
    (hresult : converse platform agent name arguments p replies = some result) :
    FailsIdle result ↔ ∀ reply ∈ replies, reply.serves = false := by
  cases p with
  | readingPolicy args =>
    cases replies with
    | nil => cases hresult
    | cons reply replies =>
      obtain ⟨q, p', rest, hq, hp, hrest, rfl⟩ := converse_cons_eq_some.mp hresult
      cases reply with
      | policy policy =>
        obtain rfl := some.inj hq
        obtain rfl := some.inj hp
        rw [forall_mem_cons,
          and_iff_right (show (Reply.policy policy).serves = false from rfl)]
        exact converse_invoking hrest
      | _ => cases hp
  | readingOutput sessionId =>
    refine converse_last rfl ?_ hresult
    intro reply p' hp
    cases reply with
    | output contents =>
      obtain rfl := some.inj hp
      refine ⟨_, rfl, ?_⟩
      cases contents with
      | ok contents => exact iff_of_false (fun h => nomatch h.1) Bool.noConfusion
      | error error => exact iff_of_true ⟨rfl, rfl⟩ rfl
    | _ => cases hp
  | searching query limit site =>
    refine converse_last rfl ?_ hresult
    intro reply p' hp
    cases reply with
    | search run =>
      obtain rfl := some.inj hp
      refine ⟨_, rfl, ?_⟩
      cases run with
      | unreachable error => exact iff_of_true ⟨rfl, rfl⟩ rfl
      | failed error => exact iff_of_false (fun h => nomatch h.2) Bool.noConfusion
      | results results => exact iff_of_false (fun h => nomatch h.2) Bool.noConfusion
    | _ => cases hp
  | _ => cases h

theorem converse_succeeds (h : p.succeeds = true)
    (hresult : converse platform agent name arguments p replies = some result) :
    ¬ FailsIdle result := by
  cases replies with
  | nil =>
    cases p with
    | ended outcome =>
      obtain ⟨-, rfl⟩ := converse_ended_eq_some.mp hresult
      rintro ⟨hfailed, -⟩
      simp only [Phase.succeeds, hfailed] at h
      cases h
    | _ => cases hresult
  | cons reply replies =>
    obtain ⟨q, p', rest, hq, hp, hrest, rfl⟩ := converse_cons_eq_some.mp hresult
    cases p with
    | ended outcome => cases hq
    | fetching url maxContentLength =>
      cases reply with
      | page content =>
        obtain rfl := some.inj hp
        obtain ⟨-, rfl⟩ := converse_ended_eq_some.mp hrest
        rintro ⟨hfailed, -⟩
        cases hfailed
      | _ => cases hp
    | _ => cases h

theorem failsIdle_exec (hname : name = "exec_command")
    (hresult : converse platform agent name arguments (executeExecCommand platform agent request)
      replies = some result) :
    FailsIdle result ↔ (name = "exec_command" ∧ request.conflicting = true) ∨
      (name ∈ refusable ∧ ∀ reply ∈ replies, reply.serves = false) := by
  have hmem : name ∈ refusable := by subst hname; decide
  rw [and_iff_right hname, and_iff_right hmem]
  unfold executeExecCommand at hresult
  dsimp only at hresult
  by_cases hconflicting : request.conflicting = true
  · rw [if_pos hconflicting] at hresult
    obtain ⟨-, rfl⟩ := converse_ended_eq_some.mp hresult
    exact iff_of_true ⟨rfl, rfl⟩ (.inl hconflicting)
  · rw [if_neg hconflicting] at hresult
    rw [or_iff_right hconflicting]
    refine converse_unserved ?_ hresult
    split
    · rfl
    · split <;> rfl

/-- A call fails without doing anything exactly when it is withheld. -/
theorem failsIdle_iff_withheld
    (hresult : executeToolCall platform agent name arguments replies = some result) :
    FailsIdle result ↔ Withheld platform name arguments replies := by
  unfold executeToolCall at hresult
  cases replies with
  | nil => cases hresult
  | cons reply replies =>
    obtain ⟨q, p, rest, hq, hp, hrest, rfl⟩ := converse_cons_eq_some.mp hresult
    cases reply with
    | done =>
      obtain rfl := some.inj hq
      obtain rfl := some.inj hp
      have hserves : (∀ reply ∈ Reply.done :: replies, reply.serves = false) ↔
          ∀ reply ∈ replies, reply.serves = false := by
        rw [forall_mem_cons, and_iff_right (show Reply.done.serves = false from rfl)]
      unfold dispatch at hrest
      unfold Withheld
      rw [hserves]
      cases hparse : platform.parse arguments with
      | error error =>
        rw [hparse] at hrest
        obtain ⟨-, rfl⟩ := converse_ended_eq_some.mp hrest
        exact iff_of_true ⟨rfl, rfl⟩ trivial
      | ok value =>
        rw [hparse] at hrest
        dsimp only at hrest ⊢
        by_cases hname : name = "exec_command"
        · rw [if_pos hname] at hrest
          exact failsIdle_exec hname hrest
        · rw [if_neg hname] at hrest
          rw [or_iff_right fun h => hname h.1]
          rcases executeNonExecToolCall_cases name value hname with
            ⟨hmem, p, hp, hasks⟩ | ⟨hmem, hnone | ⟨p, hp, hsucceeds⟩⟩
          · rw [hp] at hrest
            rw [and_iff_right hmem]
            exact converse_asks hasks hrest
          · rw [hnone] at hrest
            exact iff_of_false (converse_succeeds rfl hrest) fun h => hmem h.1
          · rw [hp] at hrest
            exact iff_of_false (converse_succeeds hsucceeds hrest) fun h => hmem h.1
    | _ => cases hp

end Ends

end ColossalCode.Dispatch
