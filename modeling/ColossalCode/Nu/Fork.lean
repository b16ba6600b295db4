import ColossalCode.Nu.Runtime
import ColossalCode.Transition.Run
import Mathlib.Logic.Function.Basic

/-! A command of the agent in a managed Nu session: its evaluation in a fork, the time limit, and
the evaluation that follows when there is no answer. -/
namespace ColossalCode.Nu
open Function List

open Sessionizer Transition

/-- The threads that the call spawns. -/
inductive Spawned where
  | fork
  | exec
deriving DecidableEq

inductive Stage where
  | waiting
  | refused (error : String)
  | running
  | finished (output : Output)
deriving DecidableEq

structure Thread where
  session : Nat
  stage : Stage

inductive Holder where
  | ours (thread : Spawned)
  | others
deriving DecidableEq

inductive Answer where
  | output (output : Output)
  | failure (message : String)
  | error (message : String)
  | timedOut
  | ofShell
deriving DecidableEq

/-- Where `execute_managed_nu_foreground` is. -/
inductive Phase where
  | starting
  | trying (session : Nat)
  | asking (session : Nat)
  | awaitingFork
  | falling
  | executing (session : Nat)
  | awaitingExec
  | done (answer : Answer)
deriving DecidableEq

inductive Evaluation where
  | fork
  | exec
  | shell
deriving DecidableEq

structure Call (σ ν : Type) where
  runtimes : Nat → Runtime σ ν
  managed : List Nat
  holder : Nat → Option Holder
  currentApproval : Option AskForApproval
  phase : Phase
  fork : Option Thread
  exec : Option Thread
  /-- The evaluations of the command that have begun. -/
  begun : List Evaluation

inductive Action (σ ν : Type) where
  | opened (session : Nat)
  | tryFork
  | approve (answer : Option Bool)
  | refuse (thread : Spawned) (error : String)
  | begin (thread : Spawned)
  | finish (thread : Spawned)
  | receive
  | timeout
  | tryExec
  | othersLock (session : Nat)
  | othersUnlock (session : Nat) (runtime : Runtime σ ν)
  | othersManage (managed : List Nat)

namespace Call

variable {σ ν : Type} (e : Engine σ ν) (command : String)

def thread (c : Call σ ν) : Spawned → Option Thread
  | .fork => c.fork
  | .exec => c.exec

def setThread (c : Call σ ν) (spawned : Spawned) (stage : Stage) (session : Nat) : Call σ ν :=
  match spawned with
  | .fork => { c with fork := some ⟨session, stage⟩ }
  | .exec => { c with exec := some ⟨session, stage⟩ }

def Spawned.evaluation : Spawned → Evaluation
  | .fork => .fork
  | .exec => .exec

/-- `assess_command_safety` on the words of the command. -/
def assess (c : Call σ ν) (policy : SandboxPolicy) : SafetyCheck :=
  assessCommandSafety ((e.split command).getD [command]) (c.currentApproval.getD yoloMode) policy []
    false

/-- `fork_eval_in_managed_nu_session` up to the thread: no answer where the session is not
managed. -/
def tryFork (c : Call σ ν) (session : Nat) : Option (Call σ ν) :=
  if session ∉ c.managed then some { c with phase := .falling }
  else if (c.holder session).isSome then none
  else
    match c.assess e command (c.runtimes session).sandboxPolicy with
    | .autoApprove _ =>
      some { c with phase := .awaitingFork, fork := some ⟨session, .waiting⟩ }
    | .askUser => some { c with phase := .asking session }
    | .reject reason => some { c with phase := .done (.failure reason) }

/-- `execute_generic_exec`: a session that is not managed is a shell of its own. -/
def tryExec (c : Call σ ν) (session : Nat) : Option (Call σ ν) :=
  if session ∈ c.managed ∧ (c.holder session).isSome then none
  else
    match c.assess e command (c.runtimes session).sandboxPolicy with
    | .autoApprove _ =>
      if session ∈ c.managed then
        some { c with phase := .awaitingExec, exec := some ⟨session, .waiting⟩ }
      else some { c with phase := .done .ofShell, begun := c.begun ++ [.shell] }
    | .askUser => some { c with phase := .done (.error "User approval required") }
    | .reject reason => some { c with phase := .done (.error reason) }

/-- The user's answer to the request for approval. -/
def approve (c : Call σ ν) (session : Nat) : Option Bool → Call σ ν
  | some true => { c with currentApproval := some .never, phase := .trying session }
  | some false => { c with phase := .done (.failure "Command denied by user") }
  | none => { c with phase := .done (.error "Approval channel closed") }

/-- A thread takes the runtime's lock and starts to evaluate. -/
def begin (c : Call σ ν) (spawned : Spawned) (session : Nat) : Call σ ν :=
  { c.setThread spawned .running session with
    holder := update c.holder session (some (.ours spawned))
    begun := c.begun ++ [Spawned.evaluation spawned] }

/-- The forked evaluation leaves the runtime as it is, the other one changes it. -/
def finish (c : Call σ ν) (spawned : Spawned) (session : Nat) : Call σ ν :=
  let runtime := c.runtimes session
  match spawned with
  | .fork => { c with
      fork := some ⟨session, .finished (runtime.forkEval e command)⟩
      holder := update c.holder session none }
  | .exec => { c with
      exec := some ⟨session, .finished (runtime.execCommand e command).1⟩
      runtimes := update c.runtimes session (runtime.execCommand e command).2
      holder := update c.holder session none }

def receive (c : Call σ ν) : Option (Call σ ν) :=
  match c.phase with
  | .awaitingFork =>
    match c.fork.map Thread.stage with
    | some (.finished output) => some { c with phase := .done (.output output) }
    | some (.refused error) => some { c with phase := .done (.failure error) }
    | _ => none
  | .awaitingExec =>
    match c.exec.map Thread.stage with
    | some (.finished output) => some { c with phase := .done (.output output) }
    | some (.refused error) => some { c with phase := .done (.error error) }
    | _ => none
  | _ => none

def Thread.unanswered (t : Thread) : Bool := t.stage = .waiting ∨ t.stage = .running

/-- The time limit runs out where there is no answer yet. For the fork this counts as no answer, as
where the session is not managed; the session of an evaluation that takes too long is terminated. -/
def timeout (c : Call σ ν) : Option (Call σ ν) :=
  match c.phase with
  | .awaitingFork =>
    if c.fork.any Thread.unanswered then some { c with phase := .falling } else none
  | .awaitingExec =>
    match c.exec with
    | some t =>
      if Thread.unanswered t then
        some { c with phase := .done .timedOut, managed := c.managed.erase t.session }
      else none
    | none => none
  | _ => none

def step (c : Call σ ν) : Action σ ν → Option (Call σ ν)
  | .opened session =>
    match c.phase with
    | .starting => some { c with phase := .trying session }
    | .falling => some { c with phase := .executing session }
    | _ => none
  | .tryFork =>
    match c.phase with
    | .trying session => c.tryFork e command session
    | _ => none
  | .approve answer =>
    match c.phase with
    | .asking session => some (c.approve session answer)
    | _ => none
  | .refuse spawned error =>
    match c.thread spawned with
    | some ⟨session, .waiting⟩ => some (c.setThread spawned (.refused error) session)
    | _ => none
  | .begin spawned =>
    match c.thread spawned with
    | some ⟨session, .waiting⟩ =>
      if c.holder session = none then some (c.begin spawned session) else none
    | _ => none
  | .finish spawned =>
    match c.thread spawned with
    | some ⟨session, .running⟩ => some (c.finish e command spawned session)
    | _ => none
  | .receive => c.receive
  | .timeout => c.timeout
  | .tryExec =>
    match c.phase with
    | .executing session => c.tryExec e command session
    | _ => none
  | .othersLock session =>
    if c.holder session = none then
      some { c with holder := update c.holder session (some .others) }
    else none
  | .othersUnlock session runtime =>
    if c.holder session = some .others then
      some { c with
        runtimes := update c.runtimes session runtime
        holder := update c.holder session none }
    else none
  | .othersManage managed => some { c with managed := managed }

/-- What the fork and the call's waiting for it do. -/
def OfFork (c : Call σ ν) : Action σ ν → Prop
  | .tryFork => True
  | .refuse spawned _ | .begin spawned | .finish spawned => spawned = .fork
  | .receive | .timeout => c.phase = .awaitingFork
  | _ => False

theorem thread_setThread (c : Call σ ν) (spawned : Spawned) (stage : Stage) (session : Nat) :
    (c.setThread spawned stage session).thread spawned = some ⟨session, stage⟩ := by
  cases spawned <;> rfl

@[simp] theorem setThread_begun (c : Call σ ν) (spawned : Spawned) (stage : Stage)
    (session : Nat) : (c.setThread spawned stage session).begun = c.begun := by
  cases spawned <;> rfl

@[simp] theorem setThread_phase (c : Call σ ν) (spawned : Spawned) (stage : Stage)
    (session : Nat) : (c.setThread spawned stage session).phase = c.phase := by
  cases spawned <;> rfl

variable {c d : Call σ ν} {a : Action σ ν} {session : Nat} {spawned : Spawned}

theorem tryFork_cases (h : c.tryFork e command session = some d) :
    (∃ phase, d = { c with phase := phase } ∧ (phase = .falling ∨ phase = .asking session ∨
      ∃ answer, phase = .done answer)) ∨
      d = { c with phase := .awaitingFork, fork := some ⟨session, .waiting⟩ } := by
  unfold tryFork at h
  split at h
  · cases h
    exact .inl ⟨.falling, rfl, .inl rfl⟩
  · split at h
    · cases h
    · split at h
      · cases h
        exact .inr rfl
      · cases h
        exact .inl ⟨.asking session, rfl, .inr (.inl rfl)⟩
      · cases h
        exact .inl ⟨.done _, rfl, .inr (.inr ⟨_, rfl⟩)⟩

theorem tryExec_cases (h : c.tryExec e command session = some d) :
    d = { c with phase := .awaitingExec, exec := some ⟨session, .waiting⟩ } ∨
      d = { c with phase := .done .ofShell, begun := c.begun ++ [.shell] } ∨
        ∃ answer, d = { c with phase := .done answer } := by
  unfold tryExec at h
  split at h
  · cases h
  · split at h
    · split at h
      · cases h
        exact .inl rfl
      · cases h
        exact .inr (.inl rfl)
    · cases h
      exact .inr (.inr ⟨_, rfl⟩)
    · cases h
      exact .inr (.inr ⟨_, rfl⟩)

theorem receive_cases (h : c.receive = some d) :
    ∃ answer, d = { c with phase := .done answer } := by
  unfold receive at h
  split at h
  · split at h <;> cases h <;> exact ⟨_, rfl⟩
  · split at h <;> cases h <;> exact ⟨_, rfl⟩
  · cases h

theorem timeout_cases (h : c.timeout = some d) :
    c.phase = .awaitingFork ∧ d = { c with phase := .falling } ∨
      c.phase = .awaitingExec ∧
        ∃ managed, d = { c with phase := .done .timedOut, managed := managed } := by
  unfold timeout at h
  split at h
  · next hphase =>
    split at h
    · cases h
      exact .inl ⟨hphase, rfl⟩
    · cases h
  · next hphase =>
    split at h
    · split at h
      · cases h
        exact .inr ⟨hphase, _, rfl⟩
      · cases h
    · cases h
  · cases h

/-- A thread goes on from the stage that the step needs. -/
theorem thread_cases
    (ha : a = .begin spawned ∨ a = .finish spawned ∨ ∃ error, a = .refuse spawned error)
    (h : c.step e command a = some d) : ∃ session,
      (c.thread spawned = some ⟨session, .waiting⟩ ∧
        ((∃ error, d = c.setThread spawned (.refused error) session) ∨
          d = c.begin spawned session)) ∨
      (c.thread spawned = some ⟨session, .running⟩ ∧ d = c.finish e command spawned session) := by
  rcases ha with rfl | rfl | ⟨error, rfl⟩
  · dsimp only [step] at h
    split at h
    · next session hthread =>
      split at h
      · cases h
        exact ⟨session, .inl ⟨hthread, .inr rfl⟩⟩
      · cases h
    · cases h
  · dsimp only [step] at h
    split at h
    · next session hthread =>
      cases h
      exact ⟨session, .inr ⟨hthread, rfl⟩⟩
    · cases h
  · dsimp only [step] at h
    split at h
    · next session hthread =>
      cases h
      exact ⟨session, .inl ⟨hthread, .inl ⟨error, rfl⟩⟩⟩
    · cases h

/-- The sessions are left as they are: which are managed, and the state of each runtime. -/
theorem fork_keeps_sessions (h : c.step e command a = some d)
    (hfork : c.OfFork a) : d.runtimes = c.runtimes ∧ d.managed = c.managed := by
  have hthread : ∀ a : Action σ ν, c.step e command a = some d →
      (a = .begin .fork ∨ a = .finish .fork ∨ ∃ error, a = .refuse .fork error) →
      d.runtimes = c.runtimes ∧ d.managed = c.managed := by
    intro a h ha
    obtain ⟨session, ⟨-, ⟨error, rfl⟩ | rfl⟩ | ⟨-, rfl⟩⟩ := thread_cases e command ha h
    · exact ⟨rfl, rfl⟩
    · exact ⟨rfl, rfl⟩
    · exact ⟨rfl, rfl⟩
  cases a with
  | tryFork =>
    dsimp only [step] at h
    split at h
    · obtain ⟨phase, rfl, -⟩ | rfl := tryFork_cases e command h
      · exact ⟨rfl, rfl⟩
      · exact ⟨rfl, rfl⟩
    · cases h
  | refuse spawned error =>
    obtain rfl : spawned = .fork := hfork
    exact hthread _ h (.inr (.inr ⟨error, rfl⟩))
  | begin spawned =>
    obtain rfl : spawned = .fork := hfork
    exact hthread _ h (.inl rfl)
  | finish spawned =>
    obtain rfl : spawned = .fork := hfork
    exact hthread _ h (.inr (.inl rfl))
  | receive =>
    obtain ⟨answer, rfl⟩ := receive_cases h
    exact ⟨rfl, rfl⟩
  | timeout =>
    obtain ⟨-, rfl⟩ | ⟨hphase, -⟩ := timeout_cases h
    · exact ⟨rfl, rfl⟩
    · have hother : c.phase = .awaitingFork := hfork
      rw [hphase] at hother
      cases hother
  | opened session => cases hfork
  | approve answer => cases hfork
  | tryExec => cases hfork
  | othersLock session => cases hfork
  | othersUnlock session runtime => cases hfork
  | othersManage managed => cases hfork

/-- Nothing has been spawned yet, or all that has been spawned has been given up. -/
def Phase.Early : Phase → Prop
  | .starting | .trying _ | .asking _ | .falling | .executing _ => True
  | .awaitingFork | .awaitingExec | .done _ => False

def Spawned.other : Spawned → Spawned
  | .fork => .exec
  | .exec => .fork

theorem other_setThread (c : Call σ ν) (spawned : Spawned) (stage : Stage) (session : Nat) :
    (c.setThread spawned stage session).thread (Spawned.other spawned) =
      c.thread (Spawned.other spawned) := by
  cases spawned <;> rfl

structure Single (c : Call σ ν) : Prop where
  early : Phase.Early c.phase → c.fork = none ∧ c.exec = none ∧ c.begun = []
  waits : ∀ spawned session, c.thread spawned = some ⟨session, .waiting⟩ →
    c.begun = [] ∧ c.thread (Spawned.other spawned) = none
  few : c.begun.length ≤ 1

/-- The time limit runs out while the call waits for the fork. -/
def TimesOut (c : Call σ ν) (a : Action σ ν) : Prop := a = .timeout ∧ c.phase = .awaitingFork

theorem thread_none (h : c.fork = none ∧ c.exec = none) (spawned : Spawned) :
    c.thread spawned = none := by
  cases spawned with
  | fork => exact h.1
  | exec => exact h.2

/-- Before anything is spawned. -/
theorem Single.of_none (h : c.fork = none ∧ c.exec = none ∧ c.begun = []) :
    c.Single where
  early := fun _ => h
  waits := fun spawned session hwaiting => by
    rw [thread_none ⟨h.1, h.2.1⟩ spawned] at hwaiting
    cases hwaiting
  few := by rw [h.2.2]; exact Nat.zero_le 1

/-- Where the call's threads stay as they are. -/
theorem Single.of_phase (hc : c.Single)
    (hearly : Phase.Early d.phase → Phase.Early c.phase) (hfork : d.fork = c.fork)
    (hexec : d.exec = c.exec) (hbegun : d.begun = c.begun) : d.Single where
  early := fun h => by
    rw [hfork, hexec, hbegun]
    exact hc.early (hearly h)
  waits := by
    have hthread : ∀ spawned, d.thread spawned = c.thread spawned := by
      rintro (_ | _)
      · exact hfork
      · exact hexec
    intro spawned session h
    rw [hthread, hbegun]
    exact hc.waits spawned session (hthread spawned ▸ h)
  few := hbegun ▸ hc.few

/-- The first thread of all. -/
theorem Single.of_first (spawned : Spawned) (hlate : ¬ Phase.Early c.phase)
    (hother : c.thread (Spawned.other spawned) = none) (hbegun : c.begun = []) : c.Single where
  early := fun h => absurd h hlate
  waits := by
    intro spawned' session hwaiting
    by_cases hsame : spawned' = spawned
    · exact ⟨hbegun, hsame ▸ hother⟩
    · have heq : spawned' = Spawned.other spawned := by
        cases spawned <;> cases spawned' <;> first | rfl | exact absurd rfl hsame
      rw [heq, hother] at hwaiting
      cases hwaiting
  few := by rw [hbegun]; exact Nat.zero_le 1

/-- One of two threads goes on. -/
theorem Single.of_thread {session' : Nat}
    {stage stage' : Stage} (hc : c.Single) (hsome : c.thread spawned = some ⟨session, stage⟩)
    (hthread : d.thread spawned = some ⟨session', stage'⟩) (hstage : stage' ≠ .waiting)
    (hother : d.thread (Spawned.other spawned) = c.thread (Spawned.other spawned))
    (hphase : d.phase = c.phase) (hfew : d.begun.length ≤ 1) : d.Single where
  early := by
    intro hearly
    obtain ⟨hfork, hexec, -⟩ := hc.early (hphase ▸ hearly)
    rw [thread_none ⟨hfork, hexec⟩ spawned] at hsome
    cases hsome
  waits := by
    intro spawned' session'' hwaiting
    by_cases hsame : spawned' = spawned
    · subst hsame
      rw [hthread] at hwaiting
      cases hwaiting
      exact absurd rfl hstage
    · have heq : spawned' = Spawned.other spawned := by
        cases spawned <;> cases spawned' <;> first | rfl | exact absurd rfl hsame
      subst heq
      have hnone := (hc.waits _ _ (hother ▸ hwaiting)).2
      have hback : Spawned.other (Spawned.other spawned) = spawned := by cases spawned <;> rfl
      rw [hback, hsome] at hnone
      cases hnone
  few := hfew

theorem single_step (hok : ¬ c.TimesOut a)
    (h : c.step e command a = some d) (hc : c.Single) : d.Single := by
  have hthread : ∀ spawned, a = .begin spawned ∨ a = .finish spawned ∨
      (∃ error, a = .refuse spawned error) → d.Single := by
    intro spawned ha
    obtain ⟨session, ⟨hwaiting, ⟨error, rfl⟩ | rfl⟩ | ⟨hrunning, rfl⟩⟩ :=
      thread_cases e command ha h
    · refine hc.of_thread hwaiting (thread_setThread c spawned (.refused error) session)
        Stage.noConfusion (other_setThread c spawned _ session)
        (setThread_phase c spawned _ session) ?_
      rw [setThread_begun]
      exact hc.few
    · refine hc.of_thread hwaiting (thread_setThread c spawned .running session) Stage.noConfusion
        (other_setThread c spawned .running session) (setThread_phase c spawned .running session) ?_
      have hnone := (hc.waits spawned session hwaiting).1
      rw [begin, hnone]
      exact Nat.le_refl 1
    · cases spawned with
      | fork => exact hc.of_thread hrunning rfl Stage.noConfusion rfl rfl hc.few
      | exec => exact hc.of_thread hrunning rfl Stage.noConfusion rfl rfl hc.few
  cases a with
  | opened session =>
    dsimp only [step] at h
    split at h
    · next hphase =>
      cases h
      exact .of_none (hc.early (by rw [hphase]; trivial))
    · next hphase =>
      cases h
      exact .of_none (hc.early (by rw [hphase]; trivial))
    · cases h
  | tryFork =>
    dsimp only [step] at h
    split at h
    · next session hphase =>
      have hnone := hc.early (by rw [hphase]; trivial)
      obtain ⟨phase, rfl, -⟩ | rfl := tryFork_cases e command h
      · exact .of_none hnone
      · exact .of_first .fork False.elim hnone.2.1 hnone.2.2
    · cases h
  | approve answer =>
    dsimp only [step] at h
    split at h
    · next session hphase =>
      have hnone := hc.early (by rw [hphase]; trivial)
      cases h
      rcases answer with _ | _ | _
      · exact .of_none hnone
      · exact .of_none hnone
      · exact .of_none hnone
    · cases h
  | refuse spawned error => exact hthread spawned (.inr (.inr ⟨error, rfl⟩))
  | begin spawned => exact hthread spawned (.inl rfl)
  | finish spawned => exact hthread spawned (.inr (.inl rfl))
  | receive =>
    obtain ⟨answer, rfl⟩ := receive_cases h
    exact hc.of_phase False.elim rfl rfl rfl
  | timeout =>
    obtain ⟨hphase, -⟩ | ⟨-, managed, rfl⟩ := timeout_cases h
    · exact absurd ⟨rfl, hphase⟩ hok
    · exact hc.of_phase False.elim rfl rfl rfl
  | tryExec =>
    dsimp only [step] at h
    split at h
    · next session hphase =>
      have hnone := hc.early (by rw [hphase]; trivial)
      obtain rfl | rfl | ⟨answer, rfl⟩ := tryExec_cases e command h
      · exact .of_first .exec False.elim hnone.1 hnone.2.2
      · refine ⟨fun h => h.elim, fun spawned session hwaiting => ?_, ?_⟩
        · have hthread := thread_none ⟨hnone.1, hnone.2.1⟩ spawned
          cases spawned with
          | fork => cases hthread.symm.trans hwaiting
          | exec => cases hthread.symm.trans hwaiting
        · rw [hnone.2.2]
          exact Nat.le_refl 1
      · exact .of_none hnone
    · cases h
  | othersLock session =>
    dsimp only [step] at h
    split at h
    · cases h
      exact hc.of_phase id rfl rfl rfl
    · cases h
  | othersUnlock session runtime =>
    dsimp only [step] at h
    split at h
    · cases h
      exact hc.of_phase id rfl rfl rfl
    · cases h
  | othersManage managed =>
    cases h
    exact hc.of_phase id rfl rfl rfl

/-- The call of a tool, before it has done anything. -/
def Fresh (c : Call σ ν) : Prop :=
  c.phase = .starting ∧ c.fork = none ∧ c.exec = none ∧ c.begun = []

/-- As long as the time limit does not run out while the call waits for its fork, the command is
evaluated once at most; and in any run the fork leaves the sessions as they are. -/
theorem command_once {c d : Call σ ν} {as : List (Action σ ν)} (hfresh : c.Fresh)
    (h : Steps (step e command) (fun c a => ¬ c.TimesOut a) c as d) :
    Throughout (step e command) (fun c => c.begun.length ≤ 1) c as ∧
      ∀ c' a d', step e command c' a = some d' → c'.OfFork a →
        d'.runtimes = c'.runtimes ∧ d'.managed = c'.managed :=
  ⟨h.throughout (fun _ _ _ hok hs hc => single_step e command hok hs hc) (fun _ hc => hc.few)
    (.of_none hfresh.2), fun _ _ _ hs hfork => fork_keeps_sessions e command hs hfork⟩

def sampleCall : Call Unit Unit :=
  ⟨fun _ => echoRuntime, [0], fun _ => none, some .never, .starting, none, none, []⟩

/-- A command whose fork answers in time. -/
theorem command_once_sample : Throughout (step echoEngine "ls") (fun c => c.begun.length ≤ 1)
    sampleCall [.opened 0, .tryFork, .begin .fork, .finish .fork, .receive] :=
  (command_once echoEngine "ls" ⟨rfl, rfl, rfl, rfl⟩
    (.head (by simp [TimesOut]) rfl (.head (by simp [TimesOut]) rfl (.head (by simp [TimesOut]) rfl
      (.head (by simp [TimesOut]) rfl (.head (by simp [TimesOut]) rfl (.refl _))))))).1

theorem command_twice : ¬ ∀ (σ ν : Type) (e : Engine σ ν) (command : String) (c d : Call σ ν)
    (as : List (Action σ ν)), c.Fresh → Steps (step e command) (fun _ _ => True) c as d →
      Throughout (step e command) (fun c => c.begun.length ≤ 1) c as := by
  intro hall
  have hsteps : Steps (step echoEngine "ls") (fun _ _ => True) sampleCall [.opened 0, .tryFork,
      .begin .fork, .timeout, .opened 0, .finish .fork, .tryExec, .begin .exec] _ :=
    steps_of_run rfl
  have hend := hall Unit Unit echoEngine "ls" sampleCall _ _ ⟨rfl, rfl, rfl, rfl⟩ hsteps _ _
    prefix_rfl rfl
  revert hend
  decide

end Call

end ColossalCode.Nu
