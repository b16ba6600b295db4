import ColossalCode.PlanView.View
import ColossalCode.Transition.Run

/-! When the plan, the session list and the active step mirror the events of a run. -/
namespace ColossalCode.PlanView
open List Option

open Orchestrator (OrchestratorEvent StepRole composePrefix)
open Protocol (SpecSheet SpecStep StepStatus TaskSummary)
open Transition

/-- The view beside what it was told: the plan as its run began with it, the last status of each
prefix in the events of the run, and whether the run goes on. -/
structure Watched where
  view : View
  plan : Option SpecSheet
  told : String → Option StepStatus
  running : Bool

inductive Action where
  | start (spec : SpecSheet)
  | event (event : OrchestratorEvent)

def Watched.hearStatus (s : Watched) (specId stepIndex stepPrefix : String) (role : StepRole)
    (status : StepStatus) : Watched :=
  { s with
    view := s.view.stepStatusChanged specId stepIndex stepPrefix role status
    told := fun other => if other = stepPrefix then some status else s.told other }

def Watched.hear (s : Watched) : OrchestratorEvent → Watched
  | .stepStatusChanged specId _ stepIndex _ stepPrefix role status =>
    s.hearStatus specId stepIndex stepPrefix role status
  | .completed => { s with view := s.view.handleOrchestratorEvent .completed, running := false }
  | .aborted => { s with view := s.view.handleOrchestratorEvent .aborted, running := false }
  | .error message =>
    { s with view := s.view.handleOrchestratorEvent (.error message), running := false }
  | event => { s with view := s.view.handleOrchestratorEvent event }

def step (s : Watched) : Action → Option Watched
  | .start spec =>
    some { view := s.view.startRun spec, plan := some spec, told := fun _ => none, running := true }
  | .event event => some (s.hear event)

/-- No run has been yet. -/
def Watched.init : Watched where
  view :=
    { currentSpec := none, sessions := [], sessionTree := [], activeStepPrefix := none
      orchestratorTask := false, orchestratorControl := false, orchestratorEventRx := false
      orchestratorPaused := false, orchestrationInProgress := false, stepToolCalls := []
      activeToolCall := none, nextToolCallId := 0, subAgentContexts := [], latestSummaries := []
      orchestratorHistory := [] }
  plan := none
  told := fun _ => none
  running := false

/-- Nothing of a run remains. -/
structure View.Cleared (v : View) : Prop where
  task : v.orchestratorTask = false
  control : v.orchestratorControl = false
  eventRx : v.orchestratorEventRx = false
  active : v.activeStepPrefix = none
  sessions : v.sessions = []
  tree : v.sessionTree = []
  toolCalls : v.stepToolCalls = []
  contexts : v.subAgentContexts = []
  summaries : v.latestSummaries = []
  history : v.orchestratorHistory = []

/-- Each line of the plan shows the last status that its prefix was told, and else the one that it
began with. -/
def Watched.PlanShows (s : Watched) : Prop :=
  ∀ spec, s.view.currentSpec = some spec → ∃ initial, s.plan = some initial ∧
    ∀ place stepPrefix status, rowAt "" spec.steps place = some (stepPrefix, status) →
      ∃ before, rowAt "" initial.steps place = some (stepPrefix, before) ∧
        status = (s.told stepPrefix).getD before

/-- The session list shows the last status of each prefix that was told one, and no other. -/
structure Watched.SessionsShow (s : Watched) : Prop where
  right : ∀ stepPrefix status, Listed s.view.sessionTree stepPrefix status →
    status = ((s.told stepPrefix).map sessionStatus).getD .pending
  listed : ∀ stepPrefix status, s.told stepPrefix = some status →
    Listed s.view.sessionTree stepPrefix (sessionStatus status)

def Watched.ActiveShows (s : Watched) : Prop :=
  (∃ stepPrefix, s.told stepPrefix = some .inProgress) →
    ∃ stepPrefix, s.view.activeStepPrefix = some stepPrefix ∧
      s.told stepPrefix = some .inProgress

structure Watched.Mirrors (s : Watched) : Prop where
  plan : s.PlanShows
  sessions : s.running = true → s.SessionsShow
  active : s.running = true → s.ActiveShows
  cleared : s.running = false → s.view.Cleared

/-- The line that a status event changes: the first step with its index in the plan itself. -/
def changedPlace (specId stepIndex : String) (spec : SpecSheet) : Option (List Nat) :=
  if spec.id = specId then (spec.steps.findIdx? (·.index = stepIndex)).map ([·]) else none

/-- The event changes the line of its own prefix and no other, as far as its status is new. -/
def InPlan (spec : SpecSheet) (specId stepIndex stepPrefix : String) (status : StepStatus) : Prop :=
  ∀ place row before, rowAt "" spec.steps place = some (row, before) →
    (changedPlace specId stepIndex spec = some place → row = stepPrefix ∨ before = status) ∧
    (changedPlace specId stepIndex spec ≠ some place → row = stepPrefix → before = status)

/-- The specification that the entry of a prefix is listed under. -/
def ownSpec (specId stepPrefix : String) (sessions : List OrchestratorEntry) : String :=
  ((sessions.find? (·.stepPrefix = stepPrefix)).map (·.specId)).getD specId

/-- No step of one specification stands above a step of another, unless it is pending. -/
def InTree (sessions : List OrchestratorEntry) (specId stepPrefix : String) (status : StepStatus) :
    Prop :=
  ∀ entry ∈ sessions, entry.stepPrefix ≠ stepPrefix →
    entry.specId ≠ ownSpec specId stepPrefix sessions →
      (segments stepPrefix <+: segments entry.stepPrefix → status = .pending) ∧
      (segments entry.stepPrefix <+: segments stepPrefix → entry.status = .pending)

/-- The active step does not settle while another is in progress. -/
def InTurn (v : View) (stepPrefix : String) (status : StepStatus) : Prop :=
  status ≠ .inProgress → v.activeStepPrefix = some stepPrefix →
    ∀ entry ∈ v.sessions, entry.status = .inProgress → entry.stepPrefix = stepPrefix

def Follows (s : Watched) : Action → Prop
  | .start _ => True
  | .event (.stepStatusChanged specId _ stepIndex _ stepPrefix _ status) =>
    s.running = true ∧ stepPrefix ≠ "" ∧
      (∀ spec, s.view.currentSpec = some spec → InPlan spec specId stepIndex stepPrefix status) ∧
      InTree s.view.sessions specId stepPrefix status ∧ InTurn s.view stepPrefix status
  | .event (.error _) => s.view.Cleared
  | .event (.toolCallStarted _ _ _) | .event (.agentMessage _ _) | .event (.summaryUpdated _)
  | .event (.verifierFailed _ _) => s.running = true
  | .event _ => True

section Entries

variable {specId stepPrefix : String} {role : SessionRole} {status : SessionStatus}
  {sessions : List OrchestratorEntry} {entry : OrchestratorEntry}

/-- The entry of a prefix after its status was told. -/
def toldEntry (specId stepPrefix : String) (role : SessionRole) (status : SessionStatus)
    (sessions : List OrchestratorEntry) : OrchestratorEntry where
  specId := ownSpec specId stepPrefix sessions
  stepPrefix := stepPrefix
  role := role
  status := status

theorem mem_upsertEntry (hdistinct : (sessions.map (·.stepPrefix)).Nodup) :
    entry ∈ upsertEntry specId stepPrefix role status sessions ↔
      (entry ∈ sessions ∧ entry.stepPrefix ≠ stepPrefix) ∨
        entry = toldEntry specId stepPrefix role status sessions := by
  induction sessions with
  | nil => simp [upsertEntry, toldEntry, ownSpec]
  | cons first rest ih =>
    rw [map_cons, nodup_cons] at hdistinct
    rw [upsertEntry]
    by_cases hfirst : first.stepPrefix = stepPrefix
    · have hown : toldEntry specId stepPrefix role status (first :: rest) =
          { first with role := role, status := status } := by
        simp [toldEntry, ownSpec, hfirst]
      have hrest : ∀ other ∈ rest, other.stepPrefix ≠ stepPrefix := by
        intro other hother hsame
        exact hdistinct.1 (mem_map.mpr ⟨other, hother, hsame.trans hfirst.symm⟩)
      rw [if_pos hfirst, hown, mem_cons, mem_cons]
      constructor
      · rintro (hsame | hentry)
        · exact .inr hsame
        · exact .inl ⟨.inr hentry, hrest entry hentry⟩
      · rintro (⟨rfl | hentry, hne⟩ | hsame)
        · exact absurd hfirst hne
        · exact .inr hentry
        · exact .inl hsame
    · have hown : toldEntry specId stepPrefix role status (first :: rest) =
          toldEntry specId stepPrefix role status rest := by
        simp [toldEntry, ownSpec, hfirst]
      rw [if_neg hfirst, hown, mem_cons, ih hdistinct.2, mem_cons]
      constructor
      · rintro (rfl | ⟨hentry, hne⟩ | hsame)
        · exact .inl ⟨.inl rfl, hfirst⟩
        · exact .inl ⟨.inr hentry, hne⟩
        · exact .inr hsame
      · rintro (⟨rfl | hentry, hne⟩ | hsame)
        · exact .inl rfl
        · exact .inr (.inl ⟨hentry, hne⟩)
        · exact .inr (.inr hsame)

theorem upsertEntry_distinct (hdistinct : (sessions.map (·.stepPrefix)).Nodup) :
    ((upsertEntry specId stepPrefix role status sessions).map (·.stepPrefix)).Nodup := by
  induction sessions with
  | nil => simp [upsertEntry]
  | cons first rest ih =>
    rw [map_cons, nodup_cons] at hdistinct
    rw [upsertEntry]
    by_cases hfirst : first.stepPrefix = stepPrefix
    · rw [if_pos hfirst, map_cons, nodup_cons]
      exact hdistinct
    · rw [if_neg hfirst, map_cons, nodup_cons]
      refine ⟨?_, ih hdistinct.2⟩
      intro hmem
      obtain ⟨other, hother, hsame⟩ := mem_map.mp hmem
      rcases (mem_upsertEntry hdistinct.2).mp hother with ⟨hother, -⟩ | rfl
      · exact hdistinct.1 (mem_map.mpr ⟨other, hother, hsame⟩)
      · exact hfirst hsame.symm

end Entries

/-- What holds between the view and what it was told, as long as each event follows. -/
structure Watched.Kept (s : Watched) : Prop where
  plan : s.PlanShows
  tree : s.view.sessionTree = sessionsOf s.view.sessions
  named : ∀ entry ∈ s.view.sessions, entry.stepPrefix ≠ ""
  distinct : (s.view.sessions.map (·.stepPrefix)).Nodup
  entries : s.running = true → ∀ entry ∈ s.view.sessions,
    ∃ status, s.told entry.stepPrefix = some status ∧ entry.status = sessionStatus status
  told : s.running = true → ∀ stepPrefix status, s.told stepPrefix = some status →
    ∃ entry ∈ s.view.sessions, entry.stepPrefix = stepPrefix
  apart : ∀ upper ∈ s.view.sessions, ∀ lower ∈ s.view.sessions, upper.specId ≠ lower.specId →
    segments upper.stepPrefix <+: segments lower.stepPrefix → upper.status = .pending
  active : s.running = true → s.ActiveShows
  cleared : s.running = false → s.view.Cleared

/-- The active step after a status. -/
def activeAfter (stepPrefix : String) (status : StepStatus) (active : Option String) :
    Option String :=
  if status = .inProgress then some stepPrefix
  else if active = some stepPrefix then none else active

theorem View.updateActive_eq (v : View) (stepPrefix : String) (status : StepStatus) :
    v.updateActive stepPrefix status =
      { v with activeStepPrefix := activeAfter stepPrefix status v.activeStepPrefix } := by
  by_cases hactive : v.activeStepPrefix = some stepPrefix
  · cases status <;> simp [View.updateActive, activeAfter, hactive]
  · cases status <;> simp [View.updateActive, activeAfter, hactive]

/-- All that a status event changes. -/
theorem View.stepStatusChanged_eq (v : View) (specId stepIndex stepPrefix : String)
    (role : StepRole) (status : StepStatus) :
    v.stepStatusChanged specId stepIndex stepPrefix role status =
      { v with
        currentSpec := v.currentSpec.map (setSpecStatus specId stepIndex status)
        sessions :=
          upsertEntry specId stepPrefix (sessionRole role) (sessionStatus status) v.sessions
        sessionTree := sessionsOf
          (upsertEntry specId stepPrefix (sessionRole role) (sessionStatus status) v.sessions)
        activeStepPrefix := activeAfter stepPrefix status v.activeStepPrefix } := by
  rw [View.stepStatusChanged, View.updateActive_eq, View.syncSession]

section Kept

variable {s t : Watched} {a : Action}

/-- The session list of entries that are told shows what they are told. -/
theorem Watched.Kept.sessionsShow (h : s.Kept) (hrunning : s.running = true) : s.SessionsShow where
  right := by
    intro stepPrefix status hlisted
    rw [h.tree] at hlisted
    rcases listed_entry h.named h.distinct hlisted with
      ⟨entry, hentry, rfl, rfl⟩ | ⟨rfl, lower, hlower, habove, hother⟩
    · obtain ⟨told, htold, hstatus⟩ := h.entries hrunning entry hentry
      rw [htold, map_some, getD_some, hstatus]
    · cases htold : s.told stepPrefix with
      | none => rfl
      | some told =>
        obtain ⟨upper, hupper, rfl⟩ := h.told hrunning stepPrefix told htold
        obtain ⟨same, hsame, hstatus⟩ := h.entries hrunning upper hupper
        rw [← h.apart upper hupper lower hlower (hother upper hupper rfl) habove, hstatus,
          some.inj (htold.symm.trans hsame)]
        rfl
  listed := by
    intro stepPrefix status htold
    obtain ⟨entry, hentry, rfl⟩ := h.told hrunning stepPrefix status htold
    obtain ⟨same, hsame, hstatus⟩ := h.entries hrunning entry hentry
    rw [h.tree, some.inj (htold.symm.trans hsame), ← hstatus]
    exact entry_listed h.named h.distinct hentry

theorem Watched.Kept.mirrors (h : s.Kept) : s.Mirrors where
  plan := h.plan
  active := h.active
  cleared := h.cleared
  sessions := h.sessionsShow

theorem kept_init : Watched.init.Kept where
  plan := fun _ hspec => by cases hspec
  tree := rfl
  named := fun _ h => absurd h not_mem_nil
  distinct := nodup_nil
  entries := fun h => by cases h
  told := fun h => by cases h
  apart := fun _ h => absurd h not_mem_nil
  active := fun h => by cases h
  cleared := fun _ => ⟨rfl, rfl, rfl, rfl, rfl, rfl, rfl, rfl, rfl, rfl⟩

theorem kept_start (v : View) (spec : SpecSheet) :
    Watched.Kept { view := v.startRun spec, plan := some spec, told := fun _ => none
                   running := true } where
  plan := by
    intro current hcurrent
    obtain rfl : spec = current := some.inj hcurrent
    exact ⟨spec, rfl, fun place stepPrefix status hrow => ⟨status, hrow, rfl⟩⟩
  tree := rfl
  named := fun _ h => absurd h not_mem_nil
  distinct := nodup_nil
  entries := fun _ _ h => absurd h not_mem_nil
  told := fun _ _ _ h => by cases h
  apart := fun _ h => absurd h not_mem_nil
  active := by
    rintro - ⟨stepPrefix, h⟩
    cases h
  cleared := fun h => by cases h

/-- An event that changes neither the plan, nor the entries, nor the active step. -/
theorem Watched.Kept.congr (h : s.Kept) (hspec : t.view.currentSpec = s.view.currentSpec)
    (hplan : t.plan = s.plan) (htold : t.told = s.told) (hrunning : t.running = s.running)
    (hsessions : t.view.sessions = s.view.sessions)
    (htree : t.view.sessionTree = s.view.sessionTree)
    (hactive : t.view.activeStepPrefix = s.view.activeStepPrefix)
    (hcleared : s.running = false → t.view.Cleared) : t.Kept where
  plan := by
    rw [Watched.PlanShows, hspec, hplan, htold]
    exact h.plan
  tree := by rw [htree, hsessions, h.tree]
  named := hsessions ▸ h.named
  distinct := hsessions ▸ h.distinct
  entries := by
    rw [hrunning, hsessions, htold]
    exact h.entries
  told := by
    rw [hrunning, hsessions, htold]
    exact h.told
  apart := hsessions ▸ h.apart
  active := by
    rw [hrunning, Watched.ActiveShows, htold, hactive]
    exact h.active
  cleared := hrunning ▸ hcleared

theorem stopped_cleared (v : View) : v.stopped.Cleared :=
  ⟨rfl, rfl, rfl, rfl, rfl, rfl, rfl, rfl, rfl, rfl⟩

/-- Once the view is cleared, the run has ended well. -/
theorem kept_of_cleared (h : s.Kept) {v : View} (hspec : v.currentSpec = s.view.currentSpec)
    (hcleared : v.Cleared) : Watched.Kept { s with view := v, running := false } where
  plan := by
    rw [Watched.PlanShows, hspec]
    exact h.plan
  tree := by
    rw [hcleared.tree, hcleared.sessions]
    rfl
  named := by
    rw [hcleared.sessions]
    exact fun _ h => absurd h not_mem_nil
  distinct := by
    rw [hcleared.sessions]
    exact nodup_nil
  entries := fun h => by cases h
  told := fun h => by cases h
  apart := by
    rw [hcleared.sessions]
    exact fun _ h => absurd h not_mem_nil
  active := fun h => by cases h
  cleared := fun _ => hcleared

end Kept

section StatusEvents

variable {s : Watched} {specId specTitle stepIndex stepTitle stepPrefix : String} {role : StepRole}
  {status : StepStatus}

theorem rowAt_setSpecStatus (spec : SpecSheet) (place : List Nat) :
    rowAt "" (setSpecStatus specId stepIndex status spec).steps place =
      if changedPlace specId stepIndex spec = some place then
        (rowAt "" spec.steps place).map fun row => (row.1, status)
      else rowAt "" spec.steps place := by
  by_cases hspec : spec.id = specId
  · rw [setSpecStatus, if_pos hspec, changedPlace, if_pos hspec]
    exact rowAt_setStepStatus stepIndex status spec.steps "" place
  · rw [setSpecStatus, if_neg hspec, changedPlace, if_neg hspec]
    exact (if_neg (by simp)).symm

theorem status_plan (role : StepRole) (h : s.PlanShows)
    (hplan : ∀ spec, s.view.currentSpec = some spec →
      InPlan spec specId stepIndex stepPrefix status) :
    (s.hearStatus specId stepIndex stepPrefix role status).PlanShows := by
  intro spec' hspec'
  rw [Watched.hearStatus, View.stepStatusChanged_eq] at hspec'
  obtain ⟨spec, hspec, rfl⟩ := map_eq_some_iff.mp hspec'
  obtain ⟨initial, hinitial, hshows⟩ := h spec hspec
  refine ⟨initial, hinitial, fun place row shown hrow => ?_⟩
  rw [rowAt_setSpecStatus] at hrow
  have hin := hplan spec hspec place row
  by_cases hchanged : changedPlace specId stepIndex spec = some place
  · rw [if_pos hchanged, map_eq_some_iff] at hrow
    obtain ⟨⟨line, before⟩, hbefore, hsame⟩ := hrow
    cases hsame
    obtain ⟨first, hfirst, hlast⟩ := hshows place line before hbefore
    refine ⟨first, hfirst, ?_⟩
    show status = (if line = stepPrefix then some status else s.told line).getD first
    by_cases hown : line = stepPrefix
    · rw [if_pos hown, getD_some]
    · rw [if_neg hown, ← hlast]
      exact (((hin before hbefore).1 hchanged).resolve_left hown).symm
  · rw [if_neg hchanged] at hrow
    obtain ⟨first, hfirst, hlast⟩ := hshows place row shown hrow
    refine ⟨first, hfirst, ?_⟩
    show shown = (if row = stepPrefix then some status else s.told row).getD first
    by_cases hown : row = stepPrefix
    · rw [if_pos hown, getD_some]
      exact (hin shown hrow).2 hchanged hown
    · rw [if_neg hown]
      exact hlast

theorem status_active (specId stepIndex : String) (role : StepRole) (h : s.Kept)
    (hrunning : s.running = true) (hturn : InTurn s.view stepPrefix status) :
    (s.hearStatus specId stepIndex stepPrefix role status).ActiveShows := by
  rw [Watched.hearStatus, View.stepStatusChanged_eq, Watched.ActiveShows]
  dsimp only
  by_cases hstarts : status = .inProgress
  · exact fun _ => ⟨stepPrefix, by rw [activeAfter, if_pos hstarts], by rw [if_pos rfl, hstarts]⟩
  rintro ⟨going, hgoing⟩
  have hother : going ≠ stepPrefix := by
    rintro rfl
    rw [if_pos rfl] at hgoing
    exact hstarts (some.inj hgoing)
  rw [if_neg hother] at hgoing
  obtain ⟨active, hactive, htold⟩ := h.active hrunning ⟨going, hgoing⟩
  have hne : active ≠ stepPrefix := by
    rintro rfl
    obtain ⟨entry, hentry, rfl⟩ := h.told hrunning going _ hgoing
    obtain ⟨same, hsame, hstatus⟩ := h.entries hrunning entry hentry
    obtain rfl := some.inj (hgoing.symm.trans hsame)
    exact hother (hturn hstarts hactive entry hentry hstatus)
  refine ⟨active, ?_, by rw [if_neg hne, htold]⟩
  rw [activeAfter, if_neg hstarts, hactive, if_neg (fun hsame => hne (some.inj hsame))]

/-- A status event that follows keeps the view and what it was told together. -/
theorem kept_status (h : s.Kept)
    (hok : Follows s
      (.event (.stepStatusChanged specId specTitle stepIndex stepTitle stepPrefix role status))) :
    (s.hearStatus specId stepIndex stepPrefix role status).Kept := by
  obtain ⟨hrunning, hnamed, hplan, htree, hturn⟩ := hok
  have hactive := status_active specId stepIndex role h hrunning hturn
  have hshows := status_plan role h.plan hplan
  have hmem : ∀ entry, entry ∈ upsertEntry specId stepPrefix (sessionRole role)
      (sessionStatus status) s.view.sessions ↔ _ := fun entry => mem_upsertEntry h.distinct
  rw [Watched.hearStatus, View.stepStatusChanged_eq] at hactive hshows ⊢
  refine ⟨hshows, rfl, ?_, upsertEntry_distinct h.distinct, ?_, ?_, ?_, fun _ => hactive, ?_⟩
  · intro entry hentry
    rcases (hmem entry).mp hentry with ⟨hold, -⟩ | rfl
    · exact h.named entry hold
    · exact hnamed
  · intro _ entry hentry
    rcases (hmem entry).mp hentry with ⟨hold, hne⟩ | rfl
    · dsimp only
      rw [if_neg hne]
      exact h.entries hrunning entry hold
    · exact ⟨status, if_pos rfl, rfl⟩
  · intro _ other told htold
    dsimp only at htold
    by_cases hother : other = stepPrefix
    · exact ⟨_, (hmem _).mpr (.inr rfl), hother.symm⟩
    · rw [if_neg hother] at htold
      obtain ⟨entry, hentry, hbeneath⟩ := h.told hrunning other told htold
      exact ⟨entry, (hmem entry).mpr (.inl ⟨hentry, hbeneath ▸ hother⟩), hbeneath⟩
  · intro upper hupper lower hlower hspec habove
    rcases (hmem upper).mp hupper with ⟨hupper, hupperNe⟩ | rfl
    · rcases (hmem lower).mp hlower with ⟨hlower, -⟩ | rfl
      · exact h.apart upper hupper lower hlower hspec habove
      · exact (htree upper hupper hupperNe hspec).2 habove
    · rcases (hmem lower).mp hlower with ⟨hlower, hlowerNe⟩ | rfl
      · have hpending := (htree lower hlower hlowerNe (fun hsame => hspec hsame.symm)).1 habove
        exact congrArg sessionStatus hpending
      · exact absurd rfl hspec
  · intro hended
    exact absurd hended (by simp [hrunning])

end StatusEvents

section Runs

variable {s t : Watched} {a : Action} {as : List Action}

theorem step_kept (hok : Follows s a) (h : step s a = some t) (hs : s.Kept) : t.Kept := by
  cases a with
  | start spec =>
    cases h
    exact kept_start s.view spec
  | event event =>
    cases h
    cases event with
    | stepStatusChanged specId specTitle stepIndex stepTitle stepPrefix role status =>
      exact kept_status hs hok
    | completed | aborted => exact kept_of_cleared hs rfl (stopped_cleared s.view)
    | error message =>
      exact kept_of_cleared hs rfl ⟨hok.task, hok.control, hok.eventRx, hok.active, hok.sessions,
        hok.tree, hok.toolCalls, hok.contexts, hok.summaries, hok.history⟩
    | summaryUpdated summary | verifierFailed summary feedback
    | toolCallStarted stepPrefix toolName arguments | agentMessage stepPrefix message =>
      refine hs.congr rfl rfl rfl rfl rfl rfl rfl fun hended => ?_
      exact absurd hended (by simp [show s.running = true from hok])
    | childSpecPushed _ _ _ | channelClosed _ | stepCancelled _ => exact hs
    | paused | resumed =>
      refine hs.congr rfl rfl rfl rfl rfl rfl rfl fun hended => ?_
      exact { hs.cleared hended with }
    | toolCallCompleted stepPrefix toolName result isError =>
      have hhear : s.hear (.toolCallCompleted stepPrefix toolName result isError) =
          { s with view := s.view.toolCallCompleted stepPrefix isError } := rfl
      rw [hhear, View.toolCallCompleted]
      cases s.view.activeToolCall with
      | none => exact hs
      | some call =>
        refine hs.congr rfl rfl rfl rfl rfl rfl rfl fun hended => ?_
        have hcleared := hs.cleared hended
        refine { hcleared with toolCalls := ?_ }
        dsimp only
        rw [hcleared.toolCalls, map_nil, ite_self]

/-- In every run of events each of which follows, the view mirrors what it was told in every
state. -/
theorem view_mirrors (h : Steps step Follows .init as s) :
    Throughout step Watched.Mirrors .init as :=
  h.throughout (fun _ _ _ hok hstep hs => step_kept hok hstep hs) (fun _ hs => hs.mirrors) kept_init

end Runs

/-- In a plan without nested steps, whose indices differ, the events of its own steps change their
own lines. -/
theorem inPlan_flat {spec : SpecSheet} (hflat : ∀ step ∈ spec.steps, step.subSpec = none)
    (hdistinct : (spec.steps.map (·.index)).Nodup) (stepIndex : String) (status : StepStatus) :
    InPlan spec spec.id stepIndex stepIndex status := by
  intro place row before hrow
  have hplace : ∃ i step, place = [i] ∧ spec.steps[i]? = some step ∧ step.index = row := by
    cases place with
    | nil => cases hrow
    | cons i place =>
      cases place with
      | nil =>
        rw [rowAt, map_eq_some_iff] at hrow
        obtain ⟨step, hstep, hsame⟩ := hrow
        cases hsame
        exact ⟨i, step, rfl, hstep, rfl⟩
      | cons j rest =>
        rw [rowAt, bind_eq_some_iff] at hrow
        obtain ⟨step, hstep, hsub⟩ := hrow
        rw [hflat step (mem_of_getElem? hstep)] at hsub
        cases hsub
  obtain ⟨i, step, rfl, hstep, rfl⟩ := hplace
  rw [changedPlace, if_pos rfl]
  constructor
  · intro hchanged
    obtain ⟨first, hfirst, hsame⟩ := map_eq_some_iff.mp hchanged
    cases hsame
    obtain ⟨hi, hfound, -⟩ := List.findIdx?_eq_some_iff_getElem.mp hfirst
    rw [List.getElem?_eq_getElem hi, some.injEq] at hstep
    exact .inl (hstep ▸ of_decide_eq_true hfound)
  · rintro hunchanged rfl
    exfalso
    apply hunchanged
    rw [map_eq_some_iff]
    refine ⟨i, ?_, rfl⟩
    obtain ⟨hi, hat⟩ := List.getElem?_eq_some_iff.mp hstep
    rw [List.findIdx?_eq_some_iff_getElem]
    refine ⟨hi, by simp [hat], ?_⟩
    intro j hj
    have hne : spec.steps[j].index ≠ step.index := by
      intro hsame
      have hbefore : j < (spec.steps.map (·.index)).length := by simpa using hj.trans hi
      have hlast : i < (spec.steps.map (·.index)).length := by simpa using hi
      have hindices : (spec.steps.map (·.index))[j] = (spec.steps.map (·.index))[i] := by
        simpa [hat] using hsame
      exact absurd (hdistinct.getElem_inj_iff.mp hindices) (Nat.ne_of_lt hj)
    simpa using hne

def sampleStep (index : String) : SpecStep where
  index := index
  title := "Step " ++ index
  instructions := "Do it"
  acceptanceCriteria := []
  requiredTools := []
  constraints := []
  dependencies := []
  isParallel := false
  requiresVerification := true
  maxParallelism := none
  status := .pending
  subSpec := none

def samplePlan : SpecSheet where
  id := "plan"
  title := "Plan"
  description := ""
  steps := [sampleStep "1", sampleStep "2"]
  createdBy := "main"
  metadata := .null

/-- A status of the plan's step, or of an agent that works on it, under the plan's specification. -/
def told (stepIndex stepPrefix : String) (role : StepRole) (status : StepStatus) : Action :=
  .event (.stepStatusChanged "plan" "Plan" stepIndex ("Step " ++ stepIndex) stepPrefix role status)

theorem view_mirrors_sample :
    Throughout step Watched.Mirrors .init
      [.start samplePlan, told "1" "1" .implementor .inProgress,
        .event (.toolCallStarted "1" "read_file" "src/main.rs"), .event .aborted,
        .event .completed, .start samplePlan, told "2" "2" .implementor .inProgress] := by
  have hplan : ∀ stepIndex status spec, some samplePlan = some spec →
      InPlan spec "plan" stepIndex stepIndex status := by
    intro stepIndex status spec hspec
    cases hspec
    exact inPlan_flat (by decide) (by decide) stepIndex status
  have hfirst : ∀ index status, InTree [] "plan" index status :=
    fun _ _ _ h => absurd h not_mem_nil
  exact view_mirrors
    (.head trivial rfl
      (.head ⟨rfl, by decide, hplan "1" .inProgress, hfirst "1" _, fun h => absurd rfl h⟩ rfl
        (.head rfl rfl
          (.head trivial rfl
            (.head trivial rfl
              (.head trivial rfl
                (.head ⟨rfl, by decide, hplan "2" .inProgress, hfirst "2" _,
                  fun h => absurd rfl h⟩ rfl (.refl _))))))))

/-- When the summarizer of a step has settled, no step is active, and the step is in progress. -/
theorem summarizer_takes_active :
    ¬ ∀ (as : List Action) (s : Watched), run step .init as = some s → s.Mirrors := by
  intro hall
  have hmirrors := hall [.start samplePlan, told "1" "1" .implementor .inProgress,
    told "summary" "1.summary" .summarizer .inProgress,
    told "summary" "1.summary" .summarizer .completed] _ rfl
  obtain ⟨active, hactive, -⟩ := hmirrors.active rfl ⟨"1", rfl⟩
  cases (show none = some active from hactive)

end ColossalCode.PlanView
