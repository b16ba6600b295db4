import ColossalCode.ModelServer.Guards

/-! Requests, loads and unloads, one shared access after the other: when a model is removed that is
in use. What the engine and the builder answer comes from outside. -/
namespace ColossalCode.ModelServer
open Function List Option

open Transition

inductive LoadPhase where
  | asked
  | building
  | built
  | loaded
  | failed
  deriving DecidableEq, Repr

/-- What the task will do next: a request (`arrived` to `answered`), `unload_model_internal` on
advice or on demand (`toUnload` to `unloaded`), or `load_model` on demand. -/
inductive Task where
  | arrived
  | existing
  | loading (p : LoadPhase)
  | ensured
  | guarded
  | submitted
  | answered
  | toUnload
  | found
  | unpinned
  | unused
  | removing
  | unloaded
  | load (pin : Bool) (p : LoadPhase)
  deriving DecidableEq, Repr

namespace Task

/-- A request that has its guard. -/
def holds : Task → Bool
  | .guarded | .submitted => true
  | _ => false

/-- An unload that has seen no request, and has not called the engine yet. -/
def closing : Task → Bool
  | .unused | .removing => true
  | _ => false

end Task

structure Job where
  model : String
  task : Task
  deriving DecidableEq, Repr

/-- A call of the engine: the live guards of a model when it is removed, and whether the engine has
the model that a request is submitted for. -/
inductive EngineCall where
  | remove (model : String) (guards : Nat)
  | submit (model : String) (present : Bool)
  deriving DecidableEq, Repr

def EngineCall.fair : EngineCall → Bool
  | .remove _ guards => guards == 0
  | .submit _ present => present

/-- `engine` are the models that the engine has; `calls` is kept for the account. -/
structure Serving where
  known : String → Bool
  pinned : String → Bool
  loaded : String → Bool
  engine : String → Bool
  active : String → Nat
  total : Nat
  jobs : List Job
  calls : List EngineCall

namespace Serving

variable (s : Serving) (model : String)

/-- The live guards of a model. -/
def guards : Nat := s.jobs.countP fun job => decide (job.model = model) && job.task.holds

def count : Serving :=
  { s with
    active := update s.active model (s.active model + 1)
    total := s.total + 1 }

def release : Serving :=
  { s with
    active := update s.active model (s.active model - 1)
    total := s.total - 1 }

def call (c : EngineCall) : Serving := { s with calls := s.calls ++ [c] }

def pin (wanted : Bool) : Serving :=
  { s with pinned := if wanted then update s.pinned model true else s.pinned }

/-- The next step of `load_model`. -/
def proceedLoad (pinned ok : Bool) : LoadPhase → Option (Serving × LoadPhase)
  | .asked =>
    if !ok then some (s, .failed)
    else if s.loaded model then some (s.pin model pinned, .loaded)
    else some (s, .building)
  | .building =>
    if ok then some ({ s with engine := update s.engine model true }, .built)
    else some (s, .failed)
  | .built =>
    some ({ s.pin model pinned with loaded := update s.loaded model true }, .loaded)
  | .loaded | .failed => none

/-- The next step of a task; `ok` is what the engine or the builder answers. -/
def proceed (l : Limits) (ok : Bool) : Task → Option (Serving × Task)
  | .arrived => some (s, if s.known model then .existing else .answered)
  | .existing =>
    if !ok then some (s, .answered)
    else some (s, if s.engine model then .ensured else .loading .asked)
  | .loading .loaded => some (s, .ensured)
  | .loading .failed => some (s, .answered)
  | .loading p => (s.proceedLoad model false ok p).map fun after => (after.1, .loading after.2)
  | .ensured =>
    if l.perModel model ≤ s.active model ∨ l.global ≤ s.total then some (s, .answered)
    else some (s.count model, .guarded)
  | .guarded =>
    -- the request may not be built
    if !ok then some (s.release model, .answered)
    else if s.engine model then some (s.call (.submit model true), .submitted)
    else some ((s.release model).call (.submit model false), .answered)
  | .submitted => some (s.release model, .answered)
  | .toUnload => some (s, if s.known model then .found else .unloaded)
  | .found => some (s, if s.pinned model then .unloaded else .unpinned)
  | .unpinned => some (s, if 0 < s.active model then .unloaded else .unused)
  | .unused =>
    if s.loaded model then
      some ({ s with loaded := update s.loaded model false }, .removing)
    else some (s, .unloaded)
  | .removing =>
    some (({ s with engine := if ok then update s.engine model false else s.engine }).call
      (.remove model (s.guards model)), .unloaded)
  | .load pinned p => (s.proceedLoad model pinned ok p).map fun after =>
      (after.1, .load pinned after.2)
  | .answered | .unloaded => none

end Serving

inductive Turn where
  | request (model : String)
  | unload (model : String)
  | load (model : String) (pin : Bool)
  | proceed (i : Nat) (ok : Bool)

def Serving.step (l : Limits) (s : Serving) : Turn → Option Serving
  | .request model => some { s with jobs := s.jobs ++ [⟨model, .arrived⟩] }
  | .unload model => some { s with jobs := s.jobs ++ [⟨model, .toUnload⟩] }
  | .load model pin => some { s with jobs := s.jobs ++ [⟨model, .load pin .asked⟩] }
  | .proceed i ok => (s.jobs[i]?).bind fun job =>
    (s.proceed job.model l ok job.task).map fun after =>
      { after.1 with jobs := s.jobs.set i ⟨job.model, after.2⟩ }

/-- The models of the configuration are loaded. -/
def serving (models : List String) (pinned : String → Bool) : Serving :=
  ⟨fun model => decide (model ∈ models), pinned, fun model => decide (model ∈ models),
    fun model => decide (model ∈ models), fun _ => 0, 0, [], []⟩

/-- No model has been removed under a live guard, and no request submitted for one that was not
there. -/
def Fair (s : Serving) : Prop := ∀ c ∈ s.calls, c.fair = true

/-- Nobody is about to remove the model, which the engine has. -/
def Serving.Open (s : Serving) (model : String) : Prop :=
  s.engine model = true ∧ ∀ job ∈ s.jobs, job.model = model → job.task.closing = false

/-- A request takes its guard with this turn. -/
def Serving.Takes (l : Limits) (s : Serving) (i : Nat) (model : String) : Prop :=
  s.jobs[i]? = some ⟨model, .ensured⟩ ∧ s.active model < l.perModel model ∧ s.total < l.global

/-- A guard is taken only of a model that is there and that nobody is about to remove. -/
def Undisturbed (l : Limits) (s : Serving) : Turn → Prop
  | .proceed i _ => ∀ model, s.Takes l i model → s.Open model
  | _ => True

/-- What one step of a task for a model does to the guards, the engine and its calls. -/
inductive Effect (l : Limits) (s : Serving) (model : String) : Task → Serving → Task → Prop where
  | quiet {task task' : Task} {t : Serving} : t.active = s.active → t.jobs = s.jobs →
      t.calls = s.calls → (∀ other, s.engine other = true → t.engine other = true) →
      task'.holds = task.holds → task' ≠ .guarded →
      (task'.closing = true → task.closing = true ∨ s.active model = 0) →
      Effect l s model task t task'
  | taken : s.active model < l.perModel model → s.total < l.global →
      Effect l s model .ensured (s.count model) .guarded
  | released {task : Task} : task.holds = true →
      Effect l s model task (s.release model) .answered
  | submitted : s.engine model = true →
      Effect l s model .guarded (s.call (.submit model true)) .submitted
  | missing : s.engine model = false →
      Effect l s model .guarded ((s.release model).call (.submit model false)) .answered
  | removed (engine : String → Bool) :
      (∀ other, other ≠ model → engine other = s.engine other) →
      Effect l s model .removing
        ((({ s with engine := engine } : Serving)).call (.remove model (s.guards model))) .unloaded

section Effects

variable {l : Limits} {s t : Serving} {model : String} {ok : Bool} {task task' : Task}

theorem proceedLoad_effect {pinned : Bool} {p p' : LoadPhase}
    (h : s.proceedLoad model pinned ok p = some (t, p')) :
    t.active = s.active ∧ t.jobs = s.jobs ∧ t.calls = s.calls ∧
      ∀ other, s.engine other = true → t.engine other = true := by
  have hsame : ∀ u : Serving, u.active = s.active → u.jobs = s.jobs → u.calls = s.calls →
      u.engine = s.engine → u.active = s.active ∧ u.jobs = s.jobs ∧ u.calls = s.calls ∧
        ∀ other, s.engine other = true → u.engine other = true := by
    intro u hactive hjobs hcalls hengine
    exact ⟨hactive, hjobs, hcalls, fun other hother => hengine ▸ hother⟩
  cases p with
  | asked =>
    unfold Serving.proceedLoad at h
    dsimp only at h
    split at h
    · cases h
      exact hsame _ rfl rfl rfl rfl
    · split at h
      · cases h
        exact hsame _ rfl rfl rfl rfl
      · cases h
        exact hsame _ rfl rfl rfl rfl
  | building =>
    unfold Serving.proceedLoad at h
    dsimp only at h
    split at h
    · cases h
      refine ⟨rfl, rfl, rfl, fun other hother => ?_⟩
      by_cases hmodel : other = model
      · simp [hmodel]
      · simpa [hmodel] using hother
    · cases h
      exact hsame _ rfl rfl rfl rfl
  | built =>
    cases h
    exact hsame _ rfl rfl rfl rfl
  | loaded => cases h
  | failed => cases h

/-- A step that changes nothing but where the task stands. -/
theorem stays (hholds : task'.holds = task.holds) (hguarded : task' ≠ .guarded)
    (hclosing : task'.closing = true → task.closing = true ∨ s.active model = 0) :
    Effect l s model task s task' :=
  .quiet rfl rfl rfl (fun _ hother => hother) hholds hguarded hclosing

theorem proceed_effect (h : s.proceed model l ok task = some (t, task')) :
    Effect l s model task t task' := by
  cases task with
  | arrived =>
    cases h
    split <;> exact stays rfl (by simp) (by simp [Task.closing])
  | existing =>
    unfold Serving.proceed at h
    dsimp only at h
    split at h
    · cases h
      exact stays rfl (by simp) (by simp [Task.closing])
    · cases h
      split <;> exact stays rfl (by simp) (by simp [Task.closing])
  | loading p =>
    cases p with
    | loaded =>
      cases h
      exact stays rfl (by simp) (by simp [Task.closing])
    | failed =>
      cases h
      exact stays rfl (by simp) (by simp [Task.closing])
    | built =>
      cases h
      exact .quiet rfl rfl rfl (fun _ hother => hother) rfl (by simp) (by simp [Task.closing])
    | asked | building =>
      obtain ⟨⟨u, p'⟩, hload, heq⟩ := map_eq_some_iff.mp h
      cases heq
      obtain ⟨hactive, hjobs, hcalls, hengine⟩ := proceedLoad_effect hload
      exact .quiet hactive hjobs hcalls hengine rfl (by simp) (by simp [Task.closing])
  | ensured =>
    unfold Serving.proceed at h
    dsimp only at h
    split at h
    · cases h
      exact stays rfl (by simp) (by simp [Task.closing])
    · rename_i hroom
      cases h
      exact .taken (by omega) (by omega)
  | guarded =>
    unfold Serving.proceed at h
    dsimp only at h
    split at h
    · cases h
      exact .released rfl
    · split at h
      · rename_i hpresent
        cases h
        exact .submitted hpresent
      · rename_i habsent
        cases h
        exact .missing (by simpa using habsent)
  | submitted =>
    cases h
    exact .released rfl
  | answered => cases h
  | toUnload =>
    cases h
    split <;> exact stays rfl (by simp) (by simp [Task.closing])
  | found =>
    cases h
    split <;> exact stays rfl (by simp) (by simp [Task.closing])
  | unpinned =>
    cases h
    split
    · exact stays rfl (by simp) (by simp [Task.closing])
    · rename_i hunused
      exact stays rfl (by simp) fun _ => .inr (by omega)
  | unused =>
    unfold Serving.proceed at h
    dsimp only at h
    split at h
    · cases h
      exact .quiet rfl rfl rfl (fun _ hother => hother) rfl (by simp) fun _ => .inl rfl
    · cases h
      exact stays rfl (by simp) (by simp [Task.closing])
  | removing =>
    cases h
    refine .removed _ fun other hother => ?_
    split
    · exact update_of_ne hother _ _
    · rfl
  | unloaded => cases h
  | load pin p =>
    obtain ⟨⟨u, p'⟩, hload, heq⟩ := map_eq_some_iff.mp h
    cases heq
    obtain ⟨hactive, hjobs, hcalls, hengine⟩ := proceedLoad_effect hload
    exact .quiet hactive hjobs hcalls hengine rfl (by simp) (by simp [Task.closing])

/-- A turn of a task, and nothing else. -/
theorem turn_eq_some {i : Nat} : s.step l (.proceed i ok) = some t ↔
    ∃ job u task', s.jobs[i]? = some job ∧ s.proceed job.model l ok job.task = some (u, task') ∧
      t = { u with jobs := s.jobs.set i ⟨job.model, task'⟩ } := by
  unfold Serving.step
  simp only [bind_eq_some_iff, map_eq_some_iff]
  constructor
  · rintro ⟨job, hjob, ⟨u, task'⟩, hproceed, rfl⟩
    exact ⟨job, u, task', hjob, hproceed, rfl⟩
  · rintro ⟨job, u, task', hjob, hproceed, rfl⟩
    exact ⟨job, hjob, (u, task'), hproceed, rfl⟩

end Effects

/-- The counter of a model is the number of its live guards, nobody is about to remove a model with
one, and a guard is held only of models that the engine has. -/
structure Served (s : Serving) : Prop where
  active : ∀ model, s.active model = s.guards model
  closing : ∀ job ∈ s.jobs, job.task.closing = true → s.guards job.model = 0
  present : ∀ job ∈ s.jobs, job.task = .guarded → s.engine job.model = true
  fair : Fair s

section Invariant

variable {l : Limits} {s t u : Serving} {model : String} {ok : Bool} {task task' : Task}

/-- A job that has just begun. -/
theorem Served.begin (h : Served s) (hholds : task.holds = false)
    (hclosing : task.closing = false) :
    Served { s with jobs := s.jobs ++ [⟨model, task⟩] } := by
  have hguards : ∀ other, Serving.guards { s with jobs := s.jobs ++ [⟨model, task⟩] } other =
      s.guards other := by
    intro other
    unfold Serving.guards
    rw [countP_append]
    simp [hholds]
  refine ⟨fun other => (h.active other).trans (hguards other).symm, ?_, ?_, h.fair⟩
  · intro job hjob hjobClosing
    rw [hguards]
    rcases mem_append.mp hjob with hjob | hjob
    · exact h.closing job hjob hjobClosing
    · obtain rfl := mem_singleton.mp hjob
      rw [hclosing] at hjobClosing
      cases hjobClosing
  · intro job hjob hguarded
    rcases mem_append.mp hjob with hjob | hjob
    · exact h.present job hjob hguarded
    · obtain rfl := mem_singleton.mp hjob
      have hguarded : task = .guarded := hguarded
      rw [hguarded] at hholds
      cases hholds

variable {i : Nat} {job : Job}

theorem guards_set (u : Serving) (task' : Task) (hjob : s.jobs[i]? = some job) (other : String) :
    Serving.guards { u with jobs := s.jobs.set i ⟨job.model, task'⟩ } other +
        (decide (job.model = other) && job.task.holds).toNat =
      s.guards other + (decide (job.model = other) && task'.holds).toNat :=
  countP_set_add hjob

theorem guards_set_same (u : Serving) (task' : Task) (hjob : s.jobs[i]? = some job)
    (hholds : task'.holds = job.task.holds) (other : String) :
    Serving.guards { u with jobs := s.jobs.set i ⟨job.model, task'⟩ } other = s.guards other := by
  have hset := guards_set u task' hjob other
  rw [hholds] at hset
  omega

theorem guards_set_other {other : String} (hjob : s.jobs[i]? = some job)
    (hother : other ≠ job.model) :
    Serving.guards { u with jobs := s.jobs.set i ⟨job.model, task'⟩ } other = s.guards other := by
  have hset := guards_set u task' hjob other
  have hne : job.model ≠ other := fun heq => hother heq.symm
  simpa [hne] using hset

theorem guards_pos (hjob : job ∈ s.jobs) (hholds : job.task.holds = true) :
    0 < s.guards job.model :=
  countP_pos hjob (by simp [hholds])

/-- The jobs afterwards, the one that has had its turn apart. -/
theorem Served.after (hactive : ∀ other, u.active other = u.guards other)
    (hjobs : u.jobs = s.jobs.set i ⟨model, task'⟩)
    (hclosing : ∀ other ∈ s.jobs, other.task.closing = true → u.guards other.model = 0)
    (hclosing' : task'.closing = true → u.guards model = 0)
    (hpresent : ∀ other ∈ s.jobs, other.task = .guarded → u.engine other.model = true)
    (hpresent' : task' = .guarded → u.engine model = true) (hfair : Fair u) : Served u := by
  refine ⟨hactive, fun other hother hother' => ?_, fun other hother hother' => ?_, hfair⟩
  · rw [hjobs] at hother
    rcases mem_or_eq_of_mem_set hother with hother | rfl
    · exact hclosing other hother hother'
    · exact hclosing' hother'
  · rw [hjobs] at hother
    rcases mem_or_eq_of_mem_set hother with hother | rfl
    · exact hpresent other hother hother'
    · exact hpresent' hother'

theorem fair_append {c : EngineCall} (h : Fair s) (hc : c.fair = true) : Fair (s.call c) := by
  intro c' hc'
  rcases mem_append.mp hc' with hc' | hc'
  · exact h c' hc'
  · obtain rfl := mem_singleton.mp hc'
    exact hc

theorem Served.effect (h : Served s) (hjob : s.jobs[i]? = some job)
    (heffect : Effect l s job.model job.task u task')
    (hopen : job.task = .ensured → task' = .guarded → s.Open job.model) :
    Served { u with jobs := s.jobs.set i ⟨job.model, task'⟩ } := by
  have hmem : job ∈ s.jobs := mem_of_getElem? hjob
  obtain ⟨model, task⟩ := job
  dsimp only at heffect hopen hmem ⊢
  cases heffect with
  | quiet hactive hjobs hcalls hengine hholds hguarded hclosing =>
    have hguards := guards_set_same u task' hjob hholds
    refine Served.after (fun other => ?_) rfl (fun other hother hclose => ?_) (fun hclose => ?_)
      (fun other hother hguard => ?_) (fun hguard => absurd hguard hguarded) ?_
    · rw [hguards]
      exact (congrFun hactive other).trans (h.active other)
    · rw [hguards]
      exact h.closing other hother hclose
    · rw [hguards]
      rcases hclosing hclose with hclose | hzero
      · exact h.closing _ hmem hclose
      · exact (h.active model).symm.trans hzero
    · exact hengine _ (h.present other hother hguard)
    · exact fun c hc => h.fair c (hcalls ▸ hc)
  | taken hroom htotal =>
    obtain ⟨hpresent, hquiet⟩ := hopen rfl rfl
    have hset := guards_set (s.count model) .guarded hjob
    refine Served.after (fun other => ?_) rfl (fun other hother hclose => ?_)
      (fun hclose => by cases hclose) (fun other hother hguard => h.present other hother hguard)
      (fun _ => hpresent) h.fair
    · have hother := hset other
      have hactive := h.active other
      unfold Serving.count at hother ⊢
      by_cases hmodel : other = model
      · subst hmodel
        simp only [Task.holds, decide_true, Bool.true_and, Bool.toNat_true,
          Bool.toNat_false] at hother
        dsimp only
        rw [update_self]
        omega
      · have hne : model ≠ other := fun heq => hmodel heq.symm
        simp only [hne, decide_false, Bool.false_and, Bool.toNat_false] at hother
        dsimp only
        rw [update_of_ne hmodel]
        omega
    · have hne : other.model ≠ model := by
        intro heq
        rw [hquiet other hother heq] at hclose
        cases hclose
      rw [guards_set_other hjob hne]
      exact h.closing other hother hclose
  | released hholds =>
    have hset := guards_set (s.release model) .answered hjob
    have hheld : 0 < s.guards model := guards_pos hmem hholds
    have hdone : Task.answered.holds = false := rfl
    refine Served.after (fun other => ?_) rfl (fun other hother hclose => ?_)
      (fun hclose => by cases hclose) (fun other hother hguard => h.present other hother hguard)
      (fun hguard => by cases hguard) h.fair
    · have hother := hset other
      have hactive := h.active other
      unfold Serving.release at hother ⊢
      by_cases hmodel : other = model
      · subst hmodel
        simp only [hholds, hdone, decide_true, Bool.true_and, Bool.toNat_true,
          Bool.toNat_false] at hother
        dsimp only
        rw [update_self]
        omega
      · have hne : model ≠ other := fun heq => hmodel heq.symm
        simp only [hne, decide_false, Bool.false_and, Bool.toNat_false] at hother
        dsimp only
        rw [update_of_ne hmodel]
        omega
    · have hother := h.closing other hother hclose
      have hne : other.model ≠ model := by
        intro heq
        rw [heq] at hother
        omega
      rw [guards_set_other hjob hne]
      exact hother
  | submitted hpresent =>
    have hguards := guards_set_same (s.call (.submit model true)) .submitted hjob rfl
    refine Served.after (fun other => ?_) rfl (fun other hother hclose => ?_)
      (fun hclose => by cases hclose) (fun other hother hguard => h.present other hother hguard)
      (fun hguard => by cases hguard) (fair_append h.fair rfl)
    · rw [hguards]
      exact h.active other
    · rw [hguards]
      exact h.closing other hother hclose
  | missing habsent =>
    have hpresent := h.present _ hmem rfl
    rw [habsent] at hpresent
    cases hpresent
  | removed engine hothers =>
    have hguards := guards_set_same (({ s with engine := engine } : Serving).call
      (.remove model (s.guards model))) .unloaded hjob rfl
    have hzero : s.guards model = 0 := h.closing _ hmem rfl
    refine Served.after (fun other => ?_) rfl (fun other hother hclose => ?_)
      (fun hclose => by cases hclose) (fun other hother hguard => ?_)
      (fun hguard => by cases hguard) (fair_append (s := { s with engine := engine }) h.fair ?_)
    · rw [hguards]
      exact h.active other
    · rw [hguards]
      exact h.closing other hother hclose
    · have hne : other.model ≠ model := by
        intro heq
        have hheld := guards_pos hother (hguard ▸ rfl)
        rw [heq] at hheld
        omega
      exact (hothers other.model hne).trans (h.present other hother hguard)
    · simp [EngineCall.fair, hzero]

theorem Served.step {turn : Turn} (h : Served s) (hok : Undisturbed l s turn)
    (ht : s.step l turn = some t) : Served t := by
  cases turn with
  | request model =>
    cases ht
    exact h.begin rfl rfl
  | unload model =>
    cases ht
    exact h.begin rfl rfl
  | load model pin =>
    cases ht
    exact h.begin rfl rfl
  | proceed i ok =>
    obtain ⟨job, u, task', hjob, hproceed, rfl⟩ := turn_eq_some.mp ht
    have heffect := proceed_effect hproceed
    refine h.effect hjob heffect fun hensured hguarded => ?_
    obtain ⟨model, task⟩ := job
    dsimp only at hensured heffect
    subst hensured hguarded
    cases heffect with
    | quiet _ _ _ _ _ hne => exact absurd rfl hne
    | taken hroom htotal => exact hok model ⟨hjob, hroom, htotal⟩

theorem serving_served (models : List String) (pinned : String → Bool) :
    Served (serving models pinned) :=
  ⟨fun _ => rfl, fun _ hjob => absurd hjob not_mem_nil,
    fun _ hjob => absurd hjob not_mem_nil, fun _ hc => absurd hc not_mem_nil⟩

end Invariant

section Disturbed

variable {l : Limits} {s t u : Serving} {model : String} {ok : Bool} {task task' : Task} {i j : Nat}

/-- Undisturbed turns lead from one state to the other. -/
def Serving.Goes (l : Limits) (s t : Serving) : Prop := Leads (Serving.step l) (Undisturbed l) s t

theorem turn_goes (ok : Bool) (hjob : s.jobs[i]? = some ⟨model, task⟩) (htask : task ≠ .ensured)
    (hproceed : s.proceed model l ok task = some (u, task')) :
    s.Goes l { u with jobs := s.jobs.set i ⟨model, task'⟩ } := by
  refine leads_of_step (a := .proceed i ok) ?_ (turn_eq_some.mpr ⟨_, u, task', hjob, hproceed, rfl⟩)
  intro other htakes
  have hsame := hjob.symm.trans htakes.1
  cases hsame
  exact absurd rfl htask

theorem guards_of_guarded (h : s.jobs[i]? = some ⟨model, .guarded⟩) : 0 < s.guards model :=
  guards_pos (mem_of_getElem? h) rfl

theorem removing_unfair (hguarded : s.jobs[i]? = some ⟨model, .guarded⟩)
    (hremoving : s.jobs[j]? = some ⟨model, .removing⟩) : ∃ t, s.Goes l t ∧ ¬ Fair t := by
  refine ⟨_, turn_goes true hremoving (by simp) rfl, fun hfair => ?_⟩
  have hcall := hfair _ (mem_append_right s.calls (mem_singleton_self _))
  have hguards := guards_of_guarded hguarded
  have hzero : s.guards model = 0 := by simpa [EngineCall.fair] using hcall
  omega

theorem unused_unfair (hguarded : s.jobs[i]? = some ⟨model, .guarded⟩)
    (hunused : s.jobs[j]? = some ⟨model, .unused⟩) (hloaded : s.loaded model = true) :
    ∃ t, s.Goes l t ∧ ¬ Fair t := by
  have hne : j ≠ i := by
    rintro rfl
    cases hguarded.symm.trans hunused
  have hgoes : s.Goes l { s with
      loaded := update s.loaded model false
      jobs := s.jobs.set j ⟨model, .removing⟩ } :=
    turn_goes true hunused (by simp) (if_pos hloaded)
  have hin : j < s.jobs.length := (List.getElem?_eq_some_iff.mp hunused).1
  obtain ⟨t, ht, hunfair⟩ := removing_unfair (l := l) (i := i) (j := j)
    (s := { s with
      loaded := update s.loaded model false
      jobs := s.jobs.set j ⟨model, .removing⟩ })
    ((List.getElem?_set_ne hne).trans hguarded) (List.getElem?_set_self hin)
  exact ⟨t, hgoes.trans ht, hunfair⟩

/-- A load that goes through. -/
theorem load_goes (hload : s.jobs[i]? = some ⟨model, .load false .asked⟩)
    (hloaded : s.loaded model = false) : ∃ t, s.Goes l t ∧ t.loaded model = true ∧
      ∀ k, k ≠ i → t.jobs[k]? = s.jobs[k]? := by
  have hin : i < s.jobs.length := (List.getElem?_eq_some_iff.mp hload).1
  have hasked : s.proceed model l true (.load false .asked) = some (s, .load false .building) := by
    simp [Serving.proceed, Serving.proceedLoad, hloaded]
  have hasked := turn_goes true hload (by simp) hasked
  have hjob : ({ s with jobs := s.jobs.set i ⟨model, .load false .building⟩ } : Serving).jobs[i]? =
      some ⟨model, .load false .building⟩ := List.getElem?_set_self hin
  have hbuilding : Serving.Goes l
    { s with jobs := s.jobs.set i ⟨model, .load false .building⟩ } _ :=
    turn_goes true hjob (by simp) rfl
  have hin : i < (s.jobs.set i ⟨model, .load false .building⟩).length := by simpa using hin
  have hjob : ({ s with
      engine := update s.engine model true
      jobs := (s.jobs.set i ⟨model, .load false .building⟩).set i
        ⟨model, .load false .built⟩ } : Serving).jobs[i]? = some ⟨model, .load false .built⟩ :=
    List.getElem?_set_self hin
  have hbuilt := hbuilding.trans (turn_goes true hjob (by simp) rfl)
  refine ⟨_, hasked.trans hbuilt, update_self .., fun k hk => ?_⟩
  dsimp only
  rw [set_set, set_set, List.getElem?_set_ne (Ne.symm hk)]

/-- The model is loaded again, and then its removal goes on. -/
theorem unloaded_unfair (hguarded : s.jobs[i]? = some ⟨model, .guarded⟩)
    (hunused : s.jobs[j]? = some ⟨model, .unused⟩) (hloaded : s.loaded model = false) :
    ∃ t, s.Goes l t ∧ ¬ Fair t := by
  have hi : i < s.jobs.length := (List.getElem?_eq_some_iff.mp hguarded).1
  have hj : j < s.jobs.length := (List.getElem?_eq_some_iff.mp hunused).1
  have hbegin : s.Goes l { s with jobs := s.jobs ++ [⟨model, .load false .asked⟩] } :=
    leads_of_step (a := .load model false) trivial rfl
  obtain ⟨t, ht, hloaded, hjobs⟩ := load_goes (l := l) (i := s.jobs.length)
    (s := { s with jobs := s.jobs ++ [⟨model, .load false .asked⟩] })
    List.getElem?_concat_length hloaded
  have hguarded : t.jobs[i]? = some ⟨model, .guarded⟩ := by
    rw [hjobs i (by omega), List.getElem?_append_left hi, hguarded]
  have hunused : t.jobs[j]? = some ⟨model, .unused⟩ := by
    rw [hjobs j (by omega), List.getElem?_append_left hj, hunused]
  obtain ⟨u, hu, hunfair⟩ := unused_unfair (l := l) hguarded hunused hloaded
  exact ⟨u, (hbegin.trans ht).trans hu, hunfair⟩

theorem closing_unfair (hguarded : s.jobs[i]? = some ⟨model, .guarded⟩)
    (hclosing : s.jobs[j]? = some ⟨model, task⟩) (htask : task.closing = true) :
    ∃ t, s.Goes l t ∧ ¬ Fair t := by
  cases task with
  | unused =>
    cases hloaded : s.loaded model with
    | true => exact unused_unfair hguarded hclosing hloaded
    | false => exact unloaded_unfair hguarded hclosing hloaded
  | removing => exact removing_unfair hguarded hclosing
  | _ => cases htask

theorem missing_unfair (hguarded : s.jobs[i]? = some ⟨model, .guarded⟩)
    (hmissing : s.engine model = false) : ∃ t, s.Goes l t ∧ ¬ Fair t := by
  have hproceed : s.proceed model l true .guarded =
      some ((s.release model).call (.submit model false), .answered) :=
    by simp [Serving.proceed, hmissing]
  refine ⟨_, turn_goes true hguarded (by simp) hproceed, fun hfair => ?_⟩
  have hcall := hfair _ (mem_append_right s.calls (mem_singleton_self _))
  cases hcall

/-- Of a guard that is taken, nothing unfair can follow if the model is there and nobody is about to
remove it. -/
theorem taken_iff (h : Served s) (htakes : s.Takes l i model)
    (ht : s.step l (.proceed i ok) = some t) :
    s.Open model ↔ ∀ u, t.Goes l u → Fair u := by
  obtain ⟨hjob, hroom, htotal⟩ := htakes
  obtain ⟨job, v, task', hjob', hproceed, rfl⟩ := turn_eq_some.mp ht
  cases hjob.symm.trans hjob'
  have hcount : s.proceed model l ok .ensured = some (s.count model, .guarded) :=
    if_neg (by omega)
  cases hcount.symm.trans hproceed
  have hin : i < s.jobs.length := (List.getElem?_eq_some_iff.mp hjob).1
  have hguarded : (s.jobs.set i ⟨model, .guarded⟩)[i]? = some ⟨model, .guarded⟩ :=
    List.getElem?_set_self hin
  constructor
  · intro hopen u hu
    have hserved := h.effect hjob (.taken hroom htotal) fun _ _ => hopen
    obtain ⟨turns, hsteps⟩ := hu
    exact (hsteps.invariant (fun _ _ _ hok hst hs => hs.step hok hst) hserved).fair
  · intro hfair
    refine ⟨?_, fun other hother hmodel => ?_⟩
    · by_contra habsent
      have habsent : s.engine model = false := by simpa using habsent
      obtain ⟨u, hu, hunfair⟩ := missing_unfair (l := l) (i := i)
        (s := { s.count model with jobs := s.jobs.set i ⟨model, .guarded⟩ }) hguarded habsent
      exact hunfair (hfair u hu)
    · by_contra hclosing
      have hclosing : other.task.closing = true := by simpa using hclosing
      obtain ⟨j, hj⟩ := mem_iff_getElem?.mp hother
      have hne : i ≠ j := by
        rintro rfl
        cases hjob.symm.trans hj
        cases hclosing
      obtain ⟨_, task⟩ := other
      subst hmodel
      obtain ⟨u, hu, hunfair⟩ := closing_unfair (l := l) (i := i) (j := j)
        (s := { s.count _ with jobs := s.jobs.set i ⟨_, .guarded⟩ }) hguarded
        ((List.getElem?_set_ne hne).trans hj) hclosing
      exact hunfair (hfair u hu)

def twoServed : Serving := serving ["chat", "embed"] fun _ => false

def fewLimits : Limits := ⟨fun _ => 4, 8, fun _ => by decide, by decide⟩

/-- A request is answered before its model is unloaded. -/
def oneAfterTheOther : List Turn :=
  [.request "chat", .proceed 0 true, .proceed 0 true, .proceed 0 true, .proceed 0 true,
    .proceed 0 true, .unload "chat", .proceed 1 true, .proceed 1 true, .proceed 1 true,
    .proceed 1 true, .proceed 1 true]

/-- The unload has seen no request when the request takes its guard. -/
def checkThenAct : List Turn :=
  [.request "chat", .proceed 0 true, .proceed 0 true, .unload "chat", .proceed 1 true,
    .proceed 1 true, .proceed 1 true, .proceed 0 true, .proceed 1 true, .proceed 1 true,
    .proceed 0 true]

end Disturbed

end ColossalCode.ModelServer
