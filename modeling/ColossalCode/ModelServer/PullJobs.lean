import ColossalCode.Transition.Run
import Mathlib.Logic.Function.Basic

/-! Pull jobs: what the status query shows of a download. The background task writes to a copy of
the jobs, since a `DashMap` is cloned with its entries. -/
namespace ColossalCode.ModelServer
open Function List Option

open Transition

inductive JobStatusKind where
  | queued
  | running
  | succeeded
  | failed
  deriving DecidableEq, Repr

/-- The progress in percent. -/
structure JobStatus (Uuid : Type) where
  id : Uuid
  status : JobStatusKind
  progress : Nat
  message : Option String

structure Pull where
  model : String
  source : String
  deriving DecidableEq, Repr

/-- The name that is hashed for the identifier of the job. -/
def Pull.key (p : Pull) : String := p.model ++ ":" ++ p.source

/-- Whether there is an engine, the models that are known, and the cache paths of those that have
parameters. -/
structure PullConfig where
  engine : Bool
  known : String → Bool
  params : String → Option (Option String)

/-- A spawned download, or the simulation of one, with the updates it has made and its own copy of
the jobs. -/
structure PullTask (Uuid : Type) where
  id : Uuid
  pull : Pull
  cacheHint : String
  simulated : Bool
  updates : Nat
  jobs : Uuid → Option (JobStatus Uuid)

/-- `accepted` are the pulls that have been answered with an identifier and `latest` what was last
noted of each, both for the account. -/
structure PullJobs (Uuid : Type) where
  jobs : Uuid → Option (JobStatus Uuid)
  tasks : List (PullTask Uuid)
  accepted : List Pull
  latest : Pull → Option (JobStatus Uuid)

inductive PullStep where
  | submit (p : Pull)
  | work (i : Nat) (download : Except String Unit)

section Jobs

variable {Uuid : Type} [DecidableEq Uuid]

/-- The next update of the task, the last of a download by its result. -/
def PullTask.update (task : PullTask Uuid) (download : Except String Unit) :
    Option (JobStatus Uuid) :=
  let model := task.pull.model
  let source := task.pull.source
  let cacheHint := task.cacheHint
  let cached : JobStatus Uuid :=
    ⟨task.id, .succeeded, 100, some s!"cached {model} from {source} at {cacheHint}"⟩
  match task.updates, task.simulated with
  | 0, _ => some ⟨task.id, .running, 5, some s!"queued download for {model} ({source})"⟩
  | 1, true => some ⟨task.id, .running, 60, some s!"downloading artifacts into {cacheHint}"⟩
  | 2, true => some cached
  | 1, false =>
    match download with
    | .ok () => some cached
    | .error err => some ⟨task.id, .failed, 100, some err⟩
  | _, _ => none

/-- The task has made its last update. -/
def PullTask.ended (task : PullTask Uuid) : Bool :=
  if task.simulated then 3 ≤ task.updates else 2 ≤ task.updates

namespace PullJobs

/-- The manager notes a status in its own jobs. -/
def record (s : PullJobs Uuid) (p : Pull) (st : JobStatus Uuid) : PullJobs Uuid :=
  { s with
    jobs := update s.jobs st.id (some st)
    latest := update s.latest p (some st) }

def spawnTask (s : PullJobs Uuid) (id : Uuid) (p : Pull) (cachePath : Option String)
    (simulated : Bool) : PullJobs Uuid :=
  let model := p.model
  { s with tasks := s.tasks ++
      [⟨id, p, cachePath.getD s!"/var/cache/mistral/{model}", simulated, 0, s.jobs⟩] }

def spawnPullJob (cfg : PullConfig) (id : Uuid) (p : Pull) (immediate : Bool)
    (s : PullJobs Uuid) : PullJobs Uuid :=
  let model := p.model
  let source := p.source
  if immediate then s.record p ⟨id, .succeeded, 100, some s!"pulled {model} from {source}"⟩
  else if !cfg.engine then s.spawnTask id p ((cfg.params model).getD none) true
  else
    match cfg.params model with
    | none => s.record p ⟨id, .failed, 100, some s!"unknown model {model}"⟩
    | some cachePath => s.spawnTask id p cachePath false

/-- Whether a job is under way, by the jobs of the manager. -/
def underWay (s : PullJobs Uuid) (id : Uuid) : Bool :=
  (s.jobs id).any fun st => st.status = .running || st.status = .queued

def queued (id : Uuid) (p : Pull) : JobStatus Uuid :=
  let model := p.model
  let source := p.source
  ⟨id, .queued, 0, some s!"queued pull for {model} from {source}"⟩

/-- An unknown model is an error, and nothing changes. -/
def submitPullJob (newV5 : String → Uuid) (cfg : PullConfig) (p : Pull) (s : PullJobs Uuid) :
    PullJobs Uuid :=
  if !cfg.known p.model then s
  else
    let id := newV5 p.key
    let s := { s with accepted := s.accepted ++ [p] }
    if s.underWay id then s
    else (s.record p (queued id p)).spawnPullJob cfg id p !cfg.engine

def jobStatus (s : PullJobs Uuid) (id : Uuid) : Option (JobStatus Uuid) := s.jobs id

def step (newV5 : String → Uuid) (cfg : PullConfig) (s : PullJobs Uuid) :
    PullStep → Option (PullJobs Uuid)
  | .submit p => some (s.submitPullJob newV5 cfg p)
  | .work i download => (s.tasks[i]?).bind fun task =>
    (task.update download).map fun st =>
      { s with
        tasks := s.tasks.set i { task with
          updates := task.updates + 1
          jobs := update task.jobs task.id (some st) }
        latest := update s.latest task.pull (some st) }

def empty : PullJobs Uuid := ⟨fun _ => none, [], [], fun _ => none⟩

end PullJobs

def JobStatusKind.terminal : JobStatusKind → Bool
  | .succeeded | .failed => true
  | _ => false

/-- The query shows what was last noted of each pull and that a task has ended, and different pulls
have different identifiers. -/
structure Observable (newV5 : String → Uuid) (s : PullJobs Uuid) : Prop where
  latest : ∀ p st, s.latest p = some st → s.jobStatus (newV5 p.key) = some st
  ends : ∀ task ∈ s.tasks, task.ended = true →
    ∃ st, s.jobStatus task.id = some st ∧ st.status.terminal = true
  ids : ∀ p ∈ s.accepted, ∀ q ∈ s.accepted, p ≠ q → newV5 p.key ≠ newV5 q.key

/-- What follows a colon in one model may as well belong to the source of the other. -/
def Pull.Overlaps (p q : Pull) : Prop :=
  ∃ rest, p.model = q.model ++ ":" ++ rest ∧ q.source = rest ++ ":" ++ p.source

/-- No task comes to an update, and no pull overlaps one that was accepted before. -/
def Plain (cfg : PullConfig) (s : PullJobs Uuid) : PullStep → Prop
  | .submit p => cfg.known p.model = true → ∀ q ∈ s.accepted, ¬ p.Overlaps q ∧ ¬ q.Overlaps p
  | .work _ _ => False

end Jobs

theorem Pull.key_eq_iff {p q : Pull} :
    p.key = q.key ↔ p = q ∨ p.Overlaps q ∨ q.Overlaps p := by
  obtain ⟨pm, ps⟩ := p
  obtain ⟨qm, qs⟩ := q
  have hlist : ∀ a b : String, (a ++ ":" ++ b).toList = a.toList ++ ':' :: b.toList := by
    intro a b
    simp [String.toList_append]
  constructor
  · intro h
    have h : pm.toList ++ ':' :: ps.toList = qm.toList ++ ':' :: qs.toList := by
      rw [← hlist, ← hlist]
      exact congrArg String.toList h
    rcases append_eq_append_iff.mp h with ⟨rest, hm, hs⟩ | ⟨rest, hm, hs⟩
    · cases rest with
      | nil =>
        refine .inl (congrArg₂ Pull.mk ?_ ?_)
        · exact String.toList_inj.mp (by simpa using hm.symm)
        · exact String.toList_inj.mp (by simpa using hs)
      | cons c rest =>
        obtain ⟨rfl, hs⟩ := List.cons.inj hs
        refine .inr (.inr ⟨String.ofList rest, ?_, ?_⟩)
        · exact String.toList_inj.mp (by simpa using hm)
        · exact String.toList_inj.mp (by simpa using hs)
    · cases rest with
      | nil =>
        refine .inl (congrArg₂ Pull.mk ?_ ?_)
        · exact String.toList_inj.mp (by simpa using hm)
        · exact String.toList_inj.mp (by simpa using hs.symm)
      | cons c rest =>
        obtain ⟨rfl, hs⟩ := List.cons.inj hs
        refine .inr (.inl ⟨String.ofList rest, ?_, ?_⟩)
        · exact String.toList_inj.mp (by simpa using hm)
        · exact String.toList_inj.mp (by simpa using hs)
  · rintro (h | ⟨rest, hm, hs⟩ | ⟨rest, hm, hs⟩)
    · rw [h]
    · have hm : pm = qm ++ ":" ++ rest := hm
      have hs : qs = rest ++ ":" ++ ps := hs
      simp [Pull.key, hm, hs, String.append_assoc]
    · have hm : qm = pm ++ ":" ++ rest := hm
      have hs : ps = rest ++ ":" ++ qs := hs
      simp [Pull.key, hm, hs, String.append_assoc]

theorem Pull.not_overlaps_self (p : Pull) : ¬ p.Overlaps p := by
  rintro ⟨rest, hmodel, -⟩
  have hlength := congrArg String.length hmodel
  simp only [String.length_append] at hlength
  have hcolon : (":" : String).length = 1 := rfl
  omega

section Runs

variable {Uuid : Type} {newV5 : String → Uuid} {names : List String}
  {cfg : PullConfig} {s t : PullJobs Uuid} {p : Pull} {st : JobStatus Uuid}

/-- Of every task that has been spawned, the manager's own jobs still say that it is queued. -/
structure Waiting (newV5 : String → Uuid) (names : List String) (s : PullJobs Uuid) : Prop where
  ids : ∀ task ∈ s.tasks, task.pull ∈ s.accepted ∧ task.id = newV5 task.pull.key
  tasks : ∀ task ∈ s.tasks, ∃ st, s.jobs task.id = some st ∧ st.status = .queued
  latest : ∀ p st, s.latest p = some st → p ∈ s.accepted
  named : ∀ p ∈ s.accepted, p.key ∈ names

theorem free_of_not_underWay {id : Uuid} (h : Waiting newV5 names s)
    (hfree : s.underWay id = false) : ∀ task ∈ s.tasks, task.id ≠ id := by
  rintro task htask rfl
  obtain ⟨st, hjob, hqueued⟩ := h.tasks task htask
  rw [PullJobs.underWay, hjob] at hfree
  simp [hqueued] at hfree

theorem Waiting.accept (h : Waiting newV5 names s) (hp : p.key ∈ names) :
    Waiting newV5 names { s with accepted := s.accepted ++ [p] } := by
  refine ⟨fun task htask => ?_, h.tasks,
    fun q st hq => mem_append_left _ (h.latest q st hq), fun q hq => ?_⟩
  · exact ⟨mem_append_left _ (h.ids task htask).1, (h.ids task htask).2⟩
  · rcases mem_append.mp hq with hq | hq
    · exact h.named q hq
    · obtain rfl := mem_singleton.mp hq
      exact hp

theorem Waiting.spawnTask (h : Waiting newV5 names s) (hp : p ∈ s.accepted)
    {cachePath : Option String}
    {simulated : Bool} (hjob : s.jobs (newV5 p.key) = some st) (hqueued : st.status = .queued) :
    Waiting newV5 names (s.spawnTask (newV5 p.key) p cachePath simulated) := by
  refine ⟨fun task htask => ?_, fun task htask => ?_, h.latest, h.named⟩
  · rcases mem_append.mp htask with htask | htask
    · exact h.ids task htask
    · obtain rfl := mem_singleton.mp htask
      exact ⟨hp, rfl⟩
  · rcases mem_append.mp htask with htask | htask
    · exact h.tasks task htask
    · obtain rfl := mem_singleton.mp htask
      exact ⟨st, hjob, hqueued⟩

variable {download : Except String Unit}

theorem update_id {task : PullTask Uuid}
    (h : task.update download = some st) : st.id = task.id ∧ st.status ≠ .queued := by
  unfold PullTask.update at h
  dsimp only at h
  split at h
  · cases h
    exact ⟨rfl, by simp⟩
  · cases h
    exact ⟨rfl, by simp⟩
  · cases h
    exact ⟨rfl, by simp⟩
  · cases download with
    | ok value =>
      cases h
      exact ⟨rfl, by simp⟩
    | error err =>
      cases h
      exact ⟨rfl, by simp⟩
  · cases h

/-- No task has ended whose job is still shown as queued. -/
theorem Waiting.unfinished (h : Waiting newV5 names s) (ho : Observable newV5 s) :
    ∀ task ∈ s.tasks, task.ended = false := by
  intro task htask
  by_contra hended
  obtain ⟨st, hjob, hterminal⟩ := ho.ends task htask (by simpa using hended)
  obtain ⟨st', hjob', hqueued⟩ := h.tasks task htask
  obtain rfl := Option.some.inj (hjob.symm.trans hjob')
  rw [hqueued] at hterminal
  cases hterminal

variable [DecidableEq Uuid]

theorem Waiting.record (h : Waiting newV5 names s) (hp : p ∈ s.accepted)
    (hfree : ∀ task ∈ s.tasks, task.id ≠ st.id) : Waiting newV5 names (s.record p st) := by
  refine ⟨h.ids, fun task htask => ?_, fun q st' hq => ?_, h.named⟩
  · obtain ⟨st', hjob, hqueued⟩ := h.tasks task htask
    exact ⟨st', (update_of_ne (hfree task htask) _ _).trans hjob, hqueued⟩
  · by_cases hqp : q = p
    · exact hqp ▸ hp
    · exact h.latest q st' ((update_of_ne hqp _ _).symm.trans hq)

/-- What a spawned job does is noted of its own pull under its own identifier. -/
theorem spawn_cases (s : PullJobs Uuid) (cfg : PullConfig) (p : Pull) (id : Uuid)
    (immediate : Bool) :
    (∃ st, st.id = id ∧ s.spawnPullJob cfg id p immediate = s.record p st) ∨
      ∃ cachePath simulated, s.spawnPullJob cfg id p immediate =
        s.spawnTask id p cachePath simulated := by
  unfold PullJobs.spawnPullJob
  dsimp only
  split
  · exact .inl ⟨_, rfl, rfl⟩
  · split
    · exact .inr ⟨_, _, rfl⟩
    · split
      · exact .inl ⟨_, rfl, rfl⟩
      · exact .inr ⟨_, _, rfl⟩

theorem Waiting.submit (h : Waiting newV5 names s) (hp : p.key ∈ names) :
    Waiting newV5 names (s.submitPullJob newV5 cfg p) := by
  unfold PullJobs.submitPullJob
  split
  · exact h
  · dsimp only
    have haccepted := h.accept hp
    have hmem : p ∈ s.accepted ++ [p] := mem_append_right _ (mem_singleton_self p)
    split
    · exact haccepted
    · rename_i hidle
      have hfree := free_of_not_underWay haccepted (Bool.not_eq_true _ ▸ hidle)
      have hrecorded : Waiting newV5 names
        (PullJobs.record { s with accepted := s.accepted ++ [p] } p
          (PullJobs.queued (newV5 p.key) p)) := haccepted.record hmem hfree
      rcases spawn_cases (PullJobs.record { s with accepted := s.accepted ++ [p] } p
          (PullJobs.queued (newV5 p.key) p)) cfg p (newV5 p.key) (!cfg.engine) with
          ⟨st, hid, heq⟩ | ⟨cachePath, simulated, heq⟩
      · rw [heq]
        exact hrecorded.record hmem (hid ▸ hfree)
      · rw [heq]
        exact hrecorded.spawnTask hmem (update_self ..) rfl

theorem work_eq_some {i : Nat} :
    s.step newV5 cfg (.work i download) = some t ↔ ∃ task st, s.tasks[i]? = some task ∧
      task.update download = some st ∧ t = { s with
        tasks := s.tasks.set i { task with
          updates := task.updates + 1
          jobs := update task.jobs task.id (some st) }
        latest := update s.latest task.pull (some st) } := by
  unfold PullJobs.step
  simp only [bind_eq_some_iff, map_eq_some_iff]
  constructor
  · rintro ⟨task, htask, st, hst, rfl⟩
    exact ⟨task, st, htask, hst, rfl⟩
  · rintro ⟨task, st, htask, hst, rfl⟩
    exact ⟨task, htask, st, hst, rfl⟩

theorem Waiting.work {i : Nat} (h : Waiting newV5 names s)
    (ht : s.step newV5 cfg (.work i download) = some t) : Waiting newV5 names t := by
  obtain ⟨task, st, htask, -, rfl⟩ := work_eq_some.mp ht
  have hmem : task ∈ s.tasks := mem_of_getElem? htask
  refine ⟨fun other hother => ?_, fun other hother => ?_, fun q st' hq => ?_, h.named⟩
  · rcases mem_or_eq_of_mem_set hother with hother | rfl
    · exact h.ids other hother
    · exact h.ids task hmem
  · rcases mem_or_eq_of_mem_set hother with hother | rfl
    · exact h.tasks other hother
    · exact h.tasks task hmem
  · by_cases hpull : q = task.pull
    · exact hpull ▸ (h.ids task hmem).1
    · exact h.latest q st' ((update_of_ne hpull _ _).symm.trans hq)

/-- No update of a task is ever seen. -/
theorem work_unobservable {i : Nat} (h : Waiting newV5 names s)
    (ht : s.step newV5 cfg (.work i download) = some t) : ¬ Observable newV5 t := by
  obtain ⟨task, st, htask, hupdate, rfl⟩ := work_eq_some.mp ht
  have hmem : task ∈ s.tasks := mem_of_getElem? htask
  intro hobservable
  have hshown : s.jobs (newV5 task.pull.key) = some st :=
    hobservable.latest task.pull st (update_self ..)
  obtain ⟨st', hjob, hqueued⟩ := h.tasks task hmem
  rw [(h.ids task hmem).2, hshown] at hjob
  obtain rfl := Option.some.inj hjob
  exact (update_id hupdate).2 hqueued

/-- The jobs of the manager hold what was last noted of each pull. -/
def Shown (newV5 : String → Uuid) (s : PullJobs Uuid) : Prop :=
  ∀ p st, s.latest p = some st → s.jobs (newV5 p.key) = some st

theorem Shown.record (h : Shown newV5 s) (hid : st.id = newV5 p.key)
    (hothers : ∀ q st', s.latest q = some st' → q ≠ p → newV5 q.key ≠ newV5 p.key) :
    Shown newV5 (s.record p st) := by
  intro q st' hq
  by_cases hqp : q = p
  · subst hqp
    have hnoted : (s.record q st).latest q = some st := update_self ..
    obtain rfl := Option.some.inj (hnoted.symm.trans hq)
    rw [← hid]
    exact update_self ..
  · have hq : s.latest q = some st' := (update_of_ne hqp _ _).symm.trans hq
    have hne : newV5 q.key ≠ st.id := hid ▸ hothers q st' hq hqp
    exact (update_of_ne hne _ _).trans (h q st' hq)

theorem submit_accepted (hknown : cfg.known p.model = true) :
    (s.submitPullJob newV5 cfg p).accepted = s.accepted ++ [p] := by
  unfold PullJobs.submitPullJob
  rw [hknown, Bool.not_true, if_neg Bool.false_ne_true]
  dsimp only
  split
  · rfl
  · rcases spawn_cases (PullJobs.record { s with accepted := s.accepted ++ [p] } p
        (PullJobs.queued (newV5 p.key) p)) cfg p (newV5 p.key) (!cfg.engine) with
        ⟨st, -, heq⟩ | ⟨cachePath, simulated, heq⟩
    · rw [heq]
      rfl
    · rw [heq]
      rfl

theorem submit_shown (cfg : PullConfig) (h : Waiting newV5 names s) (ho : Observable newV5 s)
    (hothers : ∀ q ∈ s.accepted, q ≠ p → newV5 q.key ≠ newV5 p.key) :
    Shown newV5 (s.submitPullJob newV5 cfg p) ∧
      ∀ task ∈ (s.submitPullJob newV5 cfg p).tasks, task.ended = false := by
  have hunfinished := h.unfinished ho
  unfold PullJobs.submitPullJob
  split
  · exact ⟨ho.latest, hunfinished⟩
  · dsimp only
    split
    · exact ⟨ho.latest, hunfinished⟩
    · have hshown : Shown newV5 (PullJobs.record { s with accepted := s.accepted ++ [p] } p
          (PullJobs.queued (newV5 p.key) p)) :=
        Shown.record (s := { s with accepted := s.accepted ++ [p] }) ho.latest rfl
          fun q st' hq => hothers q (h.latest q st' hq)
      have hothers' : ∀ q st', (PullJobs.record { s with accepted := s.accepted ++ [p] } p
          (PullJobs.queued (newV5 p.key) p)).latest q = some st' → q ≠ p →
            newV5 q.key ≠ newV5 p.key := by
        intro q st' hq hqp
        exact hothers q (h.latest q st' ((update_of_ne hqp _ _).symm.trans hq)) hqp
      rcases spawn_cases (PullJobs.record { s with accepted := s.accepted ++ [p] } p
          (PullJobs.queued (newV5 p.key) p)) cfg p (newV5 p.key) (!cfg.engine) with
          ⟨st, hid, heq⟩ | ⟨cachePath, simulated, heq⟩
      · rw [heq]
        exact ⟨hshown.record hid hothers', hunfinished⟩
      · rw [heq]
        refine ⟨hshown, fun task htask => ?_⟩
        rcases mem_append.mp htask with htask | htask
        · exact hunfinished task htask
        · obtain rfl := mem_singleton.mp htask
          unfold PullTask.ended
          split <;> rfl

theorem submit_observable_iff (hv5 : ∀ x ∈ names, ∀ y ∈ names, newV5 x = newV5 y → x = y)
    (h : Waiting newV5 names s) (hp : p.key ∈ names) (ho : Observable newV5 s) :
    Observable newV5 (s.submitPullJob newV5 cfg p) ↔ Plain cfg s (.submit p) := by
  by_cases hknown : cfg.known p.model = true
  · have haccepted : (s.submitPullJob newV5 cfg p).accepted = s.accepted ++ [p] :=
      submit_accepted hknown
    have hself : p ∈ s.accepted ++ [p] := mem_append_right _ (mem_singleton_self p)
    constructor
    · intro hafter _ q hq
      have hids : p ≠ q → newV5 p.key ≠ newV5 q.key := by
        refine hafter.ids p ?_ q ?_
        · rw [haccepted]
          exact hself
        · rw [haccepted]
          exact mem_append_left _ hq
      by_cases hpq : p = q
      · subst hpq
        exact ⟨p.not_overlaps_self, p.not_overlaps_self⟩
      · refine ⟨fun hover => hids hpq ?_, fun hover => hids hpq ?_⟩
        · rw [Pull.key_eq_iff.mpr (.inr (.inl hover))]
        · rw [Pull.key_eq_iff.mpr (.inr (.inr hover))]
    · intro hplain
      have hothers : ∀ q ∈ s.accepted, q ≠ p → newV5 q.key ≠ newV5 p.key := by
        intro q hq hqp hsame
        have hkey := hv5 _ (h.named q hq) _ hp hsame
        obtain ⟨hleft, hright⟩ := hplain hknown q hq
        rcases Pull.key_eq_iff.mp hkey with heq | hover | hover
        · exact hqp heq
        · exact hright hover
        · exact hleft hover
      obtain ⟨hshown, hunfinished⟩ := submit_shown cfg h ho hothers
      refine ⟨hshown, fun task htask hended => ?_, ?_⟩
      · rw [hunfinished task htask] at hended
        cases hended
      · rw [haccepted]
        intro q hq r hr hne
        rcases mem_append.mp hq with hq | hq
        · rcases mem_append.mp hr with hr | hr
          · exact ho.ids q hq r hr hne
          · have hr : r = p := mem_singleton.mp hr
            rw [hr] at hne ⊢
            exact hothers q hq hne
        · obtain rfl := mem_singleton.mp hq
          rcases mem_append.mp hr with hr | hr
          · exact (hothers r hr (Ne.symm hne)).symm
          · obtain rfl := mem_singleton.mp hr
            exact absurd rfl hne
  · have hsame : s.submitPullJob newV5 cfg p = s := by
      unfold PullJobs.submitPullJob
      exact if_pos (by simpa using hknown)
    rw [hsame]
    exact iff_of_true ho fun htrue => absurd htrue hknown

/-- The names that the pulls of a run are hashed under. -/
def keys (steps : List PullStep) : List String :=
  steps.filterMap fun
    | .submit p => some p.key
    | .work _ _ => none

/-- Pull jobs can be followed to their end in the runs in which no task comes to an update and no
two pulls overlap, and in no others. -/
theorem pulls_observable_iff {steps : List PullStep}
    (hv5 : ∀ x ∈ keys steps, ∀ y ∈ keys steps, newV5 x = newV5 y → x = y)
    (h : run (PullJobs.step newV5 cfg) PullJobs.empty steps = some t) :
    Throughout (PullJobs.step newV5 cfg) (Observable newV5) PullJobs.empty steps ↔
      Steps (PullJobs.step newV5 cfg) (Plain cfg) PullJobs.empty steps t := by
  have hnamed : ∀ a ∈ steps, ∀ p, a = .submit p → p.key ∈ keys steps := by
    rintro a ha p rfl
    exact mem_filterMap.mpr ⟨_, ha, rfl⟩
  refine throughout_iff_steps_mem (I := Waiting newV5 (keys steps)) hnamed
    (fun s a t ha hst hs => ?_)
    (fun s a t ha hs hst ho => ?_) h ⟨by simp [PullJobs.empty], by simp [PullJobs.empty],
      by simp [PullJobs.empty], by simp [PullJobs.empty]⟩ ⟨by simp [PullJobs.empty],
      by simp [PullJobs.empty], by simp [PullJobs.empty]⟩
  · cases a with
    | submit p =>
      cases hst
      exact hs.submit (ha p rfl)
    | work i download => exact hs.work hst
  · cases a with
    | submit p =>
      cases hst
      exact submit_observable_iff hv5 hs (ha p rfl) ho
    | work i download => exact iff_of_false (work_unobservable hs hst) id

/-- Without an engine each pull is done at once. -/
def noEngine : PullConfig := ⟨false, fun _ => true, fun _ => some none⟩

theorem pulls_observable_without_engine : ∃ t,
    run (PullJobs.step id noEngine) PullJobs.empty
      [.submit ⟨"chat", "hf://a"⟩, .submit ⟨"embed", "hf://b"⟩] = some t ∧
    (t.jobStatus "chat:hf://a").map JobStatus.status = some .succeeded ∧
    Throughout (PullJobs.step id noEngine) (Observable id) PullJobs.empty
      [.submit ⟨"chat", "hf://a"⟩, .submit ⟨"embed", "hf://b"⟩] := by
  refine ⟨_, rfl, by decide, (pulls_observable_iff (fun _ _ _ _ h => h) rfl).mpr ?_⟩
  refine .head (fun _ q hq => absurd hq not_mem_nil) rfl
    (.head (fun _ q hq => ?_) rfl (.refl _))
  obtain rfl : q = ⟨"chat", "hf://a"⟩ := mem_singleton.mp hq
  constructor
  · rintro ⟨rest, hmodel, -⟩
    have hchars := congrArg String.toList hmodel
    simp [String.toList_append] at hchars
  · rintro ⟨rest, hmodel, -⟩
    have hchars := congrArg String.toList hmodel
    simp [String.toList_append] at hchars

def withEngine : PullConfig := { noEngine with engine := true }

/-- A download is over, and the status query still says that it is queued. -/
theorem pull_stays_queued : ∃ t,
    run (PullJobs.step id withEngine) PullJobs.empty
      [.submit ⟨"chat", "hf://a"⟩, .work 0 (.ok ()), .work 0 (.ok ())] = some t ∧
    (t.latest ⟨"chat", "hf://a"⟩).map JobStatus.status = some .succeeded ∧
    (t.jobStatus "chat:hf://a").map JobStatus.status = some .queued ∧ ¬ Observable id t := by
  refine ⟨_, rfl, by decide, by decide, fun h => ?_⟩
  have hshown := h.latest ⟨"chat", "hf://a"⟩ _ rfl
  exact absurd (congrArg (Option.map JobStatus.status) hshown) (by decide)

end Runs

end ColossalCode.ModelServer
