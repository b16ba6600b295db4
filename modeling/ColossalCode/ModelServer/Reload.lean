import ColossalCode.ModelServer.Guards

/-! Reloading the configuration while requests are served. A reload writes the configuration before
it builds what belongs to it, and replaces the scheduler and the manager one after the other; a
manager counts its own requests only. -/
namespace ColossalCode.ModelServer.Reload
open List Option Prod

open Transition

/-- Where a call of `handle_reload_config` stands, with the configuration it has read. -/
inductive Stage (C : Type) where
  | reading
  | validated (new : C)
  | committed (new : C)
  | built (new : C)
  | swapping (new : C)

/-- Where another request stands: one for a model holds a manager, given by its number, and
`handle_admin_evict` the advice of a scheduler. -/
inductive Request (C : Type) where
  | arrived
  | authorized
  | holding (manager : Nat)
  | live (manager : Nat)
  | advised (scheduler : C)

/-- The `AppState`, with the configuration each part was built from, and what is under way. The
managers are numbered as they are made. -/
structure Server (C A : Type) where
  config : C
  scheduler : C
  managers : List C
  manager : Nat
  auth : A
  reloads : List (Stage C)
  requests : List (Request C)

/-- A step of the reload or of the request with the number `i`. What the source of the configuration
yields, whether a manager can be built, whether a key is accepted and whether the model itself has no
room come from outside. -/
inductive Action (C : Type) where
  | reload
  | read (i : Nat) (result : Option C)
  | commit (i : Nat)
  | build (i : Nat) (works : Bool)
  | swapScheduler (i : Nat)
  | swapManager (i : Nat)
  | request
  | authorize (i : Nat) (accepted : Bool)
  | take (i : Nat)
  | enter (i : Nat) (busy : Bool)
  | advise (i : Nat)
  | finish (i : Nat)

def Request.isLive {C : Type} : Request C → Bool
  | .live _ => true
  | _ => false

/-- The request is counted by the manager with the number `m`. -/
def Request.isLiveOn {C : Type} (m : Nat) : Request C → Bool
  | .live n => n == m
  | _ => false

/-- What a reload builds with comes from the configuration. -/
def Stage.From {C : Type} (config : C) : Stage C → Prop
  | .committed new | .built new | .swapping new => new = config
  | _ => True

/-- What a request is served with comes from the configuration. -/
def Request.From {C : Type} (managers : List C) (config : C) : Request C → Prop
  | .holding m | .live m => managers[m]? = some config
  | .advised scheduler => scheduler = config
  | _ => True

variable {C A : Type} (limit : C → Nat) (authOf : C → A)

/-- The server at its start. -/
def Server.init (config : C) : Server C A where
  config
  scheduler := config
  managers := [config]
  manager := 0
  auth := authOf config
  reloads := []
  requests := []

namespace Server

/-- The requests that run, on whatever manager. -/
def running (s : Server C A) : Nat := s.requests.countP Request.isLive

/-- The `total_active` of a manager. -/
def totalActive (s : Server C A) (m : Nat) : Nat := s.requests.countP (Request.isLiveOn m)

def setReload (s : Server C A) (i : Nat) (stage : Stage C) : Server C A :=
  { s with reloads := s.reloads.set i stage }

def endReload (s : Server C A) (i : Nat) : Server C A :=
  { s with reloads := s.reloads.eraseIdx i }

def setRequest (s : Server C A) (i : Nat) (request : Request C) : Server C A :=
  { s with requests := s.requests.set i request }

def endRequest (s : Server C A) (i : Nat) : Server C A :=
  { s with requests := s.requests.eraseIdx i }

def step (s : Server C A) : Action C → Option (Server C A)
  | .reload => some { s with reloads := s.reloads ++ [.reading] }
  | .read i result =>
    match s.reloads[i]? with
    | some .reading =>
      match result with
      | some new => some (s.setReload i (.validated new))
      | none => some (s.endReload i)
    | _ => none
  | .commit i =>
    match s.reloads[i]? with
    | some (.validated new) => some { s.setReload i (.committed new) with config := new }
    | _ => none
  | .build i works =>
    match s.reloads[i]? with
    | some (.committed new) =>
      if works then some (s.setReload i (.built new)) else some (s.endReload i)
    | _ => none
  | .swapScheduler i =>
    match s.reloads[i]? with
    | some (.built new) => some { s.setReload i (.swapping new) with scheduler := new }
    | _ => none
  | .swapManager i =>
    match s.reloads[i]? with
    | some (.swapping new) => some { s.endReload i with
        managers := s.managers ++ [new]
        manager := s.managers.length }
    | _ => none
  | .request => some { s with requests := s.requests ++ [.arrived] }
  | .authorize i accepted =>
    match s.requests[i]? with
    | some .arrived => if accepted then some (s.setRequest i .authorized) else some (s.endRequest i)
    | _ => none
  | .take i =>
    match s.requests[i]? with
    | some .authorized => some (s.setRequest i (.holding s.manager))
    | _ => none
  | .enter i busy =>
    match s.requests[i]? with
    | some (.holding m) =>
      match s.managers[m]? with
      | some config =>
        if !busy && s.totalActive m < limit config then some (s.setRequest i (.live m))
        else some (s.endRequest i)
      | none => none
    | _ => none
  | .advise i =>
    match s.requests[i]? with
    | some .authorized => some (s.setRequest i (.advised s.scheduler))
    | _ => none
  | .finish i =>
    match s.requests[i]? with
    | some (.live _) | some (.advised _) => some (s.endRequest i)
    | _ => none

/-- All that a request is served with, and all that a reload under way builds, comes from the
configuration that `get` returns, and no more requests run than it allows. -/
structure OneConfig (s : Server C A) : Prop where
  scheduler : s.scheduler = s.config
  manager : s.managers[s.manager]? = some s.config
  auth : s.auth = authOf s.config
  requests : ∀ r ∈ s.requests, r.From s.managers s.config
  reloads : ∀ stage ∈ s.reloads, stage.From s.config
  bounded : s.running ≤ limit s.config

/-- A reload commits only the configuration that is there already, and a manager that has room admits
a request only if the requests of replaced managers leave room as well. -/
def Unchanging (s : Server C A) : Action C → Prop
  | .commit i => ∀ new, s.reloads[i]? = some (.validated new) → new = s.config
  | .enter i false => ∀ m config, s.requests[i]? = some (.holding m) →
      s.managers[m]? = some config → s.totalActive m < limit config → s.running < limit config
  | _ => True

variable {limit : C → Nat} {authOf : C → A} {s t : Server C A} {action : Action C}
  {actions : List (Action C)} {i : Nat}

theorem oneConfig_init (config : C) : (init authOf config).OneConfig limit authOf where
  scheduler := rfl
  manager := rfl
  auth := rfl
  requests := fun _ h => absurd h not_mem_nil
  reloads := fun _ h => absurd h not_mem_nil
  bounded := Nat.zero_le _

/-- A reload that goes on with the configuration, or ends. -/
theorem OneConfig.of_reloads (h : s.OneConfig limit authOf) {reloads : List (Stage C)}
    (hreloads : ∀ stage ∈ reloads, stage ∈ s.reloads ∨ stage.From s.config) :
    ({ s with reloads } : Server C A).OneConfig limit authOf :=
  { h with reloads := fun stage hstage => (hreloads stage hstage).elim (h.reloads stage) id }

theorem OneConfig.setReload (h : s.OneConfig limit authOf) (stage : Stage C)
    (hstage : stage.From s.config) : (s.setReload i stage).OneConfig limit authOf := by
  refine h.of_reloads fun other hother => ?_
  rcases mem_or_eq_of_mem_set hother with hold | rfl
  · exact .inl hold
  · exact .inr hstage

theorem OneConfig.endReload (h : s.OneConfig limit authOf) :
    (s.endReload i).OneConfig limit authOf :=
  h.of_reloads fun _ hother => .inl (mem_of_mem_eraseIdx hother)

/-- A request that goes on without running more than before, or ends. -/
theorem OneConfig.of_requests (h : s.OneConfig limit authOf) {requests : List (Request C)}
    (hrequests : ∀ r ∈ requests, r ∈ s.requests ∨ r.From s.managers s.config)
    (hrunning : requests.countP Request.isLive ≤ limit s.config) :
    ({ s with requests } : Server C A).OneConfig limit authOf :=
  { h with
    requests := fun r hr => (hrequests r hr).elim (h.requests r) id
    bounded := hrunning }

theorem OneConfig.endRequest (h : s.OneConfig limit authOf) :
    (s.endRequest i).OneConfig limit authOf :=
  h.of_requests (fun _ hr => .inl (mem_of_mem_eraseIdx hr))
    (Nat.le_trans (eraseIdx_sublist _ _).countP_le h.bounded)

theorem running_set {old : Request C} (new : Request C) (hold : s.requests[i]? = some old)
    (hlive : old.isLive = false) :
    (s.setRequest i new).running = s.running + new.isLive.toNat := by
  have hcount := countP_set_add (p := Request.isLive) (y := new) hold
  rw [hlive] at hcount
  exact hcount

theorem OneConfig.setRequest (h : s.OneConfig limit authOf) {old new : Request C}
    (hold : s.requests[i]? = some old) (hlive : old.isLive = false)
    (hfrom : new.From s.managers s.config) (hroom : s.running + new.isLive.toNat ≤ limit s.config) :
    (s.setRequest i new).OneConfig limit authOf := by
  rw [← running_set new hold hlive] at hroom
  refine h.of_requests (fun r hr => ?_) hroom
  rcases mem_or_eq_of_mem_set hr with hr | rfl
  · exact .inl hr
  · exact .inr hfrom

theorem OneConfig.of_reload (h : s.OneConfig limit authOf) {stage : Stage C}
    (hstage : s.reloads[i]? = some stage) : stage.From s.config :=
  h.reloads stage (mem_of_getElem? hstage)

/-- A new manager changes nothing for the requests that hold another. -/
theorem OneConfig.swapManager (h : s.OneConfig limit authOf) {new : C}
    (hstage : s.reloads[i]? = some (.swapping new)) :
    ({ s.endReload i with
      managers := s.managers ++ [new]
      manager := s.managers.length } : Server C A).OneConfig limit authOf := by
  obtain rfl : new = s.config := h.of_reload hstage
  refine { h.endReload (i := i) with manager := ?_, requests := ?_ }
  · simp [Server.endReload]
  · intro r hr
    have hfrom := h.requests r hr
    cases r with
    | holding m | live m =>
      have hm : m < s.managers.length := (List.getElem?_eq_some_iff.mp hfrom).1
      exact (List.getElem?_append_left hm).trans hfrom
    | arrived | authorized => trivial
    | advised c => exact hfrom

/-- Where all is built from one configuration, a commit keeps it so exactly if it changes
nothing. -/
theorem commit_iff (h : s.OneConfig limit authOf) {new : C} :
    ({ s.setReload i (.committed new) with config := new } : Server C A).OneConfig limit authOf ↔
      new = s.config := by
  constructor
  · exact fun ht => ht.scheduler.symm.trans h.scheduler
  · rintro rfl
    exact h.setReload _ rfl

theorem admit_iff (h : s.OneConfig limit authOf) {m : Nat}
    (hold : s.requests[i]? = some (.holding m)) :
    (s.setRequest i (.live m)).OneConfig limit authOf ↔ s.running < limit s.config := by
  have hrunning := running_set (.live m) hold rfl
  have hfrom : (Request.live m).From s.managers s.config :=
    h.requests (.holding m) (mem_of_getElem? hold)
  constructor
  · intro ht
    have hbounded := ht.bounded
    rw [hrunning] at hbounded
    exact hbounded
  · intro hroom
    exact h.setRequest hold rfl hfrom hroom

/-- A step keeps all on one configuration exactly if it is one that changes nothing. -/
theorem oneConfig_step_iff (h : s.OneConfig limit authOf) (hstep : s.step limit action = some t) :
    t.OneConfig limit authOf ↔ s.Unchanging limit action := by
  have hstays : ∀ {u : Server C A}, u.OneConfig limit authOf → (u.OneConfig limit authOf ↔ True) :=
    fun hu => iff_of_true hu trivial
  cases action with
  | reload =>
    obtain rfl := some.inj hstep
    refine hstays (h.of_reloads fun stage hstage => ?_)
    rcases mem_append.mp hstage with hstage | hstage
    · exact .inl hstage
    · obtain rfl := mem_singleton.mp hstage
      exact .inr trivial
  | read i result =>
    simp only [step] at hstep
    split at hstep
    · split at hstep <;> obtain rfl := some.inj hstep
      · exact hstays (h.setReload _ trivial)
      · exact hstays h.endReload
    · cases hstep
  | commit i =>
    simp only [step] at hstep
    split at hstep
    · rename_i new hstage
      obtain rfl := some.inj hstep
      rw [commit_iff h, Unchanging]
      constructor
      · rintro rfl other hother
        rw [hstage] at hother
        cases hother
        rfl
      · exact fun hall => hall new hstage
    · cases hstep
  | build i works =>
    simp only [step] at hstep
    split at hstep
    · rename_i new hstage
      split at hstep <;> obtain rfl := some.inj hstep
      · have hnew : new = s.config := h.of_reload hstage
        exact hstays (h.setReload _ hnew)
      · exact hstays h.endReload
    · cases hstep
  | swapScheduler i =>
    simp only [step] at hstep
    split at hstep
    · rename_i new hstage
      obtain rfl := some.inj hstep
      have hnew : new = s.config := h.of_reload hstage
      exact hstays { h.setReload (i := i) (.swapping new) hnew with scheduler := hnew }
    · cases hstep
  | swapManager i =>
    simp only [step] at hstep
    split at hstep
    · rename_i new hstage
      obtain rfl := some.inj hstep
      exact hstays (h.swapManager hstage)
    · cases hstep
  | request =>
    obtain rfl := some.inj hstep
    refine hstays (h.of_requests (fun r hr => ?_) ?_)
    · rcases mem_append.mp hr with hr | hr
      · exact .inl hr
      · obtain rfl := mem_singleton.mp hr
        exact .inr trivial
    · rw [countP_append]
      exact h.bounded
  | authorize i accepted =>
    simp only [step] at hstep
    split at hstep
    · rename_i hold
      split at hstep <;> obtain rfl := some.inj hstep
      · exact hstays (h.setRequest hold rfl trivial h.bounded)
      · exact hstays h.endRequest
    · cases hstep
  | take i =>
    simp only [step] at hstep
    split at hstep
    · rename_i hold
      obtain rfl := some.inj hstep
      exact hstays (h.setRequest hold rfl h.manager h.bounded)
    · cases hstep
  | enter i busy =>
    simp only [step] at hstep
    split at hstep
    · rename_i m hold
      split at hstep
      · rename_i config hconfig
        split at hstep
        · rename_i hroom
          obtain rfl := some.inj hstep
          rw [Bool.and_eq_true, Bool.not_eq_true', decide_eq_true_eq] at hroom
          obtain ⟨rfl, hroom⟩ := hroom
          have hfrom := h.requests _ (mem_of_getElem? hold)
          obtain rfl := some.inj (hconfig.symm.trans hfrom)
          rw [admit_iff h hold, Unchanging]
          constructor
          · intro hrunning m' config' hold' hconfig' _
            rw [hold] at hold'
            cases hold'
            rw [hconfig] at hconfig'
            cases hconfig'
            exact hrunning
          · exact fun hall => hall m _ hold hconfig hroom
        · rename_i hfull
          obtain rfl := some.inj hstep
          refine iff_of_true h.endRequest ?_
          cases busy with
          | true => trivial
          | false =>
            intro m' config' hold' hconfig' hroom
            rw [hold] at hold'
            cases hold'
            rw [hconfig] at hconfig'
            cases hconfig'
            simp [hroom] at hfull
      · cases hstep
    · cases hstep
  | advise i =>
    simp only [step] at hstep
    split at hstep
    · rename_i hold
      obtain rfl := some.inj hstep
      exact hstays (h.setRequest hold rfl h.scheduler h.bounded)
    · cases hstep
  | finish i =>
    simp only [step] at hstep
    split at hstep
    · obtain rfl := some.inj hstep
      exact hstays h.endRequest
    · obtain rfl := some.inj hstep
      exact hstays h.endRequest
    · cases hstep

/-- Whatever the order of reloads and requests: all is on one configuration throughout exactly if no
reload commits another one, and no request is admitted that the requests of replaced managers leave
no room for. -/
theorem one_config_iff (config : C)
    (hrun : run (step limit) (init authOf config) actions = some t) :
    Throughout (step limit) (OneConfig limit authOf) (init authOf config) actions ↔
      Steps (step limit) (Unchanging limit) (init authOf config) actions t :=
  throughout_iff_steps (I := fun _ => True) (fun _ _ _ _ _ => trivial)
    (fun _ _ _ _ hstep h => oneConfig_step_iff h hstep) hrun trivial (oneConfig_init config)

end Server

/-- A limit on the requests, and the keys. -/
abbrev SampleConfig : Type := Nat × List String

/-- The configuration is read again as it is, while a request comes. -/
def reloadSame : List (Action SampleConfig) :=
  [.reload, .read 0 (some (1, ["key"])), .request, .commit 0, .authorize 0 true, .build 0 true,
    .swapScheduler 0, .swapManager 0, .take 0, .enter 0 false, .finish 0]

theorem one_config_same : ∃ t,
    run (Server.step fst) (.init snd ((1, ["key"]) : SampleConfig)) reloadSame = some t ∧
      Throughout (Server.step fst) (Server.OneConfig fst snd)
        (.init snd ((1, ["key"]) : SampleConfig)) reloadSame := by
  have hsteps : Steps (Server.step fst) (Server.Unchanging fst)
      (.init snd ((1, ["key"]) : SampleConfig)) reloadSame _ :=
    .head trivial rfl <| .head trivial rfl <| .head trivial rfl <|
      .head (fun _ h => by cases h; rfl) rfl <| .head trivial rfl <| .head trivial rfl <|
      .head trivial rfl <| .head trivial rfl <| .head trivial rfl <|
      .head (fun _ _ hold hconfig _ => by cases hold; cases hconfig; decide) rfl <|
      .head trivial rfl <| .refl _
  exact ⟨_, hsteps.run_eq, (Server.one_config_iff _ hsteps.run_eq).mpr hsteps⟩

/-- The manager of a new configuration cannot be built. -/
def reloadFails : List (Action SampleConfig) :=
  [.reload, .read 0 (some (2, ["key", "other"])), .commit 0, .build 0 false]

/-- The reload fails, and the configuration is replaced all the same. -/
theorem failed_reload_commits : ¬ ∀ (config : SampleConfig) (actions : List (Action SampleConfig))
    (t : Server SampleConfig (List String)),
    run (Server.step fst) (.init snd config) actions = some t →
      Throughout (Server.step fst) (Server.OneConfig fst snd) (.init snd config)
        actions := by
  intro hall
  have hthrough := hall (1, ["key"]) reloadFails _ rfl
  have hend := hthrough reloadFails _ prefix_rfl rfl
  cases hend.scheduler

end ColossalCode.ModelServer.Reload
