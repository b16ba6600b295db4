import ColossalCode.A2A.Execution

/-! The streams of one task: `TaskStreamManager` and `subscribe_to_task`, while executions of the
task send their events. -/
namespace ColossalCode.A2A
open List Option

open Protocol Transition

/-- How a stream has come about: by `subscribe_to_task`, with the number of the status in its
snapshot, or by `message/stream`, for an execution. -/
inductive Kind where
  | subscribed (snapshot : Nat)
  | streaming (execution : Nat)
  deriving DecidableEq

/-- What a subscriber learns of the status of its task; the updates of a task are numbered. -/
inductive Item where
  | snapshot (version : Nat)
  | update (version : Nat)
  deriving DecidableEq

/-- A stream with its senders: in the map, in the task that awaits its closing, and in the function
that has made it. `buffered` counts the events that wait in its channel. -/
structure Subscriber where
  kind : Kind
  registered : Bool
  initialized : Bool
  received : List Item
  buffered : Nat
  entered : Bool
  awaited : Bool
  isOpen : Bool

/-- An execution of the task; `targets` are the streams that the event it sends has yet to reach. -/
structure Emitter where
  effects : List Effect
  version : Nat
  targets : Option (List Nat)

/-- A task: the number of the status it is stored with, and of its latest status update. -/
structure Feed where
  stored : Option Nat
  updates : Nat
  runs : List Emitter
  subs : List Subscriber

inductive FeedAction where
  | message (streaming : Bool) (agent : Agent) (step : SpecStep) (spec : SpecSheet)
  | proceed (i : Nat)
  | deliver (i j : Nat)
  | subscribe
  | register (j : Nat)
  | sendSnapshot (j : Nat)
  | read (j : Nat)
  | close (j : Nat)
  | cleanup (j : Nat)
  | remove (j : Nat)

/-- The channels of the streams hold 32 events. -/
def channelSize : Nat := 32

/-- The status update that is sent, if it is one. -/
def Emitter.update (run : Emitter) : Option Nat :=
  match run.effects with
  | .send (.statusUpdate _ _) :: _ => some run.version
  | _ => none

namespace Feed

def start : Feed := ⟨none, 0, [], []⟩

section Step

variable (f : Feed)

def setRun (i : Nat) (run : Emitter) : Feed := { f with runs := f.runs.set i run }

def setSub (j : Nat) (sub : Subscriber) : Feed := { f with subs := f.subs.set j sub }

/-- The streams that `send` finds in the map. -/
def entries : List Nat :=
  (List.range f.subs.length).filter fun j => (f.subs[j]?).any (·.entered)

/-- The next thing that an execution does, while none of its events is on the way. -/
def proceed (i : Nat) (run : Emitter) : Option Feed :=
  match run.effects, run.targets with
  | [], _ => none
  | .send (.statusUpdate _ _) :: _, none =>
    some ({ f with updates := f.updates + 1 }.setRun i
      { run with version := f.updates + 1, targets := some f.entries })
  | .send _ :: _, none => some (f.setRun i { run with targets := some f.entries })
  | .send _ :: effects, some [] => some (f.setRun i { run with effects, targets := none })
  | .send _ :: _, some (_ :: _) => none
  | .store _ :: effects, _ =>
    some ({ f with stored := some run.version }.setRun i { run with effects })
  | .process :: effects, _ | .requestCancel :: effects, _ | .processed :: effects, _ =>
    some (f.setRun i { run with effects })

/-- One of the streams gets the event, if its channel has room or is closed. -/
def deliver (i j : Nat) (run : Emitter) (targets : List Nat) (sub : Subscriber) : Option Feed :=
  let f := f.setRun i { run with targets := some (targets.erase j) }
  if sub.isOpen then
    if sub.buffered < channelSize then
      some (f.setSub j { sub with
        received := sub.received ++ run.update.toList.map .update
        buffered := sub.buffered + 1 })
    else none
  else some (f.setSub j { sub with entered := false })

/-- `subscribe_to_task` sends the snapshot, and returns the stream. -/
def sendSnapshot (j : Nat) (sub : Subscriber) : Option Feed :=
  match sub.kind with
  | .streaming _ => none
  | .subscribed snapshot =>
    if sub.registered && !sub.initialized then
      if sub.isOpen then
        if sub.buffered < channelSize then
          some (f.setSub j { sub with
            received := sub.received ++ [.snapshot snapshot]
            buffered := sub.buffered + 1
            initialized := true })
        else none
      else some (f.setSub j { sub with initialized := true })
    else none

/-- The cleanup after `message/stream`, once its execution is over. -/
def remove (j : Nat) (sub : Subscriber) : Option Feed :=
  match sub.kind with
  | .subscribed _ => none
  | .streaming execution =>
    (f.runs[execution]?).bind fun run =>
      if run.effects.isEmpty then some (f.setSub j { sub with entered := false }) else none

/-- `message/send` and `message/stream`; a new execution, and a stream for the latter. -/
def accept (rt : Runtime) (id : String) (streaming : Bool) (agent : Agent) (step : SpecStep)
    (spec : SpecSheet) : Feed :=
  { f with
    runs := f.runs ++ [⟨(executeTask rt agent id step spec).1, 0, none⟩]
    subs := if streaming then
        f.subs ++ [⟨.streaming f.runs.length, true, true, [], 0, true, true, true⟩]
      else f.subs }

end Step

def step (rt : Runtime) (id : String) (f : Feed) : FeedAction → Option Feed
  | .message streaming agent step spec => some (f.accept rt id streaming agent step spec)
  | .proceed i => (f.runs[i]?).bind fun run => f.proceed i run
  | .deliver i j => (f.runs[i]?).bind fun run => run.targets.bind fun targets =>
      if j ∈ targets then (f.subs[j]?).bind fun sub => f.deliver i j run targets sub else none
  | .subscribe =>
    match f.stored with
    | none => some f
    | some version =>
      some { f with
        subs := f.subs ++ [⟨.subscribed version, false, false, [], 0, false, false, true⟩] }
  | .register j => (f.subs[j]?).bind fun sub =>
      if sub.registered then none
      else some (f.setSub j { sub with registered := true, entered := true, awaited := true })
  | .sendSnapshot j => (f.subs[j]?).bind fun sub => f.sendSnapshot j sub
  | .read j => (f.subs[j]?).bind fun sub =>
      if sub.buffered = 0 then none else some (f.setSub j { sub with buffered := sub.buffered - 1 })
  | .close j => (f.subs[j]?).bind fun sub =>
      if sub.registered then some (f.setSub j { sub with isOpen := false }) else none
  | .cleanup j => (f.subs[j]?).bind fun sub =>
      if !sub.isOpen && sub.awaited then
        some (f.setSub j { sub with entered := false, awaited := false })
      else none
  | .remove j => (f.subs[j]?).bind fun sub => f.remove j sub

/-- A status update is on its way to a stream. -/
def InFlight (f : Feed) (j version : Nat) : Prop :=
  ∃ run ∈ f.runs, run.update = some version ∧ ∃ targets, run.targets = some targets ∧ j ∈ targets

/-- A snapshot, and the updates after it up to one of them. -/
def upTo (snapshot seen : Nat) : List Item :=
  .snapshot snapshot :: (List.range' (snapshot + 1) (seen - snapshot)).map .update

/-- A subscriber has received its snapshot and then each update after it, once and in order, but for
the ones that are still on their way to it. -/
def Sees (f : Feed) (j : Nat) (sub : Subscriber) (snapshot : Nat) : Prop :=
  ∃ seen, snapshot ≤ seen ∧ seen ≤ f.updates ∧
    sub.received = (if sub.initialized then upTo snapshot seen else []) ∧
    (sub.initialized = false → seen = snapshot) ∧
    ∀ version, seen < version → version ≤ f.updates → f.InFlight j version

/-- Some sender of the stream is still there: that of the map, the one that waits for the stream to
be closed, that of the subscription under way, or one that an event is sent to. -/
def HasSender (f : Feed) (j : Nat) (sub : Subscriber) : Prop :=
  sub.entered = true ∨ sub.awaited = true ∨ (sub.registered = true ∧ sub.initialized = false) ∨
    ∃ run ∈ f.runs, ∃ targets, run.targets = some targets ∧ j ∈ targets

/-- Every open subscription sees every update, and every open stream ends whose entry is removed. -/
structure Sound (f : Feed) : Prop where
  sees : ∀ j sub snapshot, f.subs[j]? = some sub → sub.kind = .subscribed snapshot →
    sub.registered = true → sub.isOpen = true → f.Sees j sub snapshot
  ends : ∀ j sub, f.subs[j]? = some sub → sub.registered = true → sub.isOpen = true →
    sub.entered = false → ¬ f.HasSender j sub

/-- A stream is registered before another update is sent after its snapshot was taken, an update
gets to a subscriber who has the snapshot and all updates before it, and an entry is removed when
its stream is closed. -/
def Upholds (f : Feed) : FeedAction → Prop
  | .deliver i j => ∀ run sub version snapshot, f.runs[i]? = some run → f.subs[j]? = some sub →
    run.update = some version → sub.kind = .subscribed snapshot → sub.isOpen = true →
    snapshot < version ∧ sub.initialized = true ∧ sub.received = upTo snapshot (version - 1)
  | .register j => ∀ sub snapshot, f.subs[j]? = some sub → sub.kind = .subscribed snapshot →
    f.updates = snapshot
  | .remove j => ∀ sub, f.subs[j]? = some sub → sub.isOpen = false
  | _ => True

/-- What is known of a stream, whatever happens around it. -/
structure KeptSub (f : Feed) (j : Nat) (sub : Subscriber) : Prop where
  snapshot : ∀ version, sub.kind = .subscribed version → version ≤ f.updates
  awaited : sub.registered = true → sub.isOpen = true → sub.awaited = true
  blank : sub.registered = false → sub.received = [] ∧ sub.initialized = false ∧
    sub.entered = false ∧ sub.isOpen = true
  untouched : sub.registered = false → ∀ run ∈ f.runs, ∀ targets, run.targets = some targets →
    j ∉ targets
  streams : ∀ execution, sub.kind = .streaming execution → sub.registered = true

structure Kept (f : Feed) : Prop where
  versions : ∀ run ∈ f.runs, run.version ≤ f.updates
  stored : ∀ version, f.stored = some version → version ≤ f.updates
  targets : ∀ run ∈ f.runs, ∀ targets, run.targets = some targets → ∀ j ∈ targets, j < f.subs.length
  subs : ∀ j sub, f.subs[j]? = some sub → f.KeptSub j sub

theorem kept_start : Kept start where
  versions run hrun := by cases hrun
  stored version h := by cases h
  targets run hrun := by cases hrun
  subs j sub h := by cases h

section Runs

variable {f t : Feed} {i j k version snapshot : Nat} {run run' : Emitter} {sub sub' : Subscriber}

theorem Kept.entered (h : Kept f) (hsub : f.subs[j]? = some sub) (hentered : sub.entered = true) :
    sub.registered = true := by
  by_contra hnot
  have hblank := (h.subs j sub hsub).blank (by simpa using hnot)
  rw [hblank.2.2.1] at hentered
  cases hentered

/-- An open stream that is still in the map, as long as every entry that is removed was of a closed
one. -/
theorem sound_iff (h : Kept f) : Sound f ↔
    (∀ (j : Nat) (sub : Subscriber) (snapshot : Nat), f.subs[j]? = some sub →
      sub.kind = .subscribed snapshot → sub.registered = true → sub.isOpen = true →
        f.Sees j sub snapshot) ∧
    ∀ (j : Nat) (sub : Subscriber), f.subs[j]? = some sub → sub.registered = true →
      sub.isOpen = true →
      sub.entered = true := by
  constructor
  · intro hsound
    refine ⟨hsound.sees, fun j sub hsub hregistered hopen => ?_⟩
    by_contra hentered
    refine hsound.ends j sub hsub hregistered hopen (by simpa using hentered) (.inr (.inl ?_))
    exact (h.subs j sub hsub).awaited hregistered hopen
  · rintro ⟨hsees, hentered⟩
    refine ⟨hsees, fun j sub hsub hregistered hopen hnot => ?_⟩
    rw [hentered j sub hsub hregistered hopen] at hnot
    cases hnot

/-- The streams afterwards, the one that has changed apart. -/
theorem sound_after_iff (hk : Kept f) (hk' : Kept t) (hs : Sound f) (hsub : f.subs[j]? = some sub)
    (hsubs : t.subs = f.subs.set j sub')
    (hothers : ∀ k sub snapshot, k ≠ j → f.Sees k sub snapshot → t.Sees k sub snapshot) :
    Sound t ↔ (∀ snapshot, sub'.kind = .subscribed snapshot → sub'.registered = true →
        sub'.isOpen = true → t.Sees j sub' snapshot) ∧
      (sub'.registered = true → sub'.isOpen = true → sub'.entered = true) := by
  have hself : t.subs[j]? = some sub' := by
    rw [hsubs]
    exact List.getElem?_set_self (List.getElem?_eq_some_iff.mp hsub).1
  have hne : ∀ k, k ≠ j → t.subs[k]? = f.subs[k]? := by
    intro k hkj
    rw [hsubs]
    exact List.getElem?_set_ne (Ne.symm hkj)
  obtain ⟨hsees, hentered⟩ := (sound_iff hk).mp hs
  rw [sound_iff hk']
  constructor
  · rintro ⟨hsees', hentered'⟩
    exact ⟨fun snapshot => hsees' j sub' snapshot hself, hentered' j sub' hself⟩
  · rintro ⟨hsees', hentered'⟩
    refine ⟨fun k other snapshot hother => ?_, fun k other hother => ?_⟩
    · by_cases hkj : k = j
      · subst hkj
        cases hself.symm.trans hother
        exact hsees' snapshot
      · rw [hne k hkj] at hother
        exact fun hkind hregistered hopen =>
          hothers k other snapshot hkj (hsees k other snapshot hother hkind hregistered hopen)
    · by_cases hkj : k = j
      · subst hkj
        cases hself.symm.trans hother
        exact hentered'
      · rw [hne k hkj] at hother
        exact hentered k other hother

theorem mem_runs (hrun : f.runs[i]? = some run) {other : Emitter} (hother : other ∈ f.runs)
    (run' : Emitter) : other = run ∨ other ∈ f.runs.set i run' := by
  obtain ⟨k, hk⟩ := mem_iff_getElem?.mp hother
  by_cases hki : k = i
  · subst hki
    exact .inl (Option.some.inj (hk.symm.trans hrun))
  · exact .inr (mem_of_getElem? ((List.getElem?_set_ne (Ne.symm hki)).trans hk))

theorem mem_set_self {α : Type} {xs : List α} {x y : α} (h : xs[i]? = some x) : y ∈ xs.set i y :=
  mem_of_getElem? (List.getElem?_set_self (List.getElem?_eq_some_iff.mp h).1)

/-- An update that is on its way remains so, if the execution that sends it goes on to send it. -/
theorem InFlight.setRun (h : f.InFlight j version) (hrun : f.runs[i]? = some run)
    (hkept : ∀ targets, run.update = some version → run.targets = some targets → j ∈ targets →
      run'.update = some version ∧ ∃ targets', run'.targets = some targets' ∧ j ∈ targets') :
    (f.setRun i run').InFlight j version := by
  obtain ⟨other, hother, hupdate, targets, htargets, hj⟩ := h
  rcases mem_runs hrun hother run' with rfl | hmem
  · exact ⟨run', mem_set_self hrun, hkept targets hupdate htargets hj⟩
  · exact ⟨other, hmem, hupdate, targets, htargets, hj⟩

/-- The executions afterwards, the one that has moved apart. -/
theorem Kept.setRun (h : Kept f) (hrun : f.runs[i]? = some run)
    (hversion : run'.version ≤ f.updates)
    (htargets : ∀ targets, run'.targets = some targets → ∀ j ∈ targets,
      (∃ before, run.targets = some before ∧ j ∈ before) ∨
        ∃ sub, f.subs[j]? = some sub ∧ sub.registered = true) :
    Kept (f.setRun i run') := by
  have hmem := mem_of_getElem? hrun
  refine ⟨fun other hother => ?_, h.stored, fun other hother targets hof j hj => ?_,
    fun j sub hsub => ?_⟩
  · rcases mem_or_eq_of_mem_set hother with hother | rfl
    · exact h.versions other hother
    · exact hversion
  · rcases mem_or_eq_of_mem_set hother with hother | rfl
    · exact h.targets other hother targets hof j hj
    · rcases htargets targets hof j hj with ⟨before, hbefore, hj⟩ | ⟨sub, hsub, -⟩
      · exact h.targets run hmem before hbefore j hj
      · exact (List.getElem?_eq_some_iff.mp hsub).1
  · have hkept := h.subs j sub hsub
    refine ⟨hkept.snapshot, hkept.awaited, hkept.blank,
      fun hblank other hother targets hof hj => ?_, hkept.streams⟩
    rcases mem_or_eq_of_mem_set hother with hother | rfl
    · exact hkept.untouched hblank other hother targets hof hj
    · rcases htargets targets hof j hj with ⟨before, hbefore, hj⟩ | ⟨sub', hsub', hregistered⟩
      · exact hkept.untouched hblank run hmem before hbefore hj
      · cases hsub.symm.trans hsub'
        rw [hblank] at hregistered
        cases hregistered

theorem Kept.setSub (h : Kept f) (hsub : f.subs[j]? = some sub) (hkept : f.KeptSub j sub') :
    Kept (f.setSub j sub') := by
  refine ⟨h.versions, h.stored, fun other hother targets hof k hk => ?_, fun k other hother => ?_⟩
  · exact (h.targets other hother targets hof k hk).trans_eq (length_set ..).symm
  · by_cases hkj : k = j
    · subst hkj
      have hself : (f.subs.set k sub')[k]? = some sub' :=
        List.getElem?_set_self (List.getElem?_eq_some_iff.mp hsub).1
      cases hself.symm.trans hother
      exact ⟨hkept.snapshot, hkept.awaited, hkept.blank, hkept.untouched, hkept.streams⟩
    · have hother : f.subs[k]? = some other :=
        (List.getElem?_set_ne (Ne.symm hkj)).symm.trans hother
      have hkept := h.subs k other hother
      exact ⟨hkept.snapshot, hkept.awaited, hkept.blank, hkept.untouched, hkept.streams⟩

theorem mem_entries (h : Kept f) (hj : j ∈ f.entries) :
    ∃ sub, f.subs[j]? = some sub ∧ sub.registered = true := by
  obtain ⟨-, hj⟩ := mem_filter.mp hj
  cases hsub : f.subs[j]? with
  | none =>
    rw [hsub] at hj
    cases hj
  | some sub =>
    rw [hsub] at hj
    exact ⟨sub, rfl, h.entered hsub hj⟩

theorem entries_of_entered (hsub : f.subs[j]? = some sub) (hentered : sub.entered = true) :
    j ∈ f.entries := by
  refine mem_filter.mpr ⟨mem_range.mpr (List.getElem?_eq_some_iff.mp hsub).1, ?_⟩
  rw [hsub]
  exact hentered

theorem Kept.next (h : Kept f) : Kept { f with updates := f.updates + 1 } where
  versions run hrun := Nat.le_succ_of_le (h.versions run hrun)
  stored version hstored := Nat.le_succ_of_le (h.stored version hstored)
  targets := h.targets
  subs j sub hsub := by
    have hkept := h.subs j sub hsub
    exact ⟨fun version hkind => Nat.le_succ_of_le (hkept.snapshot version hkind), hkept.awaited,
      hkept.blank, hkept.untouched, hkept.streams⟩

/-- Nothing changes for the streams. -/
theorem Sound.same (hs : Sound f) (hk : Kept f) (hk' : Kept t) (hsubs : t.subs = f.subs)
    (hsees : ∀ j sub snapshot, f.subs[j]? = some sub → sub.registered = true → sub.isOpen = true →
      f.Sees j sub snapshot → t.Sees j sub snapshot) : Sound t := by
  obtain ⟨hsees', hentered⟩ := (sound_iff hk).mp hs
  refine (sound_iff hk').mpr ⟨fun j sub snapshot hsub hkind hregistered hopen => ?_,
    hsubs ▸ hentered⟩
  rw [hsubs] at hsub
  exact hsees j sub snapshot hsub hregistered hopen
    (hsees' j sub snapshot hsub hkind hregistered hopen)

theorem Sees.setRun (h : f.Sees j sub snapshot) (hrun : f.runs[i]? = some run)
    (hkept : ∀ version targets, run.update = some version → run.targets =
      some targets → j ∈ targets →
      run'.update = some version ∧ ∃ targets', run'.targets = some targets' ∧ j ∈ targets') :
    (f.setRun i run').Sees j sub snapshot := by
  obtain ⟨seen, hsnapshot, hseen, hreceived, hfirst, hflight⟩ := h
  refine ⟨seen, hsnapshot, hseen, hreceived, hfirst, fun version hlt hle => ?_⟩
  exact (hflight version hlt hle).setRun hrun (hkept version)

/-- An execution moves on, and sends what it was sending. -/
theorem quiet_step (hk : Kept f) (hrun : f.runs[i]? = some run) (run' : Emitter)
    (hversion : run'.version ≤ f.updates)
    (htargets : ∀ targets, run'.targets = some targets → ∀ j ∈ targets,
      (∃ before, run.targets = some before ∧ j ∈ before) ∨
        ∃ sub, f.subs[j]? = some sub ∧ sub.registered = true)
    (hsending : ∀ version targets j, run.update = some version → run.targets = some targets →
      j ∈ targets → run'.update = some version ∧
        ∃ targets', run'.targets = some targets' ∧ j ∈ targets') :
    Kept (f.setRun i run') ∧ (Sound f → Sound (f.setRun i run')) := by
  have hkept := hk.setRun hrun hversion htargets
  refine ⟨hkept, fun hs => hs.same hk hkept rfl fun j sub snapshot _ _ _ hsees => ?_⟩
  exact hsees.setRun hrun fun version targets => hsending version targets j

/-- An effect that is no event. -/
theorem pass_step (hk : Kept f) (hrun : f.runs[i]? = some run) (hnone : run.update = none)
    (effects : List Effect) : Kept (f.setRun i { run with effects }) ∧
      (Sound f → Sound (f.setRun i { run with effects })) := by
  refine quiet_step hk hrun _ (hk.versions run (mem_of_getElem? hrun))
    (fun targets hof j hj => .inl ⟨targets, hof, hj⟩) fun version targets j hupdate => ?_
  rw [hnone] at hupdate
  cases hupdate

/-- What an execution does between its events changes nothing for the streams, but that an update is
on its way to all that are in the map. -/
theorem proceed_step (hk : Kept f) (hrun : f.runs[i]? = some run) (ht : f.proceed i run = some t) :
    Kept t ∧ (Sound f → Sound t) := by
  have hmem := mem_of_getElem? hrun
  have hversion := hk.versions run hmem
  unfold Feed.proceed at ht
  split at ht
  · cases ht
  · rename_i status finalUpdate effects heffects htargets
    cases ht
    have hentries : ∀ targets, some f.entries = some targets → ∀ j ∈ targets,
        (∃ before, run.targets = some before ∧ j ∈ before) ∨
          ∃ sub, f.subs[j]? = some sub ∧ sub.registered = true := by
      intro targets hof j hj
      cases hof
      exact .inr (mem_entries hk hj)
    have hkept : Kept ({ f with updates := f.updates + 1 }.setRun i
        { run with version := f.updates + 1, targets := some f.entries }) :=
      hk.next.setRun hrun (Nat.le_refl _) hentries
    refine ⟨hkept, fun hs => hs.same hk hkept rfl fun j sub snapshot hsub hregistered
      hopen hsees => ?_⟩
    have hentered := ((sound_iff hk).mp hs).2 j sub hsub hregistered hopen
    obtain ⟨seen, hsnapshot, hseen, hreceived, hfirst, hflight⟩ := hsees
    refine ⟨seen, hsnapshot, Nat.le_succ_of_le hseen, hreceived, hfirst, fun version hlt hle => ?_⟩
    rcases Nat.le_succ_iff.mp hle with hle | rfl
    · refine InFlight.setRun (f := { f with updates := f.updates + 1 })
        (hflight version hlt hle) hrun
        fun targets _ hof => ?_
      rw [htargets] at hof
      cases hof
    · refine ⟨_, mem_set_self hrun, ?_, f.entries, rfl, entries_of_entered hsub hentered⟩
      unfold Emitter.update
      dsimp only
      rw [heffects]
  · rename_i htargets
    cases ht
    refine quiet_step hk hrun _ hversion
      (fun targets hof j hj => ?_) fun version targets j _ hof => ?_
    · cases hof
      exact .inr (mem_entries hk hj)
    · rw [htargets] at hof
      cases hof
  · rename_i htargets
    cases ht
    refine quiet_step hk hrun _ hversion
      (fun targets hof => by cases hof) fun version targets j _ hof hj => ?_
    rw [htargets] at hof
    cases hof
    cases hj
  · cases ht
  · rename_i task effects heffects
    cases ht
    have hkept : Kept { f with stored := some run.version } := by
      refine ⟨hk.versions, fun version hstored => ?_, hk.targets, fun j sub hsub => ?_⟩
      · cases hstored
        exact hversion
      · have hkept := hk.subs j sub hsub
        exact ⟨hkept.snapshot, hkept.awaited, hkept.blank, hkept.untouched, hkept.streams⟩
    have hnone : run.update = none := by
      unfold Emitter.update
      rw [heffects]
    obtain ⟨hkept', hsound⟩ := pass_step hkept hrun hnone effects
    refine ⟨hkept', fun hs => hsound ?_⟩
    exact hs.same hk hkept rfl fun _ _ _ _ _ _ hsees => hsees
  all_goals
    rename_i heffects
    cases ht
    refine pass_step hk hrun ?_ _
    unfold Emitter.update
    rw [heffects]

theorem upTo_succ {seen : Nat} (h : snapshot ≤ seen) :
    upTo snapshot (seen + 1) = upTo snapshot seen ++ [.update (seen + 1)] := by
  have hlength : seen + 1 - snapshot = (seen - snapshot) + 1 := by omega
  have hlast : snapshot + 1 + 1 * (seen - snapshot) = seen + 1 := by omega
  rw [upTo, upTo, hlength, List.range'_concat, map_append, hlast]
  rfl

theorem length_upTo (snapshot seen : Nat) : (upTo snapshot seen).length = seen - snapshot + 1 := by
  rw [upTo, length_cons, length_map, length_range']

/-- The next item shows which update it is of. -/
theorem upTo_next {seen seen' : Nat} (hseen : snapshot ≤ seen) (hseen' : snapshot ≤ seen')
    (h : upTo snapshot seen ++ [.update version] = upTo snapshot seen') :
    version = seen + 1 ∧ seen' = seen + 1 := by
  have hlength := congrArg List.length h
  rw [length_append, length_upTo, length_upTo, length_singleton] at hlength
  have hnext : seen' = seen + 1 := by omega
  rw [hnext, upTo_succ hseen] at h
  have hlast := append_cancel_left h
  cases hlast
  exact ⟨rfl, hnext⟩

theorem upTo_injective {seen seen' : Nat} (hseen : snapshot ≤ seen) (hseen' : snapshot ≤ seen')
    (h : upTo snapshot seen = upTo snapshot seen') : seen = seen' := by
  have hlength := congrArg List.length h
  rw [length_upTo, length_upTo] at hlength
  omega

theorem update_version (h : run.update = some version) : version = run.version := by
  unfold Emitter.update at h
  split at h
  · exact (Option.some.inj h).symm
  · cases h

/-- A subscriber who gets an update sees it if and only if it is the next one. -/
theorem sees_delivered_iff (hsees : f.Sees j sub snapshot)
    (hupdates : t.updates = f.updates) (hversion : version ≤ f.updates)
    (hreceived : sub'.received = sub.received ++ [.update version])
    (hinitialized : sub'.initialized = sub.initialized)
    (hflight : ∀ other, other ≠ version → f.InFlight j other → t.InFlight j other) :
    t.Sees j sub' snapshot ↔ snapshot < version ∧ sub.initialized = true ∧
      sub.received = upTo snapshot (version - 1) := by
  obtain ⟨seen, hsnapshot, hseen, hreceivedBefore, hfirst, hflightBefore⟩ := hsees
  constructor
  · rintro ⟨seen', hsnapshot', hseen', hreceived', -, -⟩
    rw [hreceived, hinitialized] at hreceived'
    cases hinit : sub.initialized with
    | false =>
      rw [hinit] at hreceived'
      exact absurd hreceived' (append_ne_nil_of_right_ne_nil _ (cons_ne_nil _ _))
    | true =>
      rw [hinit, if_pos rfl] at hreceived' hreceivedBefore
      rw [hreceivedBefore] at hreceived'
      obtain ⟨rfl, -⟩ := upTo_next hsnapshot hsnapshot' hreceived'
      exact ⟨by omega, rfl, hreceivedBefore⟩
  · rintro ⟨hlt, hinit, hbefore⟩
    rw [hinit, if_pos rfl, hbefore] at hreceivedBefore
    have hseenBefore := upTo_injective (by omega) hsnapshot hreceivedBefore
    have hsucc : upTo snapshot version = upTo snapshot (version - 1) ++ [.update version] := by
      have hnext : upTo snapshot (version - 1 + 1) = _ := upTo_succ (by omega)
      rwa [Nat.sub_add_cancel (by omega)] at hnext
    refine ⟨version, by omega, hupdates ▸ hversion, ?_, ?_, fun other hother hle => ?_⟩
    · rw [hreceived, hinitialized, hinit, if_pos rfl, hsucc, hbefore]
    · rw [hinitialized, hinit]
      intro hfalse
      cases hfalse
    · exact hflight other (by omega) (hflightBefore other (by omega) (hupdates ▸ hle))

/-- A stream that is registered by now. -/
theorem KeptSub.change (h : f.KeptSub j sub) (sub' : Subscriber) (hkind : sub'.kind = sub.kind)
    (hregistered : sub'.registered = true) (hawaited : sub'.isOpen = true → sub'.awaited = true) :
    f.KeptSub j sub' := by
  have hnot : ∀ {p : Prop}, sub'.registered = false → p := by
    intro p hblank
    rw [hregistered] at hblank
    cases hblank
  exact ⟨fun version hof => h.snapshot version (hkind ▸ hof), fun _ => hawaited, hnot, hnot,
    fun _ _ => hregistered⟩

variable {targets : List Nat}

theorem Kept.registered (hk : Kept f) (hrun : f.runs[i]? = some run)
    (htargets : run.targets = some targets) (hj : j ∈ targets) (hsub : f.subs[j]? = some sub) :
    sub.registered = true := by
  by_contra hnot
  exact (hk.subs j sub hsub).untouched (by simpa using hnot) run (mem_of_getElem? hrun) targets
    htargets hj

/-- A delivery: the streams besides are left alone, and every other update that is on its way. -/
theorem deliver_step (hk : Kept f) (hrun : f.runs[i]? = some run)
    (htargets : run.targets = some targets) (hj : j ∈ targets) (hsub : f.subs[j]? = some sub)
    (ht : f.deliver i j run targets sub = some t) :
    Kept t ∧ (Sound f → (Sound t ↔ f.Upholds (.deliver i j))) := by
  have hversion := hk.versions run (mem_of_getElem? hrun)
  have hregistered := hk.registered hrun htargets hj hsub
  have hleft : ∀ targets', some (targets.erase j) = some targets' → ∀ k ∈ targets',
      (∃ before, run.targets = some before ∧ k ∈ before) ∨
        ∃ sub, f.subs[k]? = some sub ∧ sub.registered = true := by
    intro targets' hof k hmem
    cases hof
    exact .inl ⟨targets, htargets, mem_of_mem_erase hmem⟩
  have hkept : Kept (f.setRun i { run with targets := some (targets.erase j) }) :=
    hk.setRun hrun hversion hleft
  have hkeptSub := hkept.subs j sub hsub
  have hflight : ∀ version, run.update ≠ some version → f.InFlight j version →
      (f.setRun i { run with targets := some (targets.erase j) }).InFlight j version :=
    fun version hne h => h.setRun hrun fun _ hupdate => absurd hupdate hne
  have hothers : ∀ k other snapshot, k ≠ j → f.Sees k other snapshot →
      (f.setRun i { run with targets := some (targets.erase j) }).Sees k other snapshot := by
    intro k other snapshot hkj hsees
    refine hsees.setRun hrun fun version targets' hupdate hof hmem => ⟨hupdate, _, rfl, ?_⟩
    cases htargets.symm.trans hof
    exact (mem_erase_of_ne hkj).mpr hmem
  unfold Feed.deliver at ht
  dsimp only at ht
  split at ht
  · rename_i hopen
    split at ht
    · cases ht
      have hkept' := hkept.setSub hsub (hkeptSub.change { sub with
        received := sub.received ++ run.update.toList.map .update
        buffered := sub.buffered + 1 } rfl hregistered (hkeptSub.awaited hregistered))
      refine ⟨hkept', fun hs => ?_⟩
      obtain ⟨hsees, hentered⟩ := (sound_iff hk).mp hs
      refine (sound_after_iff hk hkept' hs hsub rfl hothers).trans ?_
      rw [and_iff_left (hentered j sub hsub)]
      have hdelivered : ∀ version snapshot, run.update = some version →
          sub.kind = .subscribed snapshot →
          (Sees (Feed.setSub (f.setRun i { run with targets := some (targets.erase j) }) j
            { sub with
              received := sub.received ++ run.update.toList.map .update
              buffered := sub.buffered + 1 }) j { sub with
              received := sub.received ++ run.update.toList.map .update
              buffered := sub.buffered + 1 } snapshot ↔
            snapshot < version ∧ sub.initialized = true ∧
              sub.received = upTo snapshot (version - 1)) := by
        intro version snapshot hupdate hkind
        refine sees_delivered_iff (hsees j sub snapshot hsub hkind hregistered hopen) rfl ?_ ?_ rfl
          fun other hne hin => hflight other (fun hother => hne ?_) hin
        · rw [update_version hupdate]
          exact hversion
        · rw [hupdate]
          rfl
        · rw [hupdate] at hother
          exact (Option.some.inj hother).symm
      constructor
      · intro hafter run' sub' version snapshot hrun' hsub' hupdate hkind _
        cases hrun.symm.trans hrun'
        cases hsub.symm.trans hsub'
        exact (hdelivered version snapshot hupdate hkind).mp
          (hafter snapshot hkind hregistered hopen)
      · intro huphold snapshot hkind _ _
        cases hupdate : run.update with
        | none =>
          obtain ⟨seen, hsnapshot, hseen, hreceived, hfirst, hinFlight⟩ :=
            hsees j sub snapshot hsub hkind hregistered hopen
          refine ⟨seen, hsnapshot, hseen, ?_, hfirst, fun version hlt hle => ?_⟩
          · rw [← hreceived]
            exact append_nil _
          · refine hflight version ?_ (hinFlight version hlt hle)
            rw [hupdate]
            exact (some_ne_none _).symm
        | some version =>
          have hsees' := (hdelivered version snapshot hupdate hkind).mpr
            (huphold run sub version snapshot hrun hsub hupdate hkind hopen)
          rw [hupdate] at hsees'
          exact hsees'
    · cases ht
  · rename_i hclosed
    cases ht
    have hkept' := hkept.setSub hsub (hkeptSub.change { sub with entered := false } rfl
      hregistered fun hopen => absurd hopen hclosed)
    refine ⟨hkept', fun hs => ?_⟩
    refine (sound_after_iff hk hkept' hs hsub rfl hothers).trans (iff_of_true ?_ ?_)
    · exact ⟨fun _ _ _ hopen => absurd hopen hclosed, fun _ hopen => absurd hopen hclosed⟩
    · intro run' sub' version snapshot _ hsub' _ _ hopen
      cases hsub.symm.trans hsub'
      exact absurd hopen hclosed

/-- A change of one stream only. -/
theorem setSub_step (hk : Kept f) (hsub : f.subs[j]? = some sub) (sub' : Subscriber)
    (hkept : f.KeptSub j sub') :
    Kept (f.setSub j sub') ∧ (Sound f → (Sound (f.setSub j sub') ↔
      (∀ snapshot, sub'.kind = .subscribed snapshot → sub'.registered = true → sub'.isOpen = true →
        f.Sees j sub' snapshot) ∧
      (sub'.registered = true → sub'.isOpen = true → sub'.entered = true))) := by
  have hkept' := hk.setSub hsub hkept
  exact ⟨hkept', fun hs => sound_after_iff hk hkept' hs hsub rfl fun _ _ _ _ hsees => hsees⟩

theorem register_step (hk : Kept f) (hsub : f.subs[j]? = some sub) (hnew : sub.registered = false) :
    Kept (f.setSub j { sub with registered := true, entered := true, awaited := true }) ∧
      (Sound f →
        (Sound (f.setSub j { sub with registered := true, entered := true, awaited := true }) ↔
          f.Upholds (.register j))) := by
  have hkeptSub := hk.subs j sub hsub
  obtain ⟨hreceived, hinitialized, -, hopen⟩ := hkeptSub.blank hnew
  obtain ⟨hkept, hsound⟩ := setSub_step hk hsub _ (hkeptSub.change { sub with
    registered := true, entered := true, awaited := true } rfl rfl fun _ => rfl)
  refine ⟨hkept, fun hs => (hsound hs).trans ?_⟩
  rw [and_iff_left fun _ _ => rfl]
  have hnothing : ∀ version, ¬ f.InFlight j version := by
    rintro version ⟨run, hrun, -, targets, htargets, hj⟩
    exact hkeptSub.untouched hnew run hrun targets htargets hj
  constructor
  · intro hsees sub' snapshot hsub' hkind
    cases hsub.symm.trans hsub'
    obtain ⟨seen, -, hseen, -, hfirst, hflight⟩ := hsees snapshot hkind rfl hopen
    obtain rfl := hfirst hinitialized
    by_contra hne
    exact hnothing f.updates (hflight f.updates (by omega) (Nat.le_refl _))
  · intro hlatest snapshot hkind _ _
    have hupdates := hlatest sub snapshot hsub hkind
    refine ⟨snapshot, Nat.le_refl _, Nat.le_of_eq hupdates.symm, ?_, fun _ => rfl,
      fun version hlt hle => by omega⟩
    dsimp only
    rw [hreceived, hinitialized]
    rfl

theorem sendSnapshot_step (hk : Kept f) (hsub : f.subs[j]? = some sub)
    (ht : f.sendSnapshot j sub = some t) : Kept t ∧ (Sound f → Sound t) := by
  have hkeptSub := hk.subs j sub hsub
  unfold Feed.sendSnapshot at ht
  split at ht
  · cases ht
  · rename_i snapshot hkind
    split at ht
    · rename_i hnew
      rw [Bool.and_eq_true, Bool.not_eq_true'] at hnew
      obtain ⟨hregistered, hinitialized⟩ := hnew
      split at ht
      · rename_i hopen
        split at ht
        · cases ht
          obtain ⟨hkept, hsound⟩ := setSub_step hk hsub _ (hkeptSub.change { sub with
            received := sub.received ++ [.snapshot snapshot]
            buffered := sub.buffered + 1
            initialized := true } rfl hregistered (hkeptSub.awaited hregistered))
          refine ⟨hkept, fun hs => (hsound hs).mpr ?_⟩
          obtain ⟨hsees, hentered⟩ := (sound_iff hk).mp hs
          refine ⟨fun other hother _ _ => ?_, hentered j sub hsub⟩
          obtain rfl := Kind.subscribed.inj (hkind.symm.trans hother)
          obtain ⟨seen, hsnapshot, hseen, hreceived, hfirst, hflight⟩ :=
            hsees j sub snapshot hsub hkind hregistered hopen
          obtain rfl := hfirst hinitialized
          rw [hinitialized] at hreceived
          refine ⟨seen, hsnapshot, hseen, ?_, fun _ => rfl, hflight⟩
          dsimp only
          rw [hreceived, if_pos rfl, upTo, Nat.sub_self]
          rfl
        · cases ht
      · rename_i hclosed
        cases ht
        obtain ⟨hkept, hsound⟩ := setSub_step hk hsub _ (hkeptSub.change { sub with
          initialized := true } rfl hregistered (hkeptSub.awaited hregistered))
        refine ⟨hkept, fun hs => (hsound hs).mpr ?_⟩
        exact ⟨fun _ _ _ hopen => absurd hopen hclosed, fun _ hopen => absurd hopen hclosed⟩
    · cases ht

/-- What is left of a stream that is closed or merely read from. -/
theorem read_step (hk : Kept f) (hsub : f.subs[j]? = some sub) (buffered : Nat) :
    Kept (f.setSub j { sub with buffered }) ∧
      (Sound f → Sound (f.setSub j { sub with buffered })) := by
  have hkeptSub := hk.subs j sub hsub
  obtain ⟨hkept, hsound⟩ := setSub_step hk hsub { sub with buffered }
    ⟨hkeptSub.snapshot, hkeptSub.awaited, hkeptSub.blank, hkeptSub.untouched, hkeptSub.streams⟩
  refine ⟨hkept, fun hs => (hsound hs).mpr ?_⟩
  obtain ⟨hsees, hentered⟩ := (sound_iff hk).mp hs
  exact ⟨fun snapshot => hsees j sub snapshot hsub, hentered j sub hsub⟩

theorem closed_step (hk : Kept f) (hsub : f.subs[j]? = some sub)
    (hregistered : sub.registered = true)
    (hkind : sub'.kind = sub.kind) (hregistered' : sub'.registered = sub.registered)
    (hclosed : sub'.isOpen = false) :
    Kept (f.setSub j sub') ∧ (Sound f → Sound (f.setSub j sub')) := by
  have hnot : ∀ {p : Prop}, sub'.isOpen = true → p := by
    intro p hopen
    rw [hclosed] at hopen
    cases hopen
  obtain ⟨hkept, hsound⟩ := setSub_step hk hsub sub'
    ((hk.subs j sub hsub).change sub' hkind (hregistered'.trans hregistered) hnot)
  exact ⟨hkept, fun hs => (hsound hs).mpr ⟨fun _ _ _ => hnot, fun _ => hnot⟩⟩

theorem remove_step (hk : Kept f) (hsub : f.subs[j]? = some sub) (ht : f.remove j sub = some t) :
    Kept t ∧ (Sound f → (Sound t ↔ f.Upholds (.remove j))) := by
  have hkeptSub := hk.subs j sub hsub
  unfold Feed.remove at ht
  split at ht
  · cases ht
  · rename_i execution hkind
    obtain ⟨run, -, ht⟩ := bind_eq_some_iff.mp ht
    split at ht
    · cases ht
      have hregistered := hkeptSub.streams execution hkind
      obtain ⟨hkept, hsound⟩ := setSub_step hk hsub _ (hkeptSub.change { sub with
        entered := false } rfl hregistered (hkeptSub.awaited hregistered))
      refine ⟨hkept, fun hs => (hsound hs).trans ?_⟩
      constructor
      · rintro ⟨-, hentered⟩ sub' hsub'
        cases hsub.symm.trans hsub'
        by_contra hopen
        cases hentered hregistered (by simpa using hopen)
      · intro hclosed
        have hclosed := hclosed sub hsub
        refine ⟨fun snapshot hother => ?_, fun _ hopen => ?_⟩
        · cases hkind.symm.trans hother
        · rw [hclosed] at hopen
          cases hopen
    · cases ht

theorem getElem?_snoc {α : Type} {xs : List α} {x y : α} (h : (xs ++ [x])[j]? = some y) :
    xs[j]? = some y ∨ j = xs.length ∧ y = x := by
  by_cases hj : j < xs.length
  · rw [List.getElem?_append_left hj] at h
    exact .inl h
  · rw [List.getElem?_append_right (Nat.le_of_not_lt hj)] at h
    obtain ⟨hlt, hy⟩ := List.getElem?_eq_some_iff.mp h
    have hzero : j - xs.length = 0 := Nat.lt_one_iff.mp hlt
    simp only [hzero, getElem_cons_zero] at hy
    exact .inr ⟨by omega, hy.symm⟩

/-- Another stream. -/
theorem Kept.snoc (hk : Kept f) (sub : Subscriber) (hkept : f.KeptSub f.subs.length sub) :
    Kept { f with subs := f.subs ++ [sub] } := by
  refine ⟨hk.versions, hk.stored, fun run hrun targets hof j hj => ?_, fun j other hother => ?_⟩
  · have hlt := hk.targets run hrun targets hof j hj
    rw [length_append]
    omega
  · rcases getElem?_snoc hother with hother | ⟨rfl, rfl⟩
    · have hkept := hk.subs j other hother
      exact ⟨hkept.snapshot, hkept.awaited, hkept.blank, hkept.untouched, hkept.streams⟩
    · exact ⟨hkept.snapshot, hkept.awaited, hkept.blank, hkept.untouched, hkept.streams⟩

theorem Sound.snoc (hs : Sound f) (hk : Kept f) (hk' : Kept { f with subs := f.subs ++ [sub] })
    (hsub : sub.registered = true → (∀ snapshot, sub.kind ≠ .subscribed snapshot) ∧
      sub.entered = true) :
    Sound { f with subs := f.subs ++ [sub] } := by
  obtain ⟨hsees, hentered⟩ := (sound_iff hk).mp hs
  refine (sound_iff hk').mpr ⟨fun j other snapshot hother hkind hregistered hopen => ?_,
    fun j other hother hregistered hopen => ?_⟩
  · rcases getElem?_snoc hother with hother | ⟨-, rfl⟩
    · exact hsees j other snapshot hother hkind hregistered hopen
    · exact absurd hkind ((hsub hregistered).1 snapshot)
  · rcases getElem?_snoc hother with hother | ⟨-, rfl⟩
    · exact hentered j other hother hregistered hopen
    · exact (hsub hregistered).2

/-- An execution that has done nothing yet. -/
theorem newRun_step (hk : Kept f) (effects : List Effect) :
    Kept { f with runs := f.runs ++ [⟨effects, 0, none⟩] } ∧
      (Sound f → Sound { f with runs := f.runs ++ [⟨effects, 0, none⟩] }) := by
  have hkept : Kept { f with runs := f.runs ++ [⟨effects, 0, none⟩] } := by
    refine ⟨fun run hrun => ?_, hk.stored, fun run hrun targets hof => ?_, fun j sub hsub => ?_⟩
    · rcases mem_append.mp hrun with hrun | hrun
      · exact hk.versions run hrun
      · obtain rfl := mem_singleton.mp hrun
        exact Nat.zero_le _
    · rcases mem_append.mp hrun with hrun | hrun
      · exact hk.targets run hrun targets hof
      · obtain rfl := mem_singleton.mp hrun
        cases hof
    · have hkept := hk.subs j sub hsub
      refine ⟨hkept.snapshot, hkept.awaited, hkept.blank, fun hnew run hrun targets hof => ?_,
        hkept.streams⟩
      rcases mem_append.mp hrun with hrun | hrun
      · exact hkept.untouched hnew run hrun targets hof
      · obtain rfl := mem_singleton.mp hrun
        cases hof
  refine ⟨hkept, fun hs => hs.same hk hkept rfl fun j sub snapshot _ _ _ hsees => ?_⟩
  obtain ⟨seen, hsnapshot, hseen, hreceived, hfirst, hflight⟩ := hsees
  refine ⟨seen, hsnapshot, hseen, hreceived, hfirst, fun version hlt hle => ?_⟩
  obtain ⟨run, hrun, hsending⟩ := hflight version hlt hle
  exact ⟨run, mem_append_left _ hrun, hsending⟩

theorem not_targeted (hk : Kept f) (hrun : run ∈ f.runs)
    (hof : run.targets = some targets) : f.subs.length ∉ targets :=
  fun hj => Nat.lt_irrefl _ (hk.targets run hrun targets hof _ hj)

theorem accept_step {rt : Runtime} {id : String} {streaming : Bool} {agent : Agent}
    {step : SpecStep}
    {spec : SpecSheet} (hk : Kept f) : Kept (f.accept rt id streaming agent step spec) ∧
      (Sound f → Sound (f.accept rt id streaming agent step spec)) := by
  obtain ⟨hkept, hsound⟩ := newRun_step hk (executeTask rt agent id step spec).1
  cases streaming with
  | false => exact ⟨hkept, hsound⟩
  | true =>
    have hkept' := hkept.snoc ⟨.streaming f.runs.length, true, true, [], 0, true, true, true⟩
      ⟨fun version h => (by cases h), fun _ _ => rfl, fun h => (by cases h), fun h => (by cases h),
        fun _ _ => rfl⟩
    refine ⟨hkept', fun hs => (hsound hs).snoc hkept hkept' fun _ => ⟨fun snapshot h => ?_, rfl⟩⟩
    cases h

theorem subscribe_step (hk : Kept f) (hstored : f.stored = some version) :
    Kept { f with
      subs := f.subs ++ [⟨.subscribed version, false, false, [], 0, false, false, true⟩] } ∧
    (Sound f → Sound { f with
      subs := f.subs ++ [⟨.subscribed version, false, false, [], 0, false, false, true⟩] }) := by
  have hkept := hk.snoc ⟨.subscribed version, false, false, [], 0, false, false, true⟩
    ⟨fun other h => Kind.subscribed.inj h ▸ hk.stored version hstored, fun h => (by cases h),
      fun _ => ⟨rfl, rfl, rfl, rfl⟩, fun _ run hrun targets hof => not_targeted hk hrun hof,
      fun execution h => (by cases h)⟩
  exact ⟨hkept, fun hs => hs.snoc hk hkept fun h => (by cases h)⟩

/-- A step keeps the streams sound exactly where it upholds them. -/
theorem step_sound_iff {rt : Runtime} {id : String} {a : FeedAction} (hk : Kept f)
    (ht : f.step rt id a = some t) : Kept t ∧ (Sound f → (Sound t ↔ f.Upholds a)) := by
  have hfree : Kept t ∧ (Sound f → Sound t) → f.Upholds a →
      Kept t ∧ (Sound f → (Sound t ↔ f.Upholds a)) :=
    fun h huphold => ⟨h.1, fun hs => iff_of_true (h.2 hs) huphold⟩
  cases a with
  | message streaming agent step spec =>
    cases ht
    exact hfree (accept_step hk) trivial
  | proceed i =>
    obtain ⟨run, hrun, ht⟩ := bind_eq_some_iff.mp ht
    exact hfree (proceed_step hk hrun ht) trivial
  | deliver i j =>
    obtain ⟨run, hrun, ht⟩ := bind_eq_some_iff.mp ht
    obtain ⟨targets, htargets, ht⟩ := bind_eq_some_iff.mp ht
    split at ht
    · rename_i hj
      obtain ⟨sub, hsub, ht⟩ := bind_eq_some_iff.mp ht
      exact deliver_step hk hrun htargets hj hsub ht
    · cases ht
  | subscribe =>
    unfold Feed.step at ht
    dsimp only at ht
    split at ht
    · cases ht
      exact hfree ⟨hk, fun hs => hs⟩ trivial
    · rename_i version hstored
      cases ht
      exact hfree (subscribe_step hk hstored) trivial
  | register j =>
    obtain ⟨sub, hsub, ht⟩ := bind_eq_some_iff.mp ht
    split at ht
    · cases ht
    · rename_i hnew
      cases ht
      exact register_step hk hsub (by simpa using hnew)
  | sendSnapshot j =>
    obtain ⟨sub, hsub, ht⟩ := bind_eq_some_iff.mp ht
    exact hfree (sendSnapshot_step hk hsub ht) trivial
  | read j =>
    obtain ⟨sub, hsub, ht⟩ := bind_eq_some_iff.mp ht
    split at ht
    · cases ht
    · cases ht
      exact hfree (read_step hk hsub _) trivial
  | close j =>
    obtain ⟨sub, hsub, ht⟩ := bind_eq_some_iff.mp ht
    split at ht
    · rename_i hregistered
      cases ht
      exact hfree (closed_step hk hsub hregistered rfl rfl rfl) trivial
    · cases ht
  | cleanup j =>
    obtain ⟨sub, hsub, ht⟩ := bind_eq_some_iff.mp ht
    split at ht
    · rename_i hclosed
      rw [Bool.and_eq_true, Bool.not_eq_true'] at hclosed
      cases ht
      have hregistered : sub.registered = true := by
        by_contra hnew
        obtain ⟨-, -, -, hopen⟩ := (hk.subs j sub hsub).blank (by simpa using hnew)
        rw [hclosed.1] at hopen
        cases hopen
      exact hfree (closed_step hk hsub hregistered rfl rfl hclosed.1) trivial
    · cases ht
  | remove j =>
    obtain ⟨sub, hsub, ht⟩ := bind_eq_some_iff.mp ht
    exact remove_step hk hsub ht

end Runs

theorem sound_start : Sound start where
  sees j sub snapshot h := by cases h
  ends j sub h := by cases h

/-- Whatever the subscriptions and the executions of a task do, every open subscription has the
snapshot and each status update after it once and in order, but for what is on its way, and every
open stream ends whose entry is removed, if and only if every step of the run upholds it. -/
theorem streams_sound_iff {rt : Runtime} {id : String} {actions : List FeedAction} {t : Feed}
    (hrun : run (Feed.step rt id) start actions = some t) :
    Throughout (Feed.step rt id) Sound start actions ↔
      Steps (Feed.step rt id) Upholds start actions t :=
  throughout_iff_steps (fun _ _ _ ht hk => (step_sound_iff hk ht).1)
    (fun _ _ _ hk ht hs => (step_sound_iff hk ht).2 hs) hrun kept_start sound_start

section Runs

/-- An agent that says nothing. -/
def mute : Agent :=
  let summary := fun (task : Task) => ⟨task.id, "1", "", [], [], ⟨.pending, []⟩, none⟩
  ⟨[.done], .ok (), fun _ => none, fun _ => .ok default, fun _ => .ok .null,
    fun task _ _ => summary task, summary⟩

/-- An execution from its start to its end, while nobody listens. -/
def alone : List FeedAction := .message false mute default default :: List.replicate 11 (.proceed 0)

/-- Some run of these actions upholds the streams. -/
def Upheld (f : Feed) (actions : List FeedAction) : Prop :=
  ∃ t, Steps (step jsonless "t") Upholds f actions t

theorem goes {f u : Feed} {a : FeedAction} {actions : List FeedAction} (ha : f.Upholds a)
    (hu : f.step jsonless "t" a = some u) (hrest : Upheld u actions) : Upheld f (a :: actions) := by
  obtain ⟨t, hrest⟩ := hrest
  exact ⟨t, .head ha hu hrest⟩

theorem streams_sound_after_snapshot : ∃ t,
    run (step jsonless "t") start (alone ++ [.subscribe, .register 0, .sendSnapshot 0,
      .message false mute default default, .proceed 1, .deliver 1 0]) = some t ∧
    Throughout (step jsonless "t") Sound start (alone ++ [.subscribe, .register 0, .sendSnapshot 0,
      .message false mute default default, .proceed 1, .deliver 1 0]) ∧
    t.subs.map (·.received) = [[.snapshot 2, .update 3]] := by
  have hupheld : Upheld start (alone ++ [.subscribe, .register 0, .sendSnapshot 0,
      .message false mute default default, .proceed 1, .deliver 1 0]) := by
    refine goes trivial rfl (goes trivial rfl (goes trivial rfl (goes trivial rfl ?_)))
    refine goes trivial rfl (goes trivial rfl (goes trivial rfl (goes trivial rfl ?_)))
    refine goes trivial rfl (goes trivial rfl (goes trivial rfl (goes trivial rfl ?_)))
    refine goes trivial rfl (goes (fun sub snapshot hsub hkind => ?_) rfl (goes trivial rfl ?_))
    · cases hsub
      cases hkind
      rfl
    · refine goes trivial rfl (goes trivial rfl
        (goes (fun run sub version snapshot hrun hsub hupdate
        hkind _ => ?_) rfl ⟨_, .refl _⟩))
      cases hrun
      cases hsub
      cases hupdate
      cases hkind
      exact ⟨by decide, rfl, rfl⟩
  have hreceived : (run (step jsonless "t") start (alone ++
    [.subscribe, .register 0, .sendSnapshot 0,
      .message false mute default default, .proceed 1, .deliver 1 0])).map
        (fun t => t.subs.map (·.received)) = some [[.snapshot 2, .update 3]] := rfl
  obtain ⟨t, hsteps⟩ := hupheld
  rw [hsteps.run_eq] at hreceived
  exact ⟨t, hsteps.run_eq, (streams_sound_iff hsteps.run_eq).mpr hsteps, Option.some.inj hreceived⟩

/-- An update between snapshot and registration is lost, one after it comes before the snapshot, and
the stream of an execution does not end with it. -/
theorem streams_unsound :
    (∃ t, run (step jsonless "t") start (alone ++ [.subscribe, .message false mute default default,
        .proceed 1, .register 0]) = some t ∧ ¬ Sound t) ∧
    (∃ t, run (step jsonless "t") start (alone ++ [.subscribe, .register 0,
        .message false mute default default, .proceed 1, .deliver 1 0]) = some t ∧ ¬ Sound t) ∧
    ∃ t, run (step jsonless "t") start (.message true mute default default ::
        ([.proceed 0, .deliver 0 0, .proceed 0, .proceed 0, .deliver 0 0, .proceed 0, .proceed 0,
          .proceed 0, .proceed 0, .deliver 0 0, .proceed 0, .proceed 0, .deliver 0 0, .proceed 0,
          .proceed 0, .remove 0])) = some t ∧ ¬ Sound t := by
  refine ⟨⟨_, rfl, fun h => ?_⟩, ⟨_, rfl, fun h => ?_⟩, ⟨_, rfl, fun h => ?_⟩⟩
  · obtain ⟨seen, -, -, -, hfirst, hflight⟩ := h.sees 0 _ 2 rfl rfl rfl rfl
    have hseen := hfirst rfl
    obtain ⟨run, hrun, hupdate, targets, htargets, hj⟩ := hflight 3 (by omega) (Nat.le_refl _)
    rcases mem_cons.mp hrun with rfl | hrun
    · cases hupdate
    · obtain rfl := mem_singleton.mp hrun
      cases htargets
      cases hj
  · obtain ⟨seen, -, -, hreceived, -, -⟩ := h.sees 0 _ 2 rfl rfl rfl rfl
    cases hreceived
  · exact h.ends 0 _ rfl rfl rfl rfl (.inr (.inl rfl))

end Runs

end Feed

end ColossalCode.A2A
