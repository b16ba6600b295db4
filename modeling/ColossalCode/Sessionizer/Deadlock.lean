import ColossalCode.Sessionizer.Consistency
import ColossalCode.Sessionizer.LockPrograms

/-! Which operations of the manager may run beside each other without deadlock. -/
namespace ColossalCode.Sessionizer

open Locks

/-- Orders of the locks: the tables as given, then what lies in them. -/
def rank (sessions shells managed semantic metadata : Fin 5) : Lock → Nat
  | .sessions => sessions
  | .persistentShellSessions => shells
  | .managedNuSessions => managed
  | .semanticSearchSessions => semantic
  | .sessionMetadata => metadata
  | .runtime _ => 5
  | .shell _ .historyPosition => 6
  | .shell _ _ => 5

section Parts

variable {r : Lock → Nat} {held : List Lock} {sessionId : SessionId} {m : SessionManager}
  {lock : Lock}

theorem touch_part (h : ∀ k ∈ held, r k < r lock) : Part r held (touch lock) :=
  Part.within h part_nil

theorem touch_free (lock : Lock) : Part r [] (touch lock) :=
  touch_part fun _ h => absurd h List.not_mem_nil

theorem within_free {p : List (Action Lock)} (hp : Part r [lock] p) :
    Part r [] (within lock p) := hp.within fun _ h => absurd h List.not_mem_nil

theorem terminate_part (m : SessionManager) (sessionId : SessionId) :
    Part r [] (terminateLocks m sessionId) := by
  unfold terminateLocks
  refine (touch_free _).append ?_
  split
  · exact part_nil
  · refine (touch_free _).append ?_
    split
    · exact part_nil
    · refine (touch_free _).append ?_
      split
      · exact part_nil
      · exact touch_free _

theorem load_part (states : List PersistentSessionState) :
    Part r [] (states.flatMap loadStateLocks) := by
  refine part_flatMap fun state _ => ?_
  unfold loadStateLocks
  split
  · exact (touch_free _).append (touch_free _)
  · refine (((Part.append ?_ (touch_free _)).append (touch_free _)).append (touch_free _)).append
      (touch_free _)
    exact part_flatMap fun _ _ => (touch_free _).append (touch_free _)

theorem lookup_part {found : Bool} {answer others : List (Action Lock)}
    (hl : ∀ k ∈ held, r k < r lock) (hanswer : Part r (lock :: held) answer)
    (hothers : found = false → Part r held others) :
    Part r held (lookup lock found answer others) := by
  unfold lookup
  cases found with
  | false => exact (Part.within hl part_nil).append (hothers rfl)
  | true => exact (Part.within hl hanswer).append part_nil

end Parts

section Ranks

variable {sessions shells managed semantic metadata : Fin 5} {sessionId : SessionId}

theorem save_part (m : SessionManager)
    (snapshots : SessionId → Except ColossalErr PersistentSessionState) (h : shells < metadata) :
    Part (rank sessions shells managed semantic metadata) [] (saveLocks m snapshots) := by
  unfold saveLocks
  refine Part.append (Part.append ?_ (touch_free _)) ?_
  · refine within_free (Part.within ?_ (part_flatMap fun entry _ => ?_))
    · simpa [rank] using h
    · exact (touch_part (by simp [rank])).append (touch_part (by simp [rank]))
  · exact within_free (part_flatMap fun _ _ => touch_part (by simp [rank]))

theorem exec_part (sessionId : SessionId) (stops : Nat) :
    Part (rank sessions shells managed semantic metadata) []
      ((execLocks sessionId).take stops).flatten := by
  have hparts : ∀ part ∈ execLocks sessionId,
      Part (rank sessions shells managed semantic metadata) [] part := by
    intro part hpart
    simp only [execLocks, List.mem_cons, List.not_mem_nil, or_false] at hpart
    rcases hpart with rfl | rfl | rfl | rfl | rfl | rfl | rfl
    case inr.inr.inr.inl =>
      refine within_free (Part.within ?_ (touch_part ?_))
      · simp [rank]
      · simp [rank]
        omega
    all_goals exact touch_free _
  have hflat := part_flatMap (f := id) fun part hpart =>
    hparts part (List.mem_of_mem_take (i := stops) hpart)
  rwa [List.flatMap_id] at hflat

/-- The table of shells is looked at only if no managed runtime has the id. -/
theorem snapshot_part (m : SessionManager) (stops : Nat) (hmanaged : metadata < managed)
    (h : hasSession m.managedNuSessions sessionId = false → metadata < shells) :
    Part (rank sessions shells managed semantic metadata) []
      (snapshotLocks m sessionId stops) := by
  unfold snapshotLocks
  refine Part.append (within_free (touch_part (by simpa [rank] using hmanaged))) ?_
  split
  · exact touch_free _
  · rename_i hfound
    refine Part.append (within_free (Part.within ?_ ?_)) ?_
    · simpa [rank] using h (by simpa using hfound)
    · split
      · exact touch_part (by simp [rank])
      · exact part_nil
    · split
      · exact exec_part sessionId stops
      · exact part_nil

/-- The tables after that of the sessions are looked at only if the id is not found there. -/
theorem info_part (m : SessionManager) (hsessions : metadata < sessions)
    (h : (hasSession m.sessions sessionId && metadataOf m sessionId) = false →
      metadata < shells ∧ metadata < managed ∧ metadata < semantic) :
    Part (rank sessions shells managed semantic metadata) [] (infoLocks m sessionId) := by
  unfold infoLocks
  refine within_free (lookup_part (by simpa [rank] using hsessions) part_nil fun hfound => ?_)
  obtain ⟨hshells, hmanaged, hsemantic⟩ := h hfound
  refine lookup_part (by simpa [rank] using hshells) (touch_part (by simp [rank])) fun _ => ?_
  refine lookup_part (by simpa [rank] using hmanaged) (touch_part (by simp [rank])) fun _ => ?_
  exact touch_part (by simpa [rank] using hsemantic)

theorem list_part (m : SessionManager) (hshells : sessions < shells) (hsemantic : shells < semantic)
    (hmetadata : semantic < metadata) (hmanaged : metadata < managed) :
    Part (rank sessions shells managed semantic metadata) [] (listLocks m) := by
  unfold listLocks
  refine within_free (Part.within ?_ (Part.within ?_ (Part.within ?_ (Part.within ?_ ?_))))
  · simpa [rank] using hshells
  · simp [rank]
    omega
  · simp [rank]
    omega
  · simp [rank]
    omega
  · exact part_flatMap fun _ _ => touch_part (by simp [rank])

theorem cleanup_part {m : SessionManager} (h : m.sessionMetadata = []) (timedOut : List SessionId) :
    Part (rank sessions shells managed semantic metadata) [] (cleanupLocks m timedOut) := by
  unfold cleanupLocks
  rw [h]
  exact (within_free part_nil).append (part_flatMap fun _ _ => terminate_part m _)

end Ranks

/-- The operation takes the metadata while it holds the table of shells. -/
def Operation.Climbs : Operation → Prop
  | .saveSessionState _ => True
  | .listSessionsDetailed => True
  | _ => False

/-- The operation takes the table of shells while it holds the metadata. -/
def Operation.Descends (m : SessionManager) : Operation → Prop
  | .getSessionInfo sessionId =>
    (hasSession m.sessions sessionId && metadataOf m sessionId) = false
  | .snapshotShellSession sessionId _ => hasSession m.managedNuSessions sessionId = false
  | _ => False

/-- What each kind of operation asks of an order. -/
theorem locks_part {host : Host} {m : SessionManager} {op : Operation}
    {sessions shells managed semantic metadata : Fin 5}
    (hcleanup : op = .cleanupTimedOutSessions → m.sessionMetadata = [])
    (hclimbs : op.Climbs → shells < metadata)
    (hlist : op = .listSessionsDetailed →
      sessions < shells ∧ shells < semantic ∧ semantic < metadata)
    (hinfo : ∀ sessionId, op = .getSessionInfo sessionId → metadata < sessions)
    (hdescends : op.Descends m → metadata < shells ∧ metadata < semantic)
    (hmanaged : metadata < managed) :
    Part (rank sessions shells managed semantic metadata) [] (op.locks host m) := by
  cases op with
  | saveSessionState snapshots => exact save_part m snapshots (hclimbs trivial)
  | loadSessionState states => exact load_part states
  | snapshotShellSession sessionId stops =>
    exact snapshot_part m stops hmanaged fun hfound => (hdescends hfound).1
  | getSessionInfo sessionId =>
    refine info_part m (hinfo sessionId rfl) fun hfound => ?_
    exact ⟨(hdescends hfound).1, hmanaged, (hdescends hfound).2⟩
  | listSessionsDetailed =>
    obtain ⟨hshells, hsemantic, hmetadata⟩ := hlist rfl
    exact list_part m hshells hsemantic hmetadata hmanaged
  | cleanupTimedOutSessions => exact cleanup_part (hcleanup rfl) _
  | terminateSession sessionId => exact terminate_part m sessionId

section Beside

variable {ι : Type}

/-- No search for timed-out sessions meets metadata, and no two operations of the set take two
tables in opposite order. -/
structure Compatible (operations : ι → SessionManager × Operation) : Prop where
  cleanup : ∀ i, (operations i).2 = .cleanupTimedOutSessions →
    (operations i).1.sessionMetadata = []
  shells : ∀ i j, (operations i).2.Climbs → ¬ (operations j).2.Descends (operations j).1
  sessions : ∀ i j sessionId, (operations i).2 = .listSessionsDetailed →
    (operations j).2 ≠ .getSessionInfo sessionId

def programs (host : Host) (operations : ι → SessionManager × Operation) (i : ι) :
    List (Action Lock) := (operations i).2.locks host (operations i).1

/-- The search ends; it finds the sessions whose time is over and leaves the others. -/
def CleansUp (host : Host) (m : SessionManager) : Prop :=
  ∃ timedOut w, cleanupTimedOutSessions ⟨m, []⟩ = some (timedOut, w) ∧
    (∀ sessionId, sessionId ∈ timedOut ↔ isSessionTimedOut host m sessionId) ∧
    ∀ sessionId, sessionId ∈ w.tables.ids ↔ sessionId ∈ m.tables.ids ∧ sessionId ∉ timedOut

variable {m : SessionManager} {sessionId : SessionId}

theorem cleansUp_of_empty {host : Host} (h : m.sessionMetadata = []) :
    CleansUp host m := by
  refine ⟨[], ⟨m, []⟩, ?_, ?_, ?_⟩
  · simp [cleanupTimedOutSessions, h]
  · simp [isSessionTimedOut, h, findSession]
  · intro sessionId
    simp [World.tables]

variable {host : Host} {operations : ι → SessionManager × Operation}

/-- The operations of a set that has one that lists, of one that has none, and of one where none
climbs keep different orders. -/
theorem Compatible.ordered (h : Compatible operations) (host : Host) :
    ∃ r : Lock → Nat, ∀ i, Ordered r [] (programs host operations i) := by
  by_cases hlist : ∃ i, (operations i).2 = .listSessionsDetailed
  · obtain ⟨k, hk⟩ := hlist
    have hclimbs : (operations k).2.Climbs := hk ▸ trivial
    refine ⟨rank 0 1 4 2 3, fun i => (locks_part (h.cleanup i) ?_ ?_ ?_ ?_ (by decide)).ordered⟩
    · exact fun _ => by decide
    · exact fun _ => by decide
    · exact fun sessionId hi => absurd hi (h.sessions k i sessionId hk)
    · exact fun hi => absurd hi (h.shells k i hclimbs)
  · by_cases hclimb : ∃ i, (operations i).2.Climbs
    · obtain ⟨k, hk⟩ := hclimb
      refine ⟨rank 2 0 2 2 1, fun i => (locks_part (h.cleanup i) ?_ ?_ ?_ ?_ (by decide)).ordered⟩
      · exact fun _ => by decide
      · exact fun hi => absurd ⟨i, hi⟩ hlist
      · exact fun _ _ => by decide
      · exact fun hi => absurd hi (h.shells k i hk)
    · refine ⟨rank 1 1 1 1 0, fun i => (locks_part (h.cleanup i) ?_ ?_ ?_ ?_ (by decide)).ordered⟩
      · exact fun hi => absurd ⟨i, hi⟩ hclimb
      · exact fun hi => absurd ⟨i, hi⟩ hlist
      · exact fun _ _ => by decide
      · exact fun _ => by decide

theorem save_begins (m : SessionManager)
    (snapshots : SessionId → Except ColossalErr PersistentSessionState) :
    ∃ rest, saveLocks m snapshots =
      [.acquire .persistentShellSessions] ++ .acquire .sessionMetadata :: rest := ⟨_, rfl⟩

theorem list_begins (m : SessionManager) :
    ∃ rest, listLocks m = [.acquire .sessions, .acquire .persistentShellSessions,
      .acquire .semanticSearchSessions] ++ .acquire .sessionMetadata :: rest := ⟨_, rfl⟩

theorem info_begins (m : SessionManager) (sessionId : SessionId) :
    ∃ rest, infoLocks m sessionId =
      [.acquire .sessionMetadata] ++ .acquire .sessions :: rest := ⟨_, rfl⟩

theorem cleanup_begins (h : m.sessionMetadata ≠ [])
    (timedOut : List SessionId) : ∃ rest, cleanupLocks m timedOut =
      [.acquire .sessionMetadata] ++ .acquire .sessionMetadata :: rest := by
  obtain ⟨entry, entries, hentries⟩ := List.exists_cons_of_ne_nil h
  unfold cleanupLocks
  rw [hentries]
  exact ⟨_, rfl⟩

theorem info_descends (h : (hasSession m.sessions sessionId && metadataOf m sessionId) = false) :
    ∃ rest, infoLocks m sessionId = [.acquire .sessionMetadata, .acquire .sessions,
      .release .sessions] ++ .acquire .persistentShellSessions :: rest := by
  unfold infoLocks
  dsimp only
  rw [h]
  exact ⟨_, rfl⟩

theorem snapshot_descends (h : hasSession m.managedNuSessions sessionId = false) (stops : Nat) :
    ∃ rest, snapshotLocks m sessionId stops = [.acquire .sessionMetadata,
      .acquire .managedNuSessions, .release .managedNuSessions, .release .sessionMetadata,
      .acquire .sessionMetadata] ++ .acquire .persistentShellSessions :: rest := by
  unfold snapshotLocks
  rw [h]
  exact ⟨_, rfl⟩

theorem programs_eq {i : ι} {op : Operation} (h : operations i = (m, op)) :
    programs host operations i = op.locks host m := by
  rw [programs, h]

theorem operations_pair {i : ι} {op : Operation} (h : (operations i).2 = op) :
    operations i = ((operations i).1, op) := Prod.ext rfl h

section Circles

variable [DecidableEq ι] {i j : ι} {m' : SessionManager} {op op' : Operation}

theorem cleanup_stops (hi : operations i = (m, .cleanupTimedOutSessions))
    (h : m.sessionMetadata ≠ []) : ¬ DeadlockFree (start (programs host operations)) := by
  obtain ⟨rest, hrest⟩ := cleanup_begins h
    ((m.sessionMetadata.map Prod.fst).filter (isSessionTimedOut host m))
  exact circle_of_one ((programs_eq hi).trans hrest) (by simp [Free]) (by simp [heldAfter])

/-- Each operation gets as far as a lock that the other holds. -/
theorem operations_stop {p q rest rest' : List (Action Lock)} {a b : Lock}
    (hi : operations i = (m, op)) (hj : operations j = (m', op')) (hne : op ≠ op')
    (hp : op.locks host m = p ++ .acquire b :: rest)
    (hq : op'.locks host m' = q ++ .acquire a :: rest') (hfirst : Free [] [] p ∧ a ∈ heldAfter [] p)
    (hsecond : Free (heldAfter [] p) [] q ∧ b ∈ heldAfter [] q) :
    ¬ DeadlockFree (start (programs host operations)) := by
  have hij : i ≠ j := by
    rintro rfl
    exact hne (congrArg Prod.snd (hi.symm.trans hj))
  exact circle_of_two hij ((programs_eq hi).trans hp) ((programs_eq hj).trans hq)
    hfirst.1 hsecond.1 hfirst.2 hsecond.2

variable {snapshots : SessionId → Except ColossalErr PersistentSessionState}

theorem list_info_stop (hi : operations i = (m, .listSessionsDetailed))
    (hj : operations j = (m', .getSessionInfo sessionId)) :
    ¬ DeadlockFree (start (programs host operations)) := by
  obtain ⟨rest, hrest⟩ := list_begins m
  obtain ⟨rest', hrest'⟩ := info_begins m' sessionId
  exact operations_stop hi hj (by simp) hrest hrest' (by simp [Free, heldAfter])
    (by simp [Free, heldAfter])

theorem save_info_stop (hi : operations i = (m, .saveSessionState snapshots))
    (hj : operations j = (m', .getSessionInfo sessionId))
    (h : (hasSession m'.sessions sessionId && metadataOf m' sessionId) = false) :
    ¬ DeadlockFree (start (programs host operations)) := by
  obtain ⟨rest, hrest⟩ := save_begins m snapshots
  obtain ⟨rest', hrest'⟩ := info_descends h
  exact operations_stop hi hj (by simp) hrest hrest' (by simp [Free, heldAfter])
    (by simp [Free, heldAfter])

theorem save_snapshot_stop {stops : Nat} (hi : operations i = (m, .saveSessionState snapshots))
    (hj : operations j = (m', .snapshotShellSession sessionId stops))
    (h : hasSession m'.managedNuSessions sessionId = false) :
    ¬ DeadlockFree (start (programs host operations)) := by
  obtain ⟨rest, hrest⟩ := save_begins m snapshots
  obtain ⟨rest', hrest'⟩ := snapshot_descends h stops
  exact operations_stop hi hj (by simp) hrest hrest' (by simp [Free, heldAfter])
    (by simp [Free, heldAfter])

theorem list_snapshot_stop {stops : Nat} (hi : operations i = (m, .listSessionsDetailed))
    (hj : operations j = (m', .snapshotShellSession sessionId stops))
    (h : hasSession m'.managedNuSessions sessionId = false) :
    ¬ DeadlockFree (start (programs host operations)) := by
  obtain ⟨rest, hrest⟩ := list_begins m
  obtain ⟨rest', hrest'⟩ := snapshot_descends h stops
  exact operations_stop hi hj (by simp) hrest hrest' (by simp [Free, heldAfter])
    (by simp [Free, heldAfter])

theorem compatible_of_free (hfree : DeadlockFree (start (programs host operations))) :
    Compatible operations where
  cleanup i hi := by
    by_contra h
    exact cleanup_stops (operations_pair hi) h hfree
  shells i j hclimbs hdescends := by
    rcases hi : operations i with ⟨m, op⟩
    rcases hj : operations j with ⟨m', op'⟩
    rw [hi] at hclimbs
    rw [hj] at hdescends
    cases op with
    | saveSessionState snapshots =>
      cases op' with
      | getSessionInfo sessionId => exact save_info_stop hi hj hdescends hfree
      | snapshotShellSession sessionId stops => exact save_snapshot_stop hi hj hdescends hfree
      | _ => exact hdescends
    | listSessionsDetailed =>
      cases op' with
      | getSessionInfo sessionId => exact list_info_stop hi hj hfree
      | snapshotShellSession sessionId stops => exact list_snapshot_stop hi hj hdescends hfree
      | _ => exact hdescends
    | _ => exact hclimbs
  sessions i j sessionId hi hj :=
    list_info_stop (operations_pair hi) (operations_pair hj) hfree

end Circles

/-- Operations keep to one order of the locks, never wait for each other in a circle, come to their
end and clean up exactly what is over if they are compatible. -/
theorem deadlock_free_iff {ι : Type} [Fintype ι] [DecidableEq ι] (host : Host)
    (operations : ι → SessionManager × Operation) :
    ((∃ r : Lock → Nat, ∀ i, Ordered r [] (programs host operations i)) ∧
      DeadlockFree (start (programs host operations)) ∧
      CanFinish (start (programs host operations)) ∧
      ∀ i, (operations i).2 = .cleanupTimedOutSessions → CleansUp host (operations i).1) ↔
      Compatible operations := by
  constructor
  · rintro ⟨-, hfree, -⟩
    exact compatible_of_free hfree
  · intro h
    obtain ⟨r, hr⟩ := h.ordered host
    have hordered := start_ordered hr
    exact ⟨⟨r, hr⟩, hordered.deadlockFree, hordered.canFinish,
      fun i hi => cleansUp_of_empty (h.cleanup i hi)⟩

/-- A session that has just been created. -/
def notedManager : SessionManager :=
  ⟨1, 7, [], [("7_0", ⟨"/bin/bash", "/w", "/w", [], [], .readOnly, false⟩)], [], [],
    [("7_0", ⟨0, 0, 1800000⟩)]⟩

def saveBesideInfo (saves : Bool) : SessionManager × Operation :=
  (notedManager, if saves then .saveSessionState fun _ => .error .missingSandboxHelper
    else .getSessionInfo "7_0")

/-- A search for sessions that are over waits for itself; saving and asking for a shell wait for
each other. -/
theorem operations_deadlock :
    (¬ DeadlockFree (start (programs openHost fun _ : Unit =>
      (notedManager, .cleanupTimedOutSessions)))) ∧
    cleanupTimedOutSessions ⟨notedManager, []⟩ = none ∧
    ¬ DeadlockFree (start (programs openHost saveBesideInfo)) := by
  refine ⟨?_, rfl, ?_⟩
  · exact cleanup_stops (i := ()) rfl (by simp [notedManager])
  · exact save_info_stop (i := true) (j := false) rfl rfl rfl

end Beside

end ColossalCode.Sessionizer
