import ColossalCode.Dispatch.Sessions

/-! What runs for a call, and when it runs under the policy and in the directory of its own agent.
-/
namespace ColossalCode.Dispatch
open Function List Option

open Sessionizer Transition

/-- The directory of a command that runs apart from the session. -/
def isolatedCwd (platform : Platform) (agent : CallingAgent) (state : Continuity) : String :=
  if state.currentCwd = platform.workspaceRoot then agent.effectiveCwd else state.currentCwd

/-- The policy that belongs to the configuration and the directory of the calling agent. -/
def ownPolicy (platform : Platform) (call : Call) : SandboxPolicy :=
  sandboxPolicyFromConfigWithWorkspace platform.env call.agent.safetyConfig call.agent.effectiveCwd

def Own (platform : Platform) (call : Call) (policy : SandboxPolicy) (cwd : String) : Prop :=
  policy = ownPolicy platform call ∧ cwd = call.agent.effectiveCwd

section Isolation

variable {κ : Type} [DecidableEq κ] (platform : Platform) (calls : κ → Call)

def OwnExecuted (s : State κ) : Prop :=
  ∀ e ∈ s.executions, Own platform (calls e.call) e.sandboxPolicy e.cwd

/-- All that has run, and all that any call may run next, is its own agent's. -/
def Isolated (s : State κ) : Prop :=
  OwnExecuted platform calls s ∧
    ∀ c outside t, advance platform calls s c outside = some t → OwnExecuted platform calls t

/-- When a call reads the policy, the last one written is its own; when it gets a session, that one
stands where the call works, and so does a session that another call moves. -/
def FitsReply (s : State κ) (c : κ) : Phase → Outside → Prop
  | .readingPolicy _, _ => s.cells.pendingSandboxPolicy = ownPolicy platform (calls c)
  | .readingIsolatedPolicy _ _ state, _ =>
    Own platform (calls c) s.cells.pendingSandboxPolicy
      (isolatedCwd platform (calls c).agent state)
  | .opening _ _ _ _, .spawned _ standing =>
    Own platform (calls c) s.cells.pendingSandboxPolicy standing.cwd
  | .opening _ _ _ _, .quiet => ∀ existing session, s.cells.shellSessionId = some existing →
    s.cells.live existing = some session →
      Own platform (calls c) s.cells.pendingSandboxPolicy session.standing.cwd
  | .askingFork _ sessionId, .replied (.approval (some true)) =>
    ∀ session, s.cells.live sessionId = some session →
      Own platform (calls c) session.sandboxPolicy session.standing.cwd
  | .attempting way _ _ _ sessionId, .attempted attempt standing =>
    way ≠ .fork → attempt.started = true → ∀ d way request approval retried, d ≠ c →
      s.phase d = .attempting way request approval retried sessionId →
        standing.cwd = (calls d).agent.effectiveCwd
  | _, _ => True

def Fits (s : State κ) : CellAction κ → Prop
  | .advance c outside => FitsReply platform calls s c (s.phase c) outside
  | .expire _ => True

end Isolation

/-- What the call may run next is its own agent's. -/
def Prepared (platform : Platform) (cells : Cells) (call : Call) : Phase → Prop
  | .invoking _ policy => policy = ownPolicy platform call
  | .attempting _ _ _ _ sessionId => ∀ session, cells.live sessionId = some session →
      Own platform call session.sandboxPolicy session.standing.cwd
  | .isolated _ _ state policy =>
    Own platform call policy (isolatedCwd platform call.agent state)
  | _ => True

section Runs

variable {κ : Type} [DecidableEq κ] {platform : Platform} {calls : κ → Call} {s t : State κ}
  {c d : κ} {outside : Outside} {cells cells' : Cells} {p : Phase} {q : Query} {reply : Reply}

theorem advance_eq_some : advance platform calls s c outside = some t ↔
    ∃ q cells reply phase, query platform (calls c).agent (s.phase c) = some q ∧
      serve platform s.cells q outside = some (cells, reply) ∧
      resume platform (calls c).agent (calls c).name (calls c).arguments (s.phase c) reply =
        some phase ∧
      t = ⟨cells, update s.phase c phase, s.executions ++
        ((ranUnder s.cells q reply).map fun ran => ⟨c, ran.1, ran.2⟩).toList⟩ := by
  unfold advance
  simp only [bind_eq_some_iff, map_eq_some_iff, Prod.exists]
  constructor
  · rintro ⟨q, hq, cells, reply, hserve, phase, hphase, rfl⟩
    exact ⟨q, cells, reply, phase, hq, hserve, hphase, rfl⟩
  · rintro ⟨q, cells, reply, phase, hq, hserve, hphase, rfl⟩
    exact ⟨q, hq, cells, reply, hserve, phase, hphase, rfl⟩

variable {agent : CallingAgent} {cwd name arguments : String} {policy : SandboxPolicy} {call : Call}
  {phase p' : Phase} {approval : AskForApproval} {request : ExecRequest} {retried : Bool}
  {sessionId : SessionId} {way : Way}

/-- What runs is a tools binary, a command in a session that is live, or one apart from it. -/
theorem ranUnder_cases
    (hq : query platform agent p = some q) (hran : ranUnder cells q reply = some (policy, cwd)) :
    (∃ args, p = .invoking args policy ∧ cwd = agent.effectiveCwd) ∨
      (∃ way request approval retried sessionId session,
        p = .attempting way request approval retried sessionId ∧
          cells.live sessionId = some session ∧
          (session.sandboxPolicy, session.standing.cwd) = (policy, cwd)) ∨
      ∃ request approval state,
        p = .isolated request approval state policy ∧ cwd = isolatedCwd platform agent state := by
  cases p with
  | invoking args policy' =>
    obtain rfl := some.inj hq
    cases reply with
    | binary run =>
      cases run with
      | notStarted error => cases hran
      | timedOut | exited success stdout stderr =>
        obtain ⟨rfl, rfl⟩ := Prod.mk.inj (some.inj hran)
        exact .inl ⟨args, rfl, rfl⟩
    | _ => cases hran
  | attempting way request approval retried sessionId =>
    cases way with
    | fork | generic | replay =>
      obtain rfl := some.inj hq
      cases reply with
      | attempt attempt =>
        rw [ranUnder] at hran
        split at hran
        · obtain ⟨session, hlive, heq⟩ := map_eq_some_iff.mp hran
          exact .inr (.inl ⟨_, request, approval, retried, sessionId, session, rfl, hlive, heq⟩)
        · cases hran
      | _ => cases hran
  | isolated request approval state policy' =>
    obtain rfl := some.inj hq
    cases reply with
    | attempt attempt =>
      rw [ranUnder] at hran
      split at hran
      · obtain ⟨rfl, rfl⟩ := Prod.mk.inj (some.inj hran)
        exact .inr (.inr ⟨request, approval, state, rfl, rfl⟩)
      · cases hran
    | _ => cases hran
  | ended outcome => cases hq
  | _ =>
    obtain rfl := some.inj hq
    cases hran

/-- What runs with a reply is what the call was prepared for. -/
theorem ranUnder_own
    (hq : query platform call.agent p = some q) (hran : ranUnder cells q reply = some (policy, cwd))
    (hp : Prepared platform cells call p) : Own platform call policy cwd := by
  obtain ⟨args, rfl, rfl⟩ | ⟨_, _, _, _, _, session, rfl, hlive, heq⟩ | ⟨_, _, _, rfl, rfl⟩ :=
    ranUnder_cases hq hran
  · exact ⟨hp, rfl⟩
  · cases heq
    exact hp session hlive
  · exact hp

theorem own_advance (hs : OwnExecuted platform calls s)
    (hp : Prepared platform s.cells (calls c) (s.phase c))
    (h : advance platform calls s c outside = some t) : OwnExecuted platform calls t := by
  obtain ⟨q, cells, reply, phase, hq, -, -, rfl⟩ := advance_eq_some.mp h
  intro e he
  rcases mem_append.mp he with he | he
  · exact hs e he
  · obtain ⟨⟨policy, cwd⟩, hran, rfl⟩ := map_eq_some_iff.mp (mem_toList.mp he)
    exact ranUnder_own hq hran hp

/-- A command that runs to its end. -/
def someOutput : ExecCommandOutput := ⟨.completed 0, "", "", "", none⟩

/-- Whatever a call is prepared for can run next. -/
theorem own_of_isolated (h : Isolated platform calls s) (outside : Outside)
    (hq : query platform (calls c).agent (s.phase c) = some q)
    (hserve : serve platform s.cells q outside = some (cells, reply))
    (hphase : resume platform (calls c).agent (calls c).name (calls c).arguments (s.phase c) reply =
      some phase) (hran : ranUnder s.cells q reply = some (policy, cwd)) :
    Own platform (calls c) policy cwd := by
  have hown := h.2 c outside _
    (advance_eq_some.mpr ⟨q, cells, reply, phase, hq, hserve, hphase, rfl⟩)
  refine hown ⟨c, policy, cwd⟩ (mem_append_right _ ?_)
  rw [hran]
  exact mem_singleton_self _

theorem prepared_of_isolated (h : Isolated platform calls s) (c : κ) :
    Prepared platform s.cells (calls c) (s.phase c) := by
  cases hp : s.phase c with
  | invoking args policy =>
    have hown : Own platform (calls c) policy (calls c).agent.effectiveCwd := by
      apply own_of_isolated h (.replied (.binary .timedOut))
      · rw [hp]
        rfl
      · rfl
      · rw [hp]
        rfl
      · rfl
    exact hown.1
  | attempting way request approval retried sessionId =>
    intro session hlive
    have hserve : ∀ forked, execInSession s.cells sessionId forked
        (.attempted (.ran someOutput) session.standing) = some
          (if Attempt.started (.ran someOutput) && !forked then
            s.cells.setSession sessionId { session with standing := session.standing }
            else s.cells, .attempt (.ran someOutput)) := by
      intro forked
      rw [execInSession, hlive]
    have hran : (if Attempt.started (.ran someOutput) then
        (s.cells.live sessionId).map fun session =>
          (session.sandboxPolicy, session.standing.cwd) else none) =
        some (session.sandboxPolicy, session.standing.cwd) := by
      rw [hlive]
      rfl
    cases way with
    | fork | generic | replay =>
      apply own_of_isolated h (.attempted (.ran someOutput) session.standing)
      · rw [hp]
        rfl
      · exact hserve _
      · rw [hp]
        rfl
      · exact hran
  | isolated request approval state policy =>
    apply own_of_isolated h (.attempted (.ran someOutput) ⟨"", []⟩)
    · rw [hp]
      rfl
    · rfl
    · rw [hp]
      rfl
    · rfl
  | _ => trivial

theorem isolated_iff : Isolated platform calls s ↔
    OwnExecuted platform calls s ∧ ∀ c, Prepared platform s.cells (calls c) (s.phase c) := by
  constructor
  · exact fun h => ⟨h.1, prepared_of_isolated h⟩
  · rintro ⟨hs, hp⟩
    exact ⟨hs, fun c outside t hadvance => own_advance hs (hp c) hadvance⟩

/-- The call does not run anything next. -/
def Phase.quiet : Phase → Bool
  | .invoking _ _ => false
  | .attempting _ _ _ _ _ => false
  | .isolated _ _ _ _ => false
  | _ => true

/-- The session that the call holds. -/
def Phase.session : Phase → Option SessionId
  | .attempting _ _ _ _ sessionId => some sessionId
  | .askingFork _ sessionId => some sessionId
  | _ => none

theorem prepared_quiet (h : p.quiet = true) : Prepared platform cells call p := by
  cases p with
  | invoking | attempting | isolated => cases h
  | _ => trivial

/-- A call goes on without anything to run, and with no other session. -/
def Idles (p p' : Phase) : Prop :=
  p'.quiet = true ∧ ∀ sessionId, p'.session = some sessionId → p.session = some sessionId

theorem idles_of_none (hquiet : p'.quiet = true) (hsession : p'.session = none) :
    Idles p p' := by
  refine ⟨hquiet, fun sessionId hid => ?_⟩
  rw [hsession] at hid
  cases hid

theorem idles_asks (h : p'.asks = true) : Idles p p' := by
  cases p' with
  | readingPolicy | readingOutput | searching => exact idles_of_none rfl rfl
  | _ => cases h

theorem idles_succeeds (h : p'.succeeds = true) : Idles p p' := by
  cases p' with
  | fetching | ended => exact idles_of_none rfl rfl
  | _ => cases h

theorem idles_dispatch (platform : Platform) (agent : CallingAgent) (name arguments : String) :
    Idles p (dispatch platform agent name arguments) := by
  unfold dispatch
  split
  · exact idles_of_none rfl rfl
  · next value _ =>
    split
    · unfold executeExecCommand
      dsimp only
      split
      · exact idles_of_none rfl rfl
      · split
        · exact idles_of_none rfl rfl
        · split <;> exact idles_of_none rfl rfl
    · next hname =>
      rcases @executeNonExecToolCall_cases platform name value hname with
        ⟨-, p', hp', hasks⟩ | ⟨-, hnone | ⟨p', hp', hsucceeds⟩⟩
      · rw [hp']
        exact idles_asks hasks
      · rw [hnone]
        exact idles_of_none rfl rfl
      · rw [hp']
        exact idles_succeeds hsucceeds

theorem idles_refused {asking : Phase} (h : Idles p asking) (command : String)
    (error : ColossalErr) : Idles p (refused asking command error) := by
  cases error with
  | denied code reason =>
    rw [refused]
    split
    · exact h
    · exact idles_of_none rfl rfl
  | io message | missingSandboxHelper => exact idles_of_none rfl rfl

theorem idles_attempt {attempt : Attempt}
    (h : resume platform agent name arguments (.attempting way request approval retried sessionId)
      (.attempt attempt) = some p') :
    Idles (.attempting way request approval retried sessionId) p' := by
  have hasking : Idles (.attempting way request approval retried sessionId)
      (.askingFork request sessionId) := ⟨rfl, fun _ hid => hid⟩
  cases way with
  | fork =>
    cases attempt with
    | ran output | unmanaged =>
      obtain rfl := some.inj h
      exact idles_of_none rfl rfl
    | failed error started =>
      obtain rfl := some.inj h
      exact idles_refused hasking _ error
  | generic =>
    cases attempt with
    | ran output | failed error started =>
      obtain rfl := some.inj h
      exact idles_of_none rfl rfl
    | unmanaged => cases h
  | replay =>
    cases attempt with
    | ran output =>
      obtain rfl := some.inj h
      exact idles_of_none rfl rfl
    | unmanaged => cases h
    | failed error started =>
      cases error with
      | io message =>
        rw [resume] at h
        split at h
        · obtain rfl := some.inj h
          exact idles_of_none rfl rfl
        · obtain rfl := some.inj h
          exact idles_of_none rfl rfl
      | denied code reason =>
        obtain rfl := some.inj h
        exact idles_refused (idles_of_none rfl rfl) _ _
      | missingSandboxHelper =>
        obtain rfl := some.inj h
        exact idles_of_none rfl rfl

/-- What a call runs it has read a policy for, or been given a session. -/
theorem resume_cases (h : resume platform agent name arguments p reply = some p') :
    Idles p p' ∨
    (∃ args policy, p = .readingPolicy args ∧ reply = .policy policy ∧
      p' = .invoking args policy) ∨
    (∃ request approval state policy, p = .readingIsolatedPolicy request approval state ∧
      reply = .policy policy ∧ p' = .isolated request approval state policy) ∨
    (∃ way request approval retried sessionId, p = .opening way request approval retried ∧
      reply = .session (.ok sessionId) ∧
      p' = .attempting way request approval retried sessionId) ∨
    (∃ request sessionId, p = .askingFork request sessionId ∧ reply = .approval (some true) ∧
      p' = .attempting .fork request .never false sessionId) := by
  have hanswered : ∀ again command answer, Idles p again →
      Idles p (answered again command answer) := by
    intro again command answer hagain
    match answer with
    | some true => exact hagain
    | some false | none => exact idles_of_none rfl rfl
  cases p with
  | called =>
    cases reply with
    | done =>
      obtain rfl := some.inj h
      exact .inl (idles_dispatch platform agent name arguments)
    | _ => cases h
  | readingPolicy args =>
    cases reply with
    | policy policy =>
      obtain rfl := some.inj h
      exact .inr (.inl ⟨args, policy, rfl, rfl, rfl⟩)
    | _ => cases h
  | readingIsolatedPolicy request approval state =>
    cases reply with
    | policy policy =>
      obtain rfl := some.inj h
      exact .inr (.inr (.inl ⟨request, approval, state, policy, rfl, rfl, rfl⟩))
    | _ => cases h
  | opening way request approval retried =>
    cases reply with
    | session opened =>
      cases opened with
      | ok sessionId =>
        obtain rfl := some.inj h
        exact .inr (.inr (.inr (.inl ⟨way, request, approval, retried, sessionId, rfl, rfl, rfl⟩)))
      | error error =>
        obtain rfl := some.inj h
        exact .inl (idles_of_none rfl rfl)
    | _ => cases h
  | askingFork request sessionId =>
    cases reply with
    | approval answer =>
      obtain rfl := some.inj h
      match answer with
      | some true => exact .inr (.inr (.inr (.inr ⟨request, sessionId, rfl, rfl, rfl⟩)))
      | some false | none => exact .inl (idles_of_none rfl rfl)
    | _ => cases h
  | attempting way request approval retried sessionId =>
    cases reply with
    | attempt attempt => exact .inl (idles_attempt h)
    | _ => cases way <;> cases h
  | isolated request approval state policy =>
    cases reply with
    | attempt attempt =>
      cases attempt with
      | ran output =>
        obtain rfl := some.inj h
        exact .inl (idles_of_none rfl rfl)
      | unmanaged => cases h
      | failed error started =>
        obtain rfl := some.inj h
        exact .inl (idles_refused (idles_of_none rfl rfl) _ error)
    | _ => cases h
  | syncing way request sessionId output =>
    cases reply with
    | synced result =>
      cases result with
      | ok =>
        obtain rfl := some.inj h
        exact .inl (idles_of_none rfl rfl)
      | error error =>
        rw [resume] at h
        split at h
        · obtain rfl := some.inj h
          exact .inl (idles_of_none rfl rfl)
        · obtain rfl := some.inj h
          exact .inl (idles_of_none rfl rfl)
    | _ => cases h
  | askingReplay request retried | askingIsolated request =>
    cases reply with
    | approval answer =>
      obtain rfl := some.inj h
      exact .inl (hanswered _ _ answer (idles_of_none rfl rfl))
    | _ => cases h
  | ended outcome => cases reply <;> cases h
  | invoking | readingOutput | searching | fetching | reopening | dropping | readingContinuity =>
    cases reply with
    | binary | output | search | page | done | continuity =>
      first
      | (obtain rfl := some.inj h
         exact .inl (idles_of_none rfl rfl))
      | cases h
    | _ => cases h

/-- The phases that a call leaves with something to run. -/
def Phase.readies : Phase → Bool
  | .readingPolicy _ => true
  | .readingIsolatedPolicy _ _ _ => true
  | .opening _ _ _ _ => true
  | .askingFork _ _ => true
  | _ => false

theorem quiet_of_resume (h : resume platform agent name arguments p reply = some p')
    (hp : p.readies = false) : p'.quiet = true := by
  rcases resume_cases h with hidles | ⟨_, _, rfl, -⟩ | ⟨_, _, _, _, rfl, -⟩ |
    ⟨_, _, _, _, _, rfl, -⟩ | ⟨_, _, rfl, -⟩
  · exact hidles.1
  all_goals cases hp

structure Invariant (s : State κ) : Prop where
  current : Current s.cells
  opened : ∀ c sessionId, (s.phase c).session = some sessionId →
    s.cells.sessions sessionId ≠ none

omit [DecidableEq κ] in
theorem invariant_start (shellPath : String) (policy : SandboxPolicy) :
    Invariant (State.start (.init platform shellPath policy) : State κ) where
  current := current_none rfl
  opened c sessionId h := by cases h

/-- A session that a call is given is there. -/
theorem serve_session
    (hq : query platform call.agent (.opening way request approval retried) = some q)
    (h : serve platform cells q outside = some (cells', .session (.ok sessionId))) :
    cells'.sessions sessionId ≠ none := by
  obtain rfl := some.inj hq
  have h : getOrCreateShellSession platform cells call.agent.effectiveCwd outside =
    some (cells', .session (.ok sessionId)) := h
  rcases getOrCreate_cases h with ⟨sessionId', standing, -, heq, hopened⟩ |
    ⟨existing, session, -, heq, rfl, -, hlive, -⟩ | ⟨error, -, heq, -⟩
  · obtain rfl := Except.ok.inj (Reply.session.inj heq)
    obtain ⟨initialCwd, hlive⟩ := hopened.live
    exact live_opened hlive
  · obtain rfl := Except.ok.inj (Reply.session.inj heq)
    exact live_opened hlive
  · cases Reply.session.inj heq

theorem invariant_step {a : CellAction κ} (hs : Invariant s)
    (h : cellStep platform calls s a = some t) : Invariant t := by
  cases a with
  | expire sessionId =>
    obtain rfl := some.inj h
    refine ⟨hs.current.settled (settled_terminate _ _), fun c other hother => ?_⟩
    exact (frame_terminate _ _).opened other (hs.opened c other hother)
  | advance c outside =>
    obtain ⟨q, cells, reply, phase, hq, hserve, hphase, rfl⟩ := advance_eq_some.mp h
    refine ⟨hs.current.serve hserve, fun d sessionId hd => ?_⟩
    by_cases hdc : d = c
    · subst hdc
      replace hd : phase.session = some sessionId := by simpa using hd
      have hkept : (s.phase d).session = some sessionId → cells.sessions sessionId ≠ none :=
        fun hsession => serve_opened hserve (hs.opened d sessionId hsession)
      rcases resume_cases hphase with hidles | ⟨_, _, -, -, rfl⟩ | ⟨_, _, _, _, -, -, rfl⟩ |
        ⟨way, request, approval, retried, other, hp, rfl, rfl⟩ | ⟨request, other, hp, -, rfl⟩
      · exact hkept (hidles.2 sessionId hd)
      · cases hd
      · cases hd
      · obtain rfl := some.inj hd
        rw [hp] at hq
        exact serve_session hq hserve
      · exact hkept (by rw [hp]; exact hd)
    · have hd : (s.phase d).session = some sessionId := by
        simpa [update_of_ne hdc] using hd
      exact serve_opened hserve (hs.opened d sessionId hd)

theorem prepared_frame (hframe : Frame cells cells')
    (hopened : ∀ sessionId, p.session = some sessionId → cells.sessions sessionId ≠ none)
    (h : Prepared platform cells call p) : Prepared platform cells' call p := by
  cases p with
  | attempting way request approval retried sessionId =>
    intro session hlive
    exact h session (hframe.live sessionId session (hopened sessionId rfl) hlive)
  | _ => exact h

/-- A command that moves a session keeps the others prepared exactly when it leaves the session
where they work. -/
theorem prepared_moved {session : ShellSession}
    (standing : Standing) (hlive : cells.live sessionId = some session)
    (h : Prepared platform cells call p) :
    Prepared platform (cells.setSession sessionId { session with standing }) call p ↔
      ∀ way request approval retried, p = .attempting way request approval retried sessionId →
        standing.cwd = call.agent.effectiveCwd := by
  cases p with
  | attempting way request approval retried other =>
    by_cases heq : other = sessionId
    · subst heq
      have hown := h session hlive
      constructor
      · intro hprepared _ _ _ _ _
        exact (hprepared _ (live_moved hlive standing)).2
      · intro hcwd session' hsession
        obtain rfl := some.inj ((live_moved hlive standing).symm.trans hsession)
        exact ⟨hown.1, hcwd way request approval retried rfl⟩
    · refine iff_of_true ?_ ?_
      · intro session' hsession
        rw [live_setSession_of_ne _ _ heq] at hsession
        exact h session' hsession
      · intro _ _ _ _ hp
        cases hp
        exact absurd rfl heq
  | _ => exact iff_of_true h fun _ _ _ _ hp => nomatch hp

theorem prepared_update :
    (∀ d, Prepared platform cells (calls d) (update s.phase c phase d)) ↔
      Prepared platform cells (calls c) phase ∧
        ∀ d, d ≠ c → Prepared platform cells (calls d) (s.phase d) := by
  constructor
  · intro h
    refine ⟨by simpa using h c, fun d hdc => ?_⟩
    simpa [update_of_ne hdc] using h d
  · rintro ⟨hself, hothers⟩ d
    by_cases hdc : d = c
    · subst hdc
      simpa using hself
    · simpa [update_of_ne hdc] using hothers d hdc

/-- Where the sessions stay as they are, only the call itself is to be looked at. -/
theorem prepared_self (hs : Invariant s) (h : Isolated platform calls s)
    (hframe : Frame s.cells cells) :
    (∀ d, Prepared platform cells (calls d) (update s.phase c phase d)) ↔
      Prepared platform cells (calls c) phase := by
  rw [prepared_update]
  refine and_iff_left fun d _ => ?_
  exact prepared_frame hframe (hs.opened d) (prepared_of_isolated h d)

omit [DecidableEq κ] in
/-- A call that is given a session. -/
theorem prepared_opening (hs : Invariant s) (hp : s.phase c = .opening way request approval retried)
    (hserve : getOrCreateShellSession platform s.cells (calls c).agent.effectiveCwd outside =
      some (cells, reply))
    (hphase : resume platform (calls c).agent (calls c).name (calls c).arguments
      (.opening way request approval retried) reply = some phase) :
    Prepared platform cells (calls c) phase ↔ Fits platform calls s (.advance c outside) := by
  rw [Fits, hp]
  rcases getOrCreate_cases hserve with ⟨sessionId, standing, rfl, rfl, hopened⟩ |
    ⟨existing, session, rfl, rfl, rfl, hcurrent, hlive, hpolicy⟩ | ⟨error, rfl, rfl, -⟩
  · obtain rfl := some.inj hphase
    obtain ⟨initialCwd, hlive⟩ := hopened.live
    constructor
    · exact fun hprepared => hprepared _ hlive
    · intro hown session hsession
      obtain rfl := some.inj (hlive.symm.trans hsession)
      exact hown
  · obtain rfl := some.inj hphase
    have hsession : session.sandboxPolicy = s.cells.pendingSandboxPolicy :=
      (hs.current.effective existing session hcurrent hlive).trans hpolicy
    constructor
    · intro hprepared other session' hother hsession'
      obtain rfl := some.inj (hcurrent.symm.trans hother)
      obtain rfl := some.inj (hlive.symm.trans hsession')
      rw [← hsession]
      exact hprepared session hlive
    · intro hown session' hsession'
      obtain rfl := some.inj (hlive.symm.trans hsession')
      rw [hsession]
      exact hown existing session hcurrent hlive
  · obtain rfl := some.inj hphase
    exact iff_of_true trivial trivial

/-- A command that runs in a session. -/
theorem prepared_exec (h : Isolated platform calls s)
    (hp : s.phase c = .attempting way request approval retried sessionId) (hway : way ≠ .fork)
    (hserve : execInSession s.cells sessionId false outside = some (cells, reply))
    (hphase : phase.quiet = true) :
    (∀ d, Prepared platform cells (calls d) (update s.phase c phase d)) ↔
      Fits platform calls s (.advance c outside) := by
  rw [prepared_update, and_iff_right (prepared_quiet hphase)]
  rw [Fits, hp]
  obtain ⟨attempt, standing, rfl, rfl, ⟨hstarted, session, hlive, rfl⟩ | ⟨hstarted, rfl⟩⟩ :=
    exec_cases hserve
  · have hmoved : ∀ d, Prepared platform _ (calls d) (s.phase d) ↔ _ := fun d =>
      prepared_moved standing hlive (prepared_of_isolated h d)
    simp only [hmoved]
    constructor
    · exact fun hothers _ _ d way request approval retried hdc hd =>
        hothers d hdc way request approval retried hd
    · exact fun hfits d hdc way request approval retried hd =>
        hfits hway hstarted d way request approval retried hdc hd
  · refine iff_of_true (fun d _ => prepared_of_isolated h d) ?_
    intro _ hran
    rw [hstarted] at hran
    cases hran

omit [DecidableEq κ] in
/-- A call that does not run a command in a session has to fit by itself. -/
theorem prepared_reply (hs : Invariant s) (hq : query platform (calls c).agent (s.phase c) = some q)
    (hserve : serve platform s.cells q outside = some (cells, reply))
    (hphase : resume platform (calls c).agent (calls c).name (calls c).arguments (s.phase c) reply =
      some phase)
    (hexec : ∀ sessionId request approval, q ≠ .execInSession sessionId request approval) :
    Prepared platform cells (calls c) phase ↔ Fits platform calls s (.advance c outside) := by
  cases hp : s.phase c with
  | readingPolicy args | readingIsolatedPolicy request approval state =>
    rw [Fits, hp]
    rw [hp] at hq hphase
    obtain rfl := some.inj hq
    cases outside with
    | quiet =>
      obtain ⟨rfl, rfl⟩ := Prod.mk.inj (some.inj hserve)
      obtain rfl := some.inj hphase
      exact Iff.rfl
    | _ => cases hserve
  | opening way request approval retried =>
    rw [hp] at hq hphase
    obtain rfl := some.inj hq
    exact prepared_opening hs hp hserve hphase
  | askingFork request sessionId =>
    rw [Fits, hp]
    rw [hp] at hq hphase
    obtain rfl := some.inj hq
    cases outside with
    | replied reply' =>
      obtain ⟨rfl, rfl⟩ := serve_replied hserve
      cases reply with
      | approval answer =>
        obtain rfl := some.inj hphase
        match answer with
        | some true => exact Iff.rfl
        | some false | none => exact iff_of_true trivial trivial
      | _ => cases hserve
    | _ => cases hserve
  | attempting way request approval retried sessionId =>
    rw [hp] at hphase hq
    have hway : way = .fork := by
      cases way with
      | fork => rfl
      | generic | replay =>
        obtain rfl := some.inj hq
        exact absurd rfl (hexec _ _ _)
    rw [Fits, hp]
    refine iff_of_true (prepared_quiet (quiet_of_resume hphase rfl)) ?_
    cases outside with
    | attempted attempt standing => exact fun hne => absurd hway hne
    | _ => trivial
  | _ =>
    rw [hp] at hphase
    rw [Fits, hp]
    exact iff_of_true (prepared_quiet (quiet_of_resume hphase rfl)) trivial

theorem step_isolated {a : CellAction κ} (hs : Invariant s) (h : Isolated platform calls s)
    (hstep : cellStep platform calls s a = some t) :
    Isolated platform calls t ↔ Fits platform calls s a := by
  cases a with
  | expire sessionId =>
    obtain rfl := some.inj hstep
    refine iff_of_true (isolated_iff.mpr ⟨h.1, fun d => ?_⟩) trivial
    exact prepared_frame (frame_terminate _ _) (hs.opened d) (prepared_of_isolated h d)
  | advance c outside =>
    have hown := h.2 c outside t hstep
    obtain ⟨q, cells, reply, phase, hq, hserve, hphase, rfl⟩ := advance_eq_some.mp hstep
    rw [isolated_iff, and_iff_right hown]
    dsimp only
    by_cases hexec : ∃ sessionId request approval, q = .execInSession sessionId request approval
    · obtain ⟨sessionId, request, approval, rfl⟩ := hexec
      obtain ⟨way, retried, hp, hway⟩ : ∃ way retried,
          s.phase c = .attempting way request approval retried sessionId ∧ way ≠ .fork := by
        cases hp : s.phase c with
        | attempting way request' approval' retried sessionId' =>
          rw [hp] at hq
          cases way with
          | fork => cases hq
          | generic | replay =>
            cases hq
            exact ⟨_, retried, rfl, nofun⟩
        | _ =>
          rw [hp] at hq
          cases hq
      rw [hp] at hphase
      exact prepared_exec h hp hway hserve (quiet_of_resume hphase rfl)
    · push Not at hexec
      rw [prepared_self hs h (frame_serve hexec hserve)]
      exact prepared_reply hs hq hserve hphase hexec

end Runs

def worktreePlatform : Platform where
  env := ⟨none, none, [], false⟩
  workspaceRoot := "/repo"
  shellKind := .posix
  parse _ := .ok (.object [("path", .string "a.rs"), ("command", .string "ls")])
  jsonText _ := "[]"

/-- The same call by an agent in each of two worktrees. -/
def worktreeCalls (mode : SafetyMode) (name : String) (second : Bool) : Call where
  agent := ⟨.fromMode mode, if second then "/repo/b" else "/repo/a"⟩
  name := name
  arguments := ""

def worktreeStart : State Bool := .start (.init worktreePlatform "/bin/bash" .readOnly)

/-- Both calls have written their policies before the first one reads it. -/
def readAfterWrites : List (CellAction Bool) :=
  [.advance false .quiet, .advance true .quiet, .advance false .quiet,
    .advance false (.replied (.binary (.exited true "" "")))]

/-- The second call starts after the end of the first one. -/
def commandAfterCommand : List (CellAction Bool) :=
  [.advance false .quiet, .advance false (.spawned "s1" ⟨"/repo/a", []⟩),
    .advance false (.attempted (.ran someOutput) ⟨"/repo/a", []⟩), .advance false .quiet,
    .advance true .quiet, .advance true .quiet,
    .advance true (.attempted (.ran someOutput) ⟨"/repo/a", []⟩)]

end ColossalCode.Dispatch
