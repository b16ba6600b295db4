import ColossalCode.Dispatch.Cells

/-! What the replies to one call leave of the sessions of the others. -/
namespace ColossalCode.Dispatch
open Option Prod Cells

open Sessionizer

variable {platform : Platform} {outside : Outside} {cells cells' : Cells} {q : Query}
  {reply : Reply}

/-- What becomes of the sessions while nothing moves in them. -/
structure Frame (cells cells' : Cells) : Prop where
  opened : ∀ sessionId, cells.sessions sessionId ≠ none → cells'.sessions sessionId ≠ none
  live : ∀ sessionId session, cells.sessions sessionId ≠ none →
    cells'.live sessionId = some session → cells.live sessionId = some session

theorem Frame.of_sessions (h : cells'.sessions = cells.sessions) : Frame cells cells' where
  opened sessionId hopened := by rwa [h]
  live sessionId session _ hlive := by
    rw [Cells.live, h] at hlive
    exact hlive

theorem Frame.trans {cells'' : Cells} (h : Frame cells cells') (h' : Frame cells' cells'') :
    Frame cells cells'' where
  opened sessionId hopened := h'.opened sessionId (h.opened sessionId hopened)
  live sessionId session hopened hlive :=
    h.live sessionId session hopened
      (h'.live sessionId session (h.opened sessionId hopened) hlive)

theorem live_setSession (cells : Cells) (sessionId : SessionId) (session : ShellSession) :
    (cells.setSession sessionId session).live sessionId = (some session).filter (·.alive) := by
  rw [live, setSession_self]

theorem live_setSession_of_ne (cells : Cells) {sessionId other : SessionId} (session : ShellSession)
    (h : other ≠ sessionId) : (cells.setSession sessionId session).live other =
      cells.live other := by
  rw [live, live, cells.setSession_of_ne session h]

variable {sessionId : SessionId} {state : Continuity} {session : ShellSession}

theorem opened_setSession (session : ShellSession) (other : SessionId)
    (h : cells.sessions other ≠ none) : (cells.setSession sessionId session).sessions
      other ≠ none := by
  by_cases hother : other = sessionId
  · subst hother
    rw [setSession_self]
    exact some_ne_none _
  · rwa [cells.setSession_of_ne session hother]

theorem frame_terminate (cells : Cells) (sessionId : SessionId) :
    Frame cells (cells.terminate sessionId) := by
  unfold terminate
  split
  · next session hsession =>
    refine ⟨opened_setSession _, fun other session' hopened hlive => ?_⟩
    by_cases hother : other = sessionId
    · subst hother
      rw [live_setSession] at hlive
      cases hlive
    · rwa [live_setSession_of_ne _ _ hother] at hlive
  · exact .of_sessions rfl

theorem frame_forgetGone (cells : Cells) : Frame cells cells.forgetGone := by
  unfold forgetGone
  split
  · split <;> exact .of_sessions rfl
  · exact .of_sessions rfl

/-- A new session has an id that has not been used. -/
theorem frame_spawn
    (h : spawnShellSession cells state outside = some (cells', reply)) : Frame cells cells' := by
  cases outside with
  | spawned sessionId standing =>
    rw [spawnShellSession] at h
    split at h
    · next hnew =>
      obtain ⟨rfl, -⟩ := mk.inj (some.inj h)
      refine ⟨opened_setSession _, fun other session hopened hlive => ?_⟩
      have hother : other ≠ sessionId := by
        rintro rfl
        exact hopened hnew.1
      have hlive : (cells.setSession sessionId _).live other = some session := hlive
      rwa [live_setSession_of_ne _ _ hother] at hlive
    · cases h
  | failed error =>
    obtain ⟨rfl, -⟩ := mk.inj (some.inj h)
    exact .of_sessions rfl
  | _ => cases h

theorem frame_getOrCreate {seedCwd : String}
    (h : getOrCreateShellSession platform cells seedCwd outside = some (cells', reply)) :
    Frame cells cells' := by
  unfold getOrCreateShellSession at h
  dsimp only at h
  refine (frame_forgetGone cells).trans ?_
  split at h
  · exact frame_spawn h
  · next existing _ =>
    split at h
    · exact frame_spawn h
    · split at h
      · have hgone := frame_terminate cells.forgetGone existing
        have hcleared : Frame (cells.forgetGone.terminate existing)
            { cells.forgetGone.terminate existing with shellSessionId := none } :=
          .of_sessions rfl
        exact (hgone.trans hcleared).trans (frame_spawn h)
      · split at h
        · obtain ⟨rfl, -⟩ := mk.inj (some.inj h)
          exact .of_sessions rfl
        · cases h

theorem serve_replied {reply' : Reply}
    (h : serve platform cells q (.replied reply') = some (cells', reply)) :
    cells' = cells ∧ reply = reply' := by
  cases q with
  | toolsBinary args policy cwd =>
    cases reply' with
    | binary run =>
      obtain ⟨rfl, rfl⟩ := mk.inj (some.inj h)
      exact ⟨rfl, rfl⟩
    | _ => cases h
  | readBackgroundOutput sessionId =>
    cases reply' with
    | output contents =>
      obtain ⟨rfl, rfl⟩ := mk.inj (some.inj h)
      exact ⟨rfl, rfl⟩
    | _ => cases h
  | webSearch query limit site =>
    cases reply' with
    | search run =>
      obtain ⟨rfl, rfl⟩ := mk.inj (some.inj h)
      exact ⟨rfl, rfl⟩
    | _ => cases h
  | htmlToText url maxContentLength =>
    cases reply' with
    | page content =>
      obtain ⟨rfl, rfl⟩ := mk.inj (some.inj h)
      exact ⟨rfl, rfl⟩
    | _ => cases h
  | requestApproval message =>
    cases reply' with
    | approval answer =>
      obtain ⟨rfl, rfl⟩ := mk.inj (some.inj h)
      exact ⟨rfl, rfl⟩
    | _ => cases h
  | shellSession seedCwd =>
    have h : getOrCreateShellSession platform cells seedCwd (.replied reply') =
      some (cells', reply) := h
    unfold getOrCreateShellSession at h
    dsimp only [spawnShellSession] at h
    split at h
    · cases h
    · split at h
      · cases h
      · split at h <;> cases h
  | _ => cases h

/-- What a reply leaves of the cells, unless it opens a session or moves one. -/
structure Settled (cells cells' : Cells) : Prop where
  frame : Frame cells cells'
  effective : cells'.effectiveSandboxPolicy = cells.effectiveSandboxPolicy
  current : cells'.shellSessionId = cells.shellSessionId ∨ cells'.shellSessionId = none

theorem settled_refl (cells : Cells) : Settled cells cells := ⟨.of_sessions rfl, rfl, .inl rfl⟩

theorem terminate_effective (cells : Cells) (sessionId : SessionId) :
    (cells.terminate sessionId).effectiveSandboxPolicy = cells.effectiveSandboxPolicy := by
  unfold terminate
  split <;> rfl

theorem terminate_current (cells : Cells) (sessionId : SessionId) :
    (cells.terminate sessionId).shellSessionId = cells.shellSessionId := by
  unfold terminate
  split <;> rfl

theorem settled_terminate (cells : Cells) (sessionId : SessionId) :
    Settled cells (cells.terminate sessionId) :=
  ⟨frame_terminate cells sessionId, terminate_effective cells sessionId,
    .inl (terminate_current cells sessionId)⟩

theorem settled_cleared (cells : Cells) (sessionId : SessionId) :
    Settled cells { cells.terminate sessionId with shellSessionId := none } :=
  ⟨(frame_terminate cells sessionId).trans (.of_sessions rfl), terminate_effective cells sessionId,
    .inr rfl⟩

theorem settled_fork (h : execInSession cells sessionId true outside = some (cells', reply)) :
    Settled cells cells' := by
  cases outside with
  | attempted attempt standing =>
    rw [execInSession] at h
    split at h
    · rw [Bool.not_true, Bool.and_false] at h
      obtain ⟨rfl, -⟩ := mk.inj (some.inj h)
      exact settled_refl _
    · split at h
      · cases h
      · obtain ⟨rfl, -⟩ := mk.inj (some.inj h)
        exact settled_refl _
  | _ => cases h

theorem settled_sync {replayedCommand : Option String}
    (h : syncContinuity platform cells sessionId replayedCommand outside = some (cells', reply)) :
    Settled cells cells' := by
  cases outside with
  | quiet =>
    obtain ⟨session, -, heq⟩ := map_eq_some_iff.mp h
    obtain ⟨rfl, -⟩ := mk.inj heq
    exact ⟨.of_sessions rfl, rfl, .inl rfl⟩
  | failed error =>
    obtain ⟨rfl, -⟩ := mk.inj (some.inj h)
    exact settled_refl _
  | _ => cases h

theorem serve_cases (h : serve platform cells q outside = some (cells', reply)) :
    (∃ seedCwd, q = .shellSession seedCwd ∧
      getOrCreateShellSession platform cells seedCwd outside = some (cells', reply)) ∨
    (∃ sessionId request approval, q = .execInSession sessionId request approval ∧
      execInSession cells sessionId false outside = some (cells', reply)) ∨
    Settled cells cells' := by
  cases q with
  | shellSession seedCwd => exact .inl ⟨seedCwd, rfl, h⟩
  | execInSession sessionId request approval =>
    exact .inr (.inl ⟨sessionId, request, approval, rfl, h⟩)
  | forkEval sessionId request approval => exact .inr (.inr (settled_fork h))
  | syncContinuity sessionId replayedCommand => exact .inr (.inr (settled_sync h))
  | dropSession sessionId onlyCurrent =>
    cases outside with
    | quiet =>
      obtain ⟨rfl, -⟩ := mk.inj (some.inj h)
      refine .inr (.inr ⟨(frame_terminate cells sessionId).trans (.of_sessions rfl),
        terminate_effective cells sessionId, ?_⟩)
      dsimp only
      split
      · exact .inl rfl
      · exact .inr rfl
    | _ => cases h
  | writePolicy policy | readPolicy | readContinuity =>
    cases outside with
    | quiet =>
      obtain ⟨rfl, -⟩ := mk.inj (some.inj h)
      exact .inr (.inr ⟨.of_sessions rfl, rfl, .inl rfl⟩)
    | _ => cases h
  | runIsolated request cwd env policy approval =>
    cases outside with
    | attempted attempt standing =>
      obtain ⟨rfl, -⟩ := mk.inj (some.inj h)
      exact .inr (.inr (settled_refl _))
    | _ => cases h
  | toolsBinary | readBackgroundOutput | webSearch | htmlToText | requestApproval =>
    cases outside with
    | replied reply' =>
      obtain ⟨rfl, -⟩ := serve_replied h
      exact .inr (.inr (settled_refl _))
    | _ => cases h

/-- The session in use runs under the policy that is said to be in effect. -/
structure Current (cells : Cells) : Prop where
  opened : ∀ sessionId, cells.shellSessionId = some sessionId → cells.sessions sessionId ≠ none
  effective : ∀ sessionId session, cells.shellSessionId = some sessionId →
    cells.live sessionId = some session → session.sandboxPolicy = cells.effectiveSandboxPolicy

theorem current_none (h : cells.shellSessionId = none) : Current cells where
  opened sessionId hcurrent := by
    rw [h] at hcurrent
    cases hcurrent
  effective sessionId session hcurrent := by
    rw [h] at hcurrent
    cases hcurrent

theorem Current.settled (h : Current cells) (hsettled : Settled cells cells') : Current cells' := by
  rcases hsettled.current with hcurrent | hnone
  · refine ⟨fun sessionId hid => ?_, fun sessionId session hid hlive => ?_⟩
    · rw [hcurrent] at hid
      exact hsettled.frame.opened sessionId (h.opened sessionId hid)
    · rw [hcurrent] at hid
      rw [hsettled.effective]
      exact h.effective sessionId session hid
        (hsettled.frame.live sessionId session (h.opened sessionId hid) hlive)
  · exact current_none hnone

theorem settled_forgetGone (cells : Cells) : Settled cells cells.forgetGone := by
  refine ⟨frame_forgetGone cells, ?_, ?_⟩
  · unfold forgetGone
    split
    · split <;> rfl
    · rfl
  · unfold forgetGone
    split
    · split
      · exact .inl rfl
      · exact .inr rfl
    · exact .inl rfl

/-- A session that has been opened for a call, with the policy read then. -/
structure Opened (pending : SandboxPolicy) (cells : Cells) (sessionId : SessionId)
    (standing : Standing) : Prop where
  current : cells.shellSessionId = some sessionId
  live : ∃ initialCwd, cells.live sessionId = some ⟨pending, initialCwd, standing, true⟩
  effective : cells.effectiveSandboxPolicy = pending

theorem spawn_cases (h : spawnShellSession cells state outside = some (cells', reply)) :
    (∃ sessionId standing, outside = .spawned sessionId standing ∧
      reply = .session (.ok sessionId) ∧
      Opened cells.pendingSandboxPolicy cells' sessionId standing) ∨
    (∃ error, outside = .failed error ∧ reply = .session (.error error) ∧ cells' = cells) := by
  cases outside with
  | spawned sessionId standing =>
    rw [spawnShellSession] at h
    split at h
    · obtain ⟨rfl, rfl⟩ := mk.inj (some.inj h)
      refine .inl ⟨sessionId, standing, rfl, rfl, rfl, ⟨state.currentCwd, ?_⟩, rfl⟩
      exact live_setSession cells sessionId _
    · cases h
  | failed error =>
    obtain ⟨rfl, rfl⟩ := mk.inj (some.inj h)
    exact .inr ⟨error, rfl, rfl, rfl⟩
  | _ => cases h

theorem Opened.inUse {pending : SandboxPolicy} {standing : Standing}
    (h : Opened pending cells sessionId standing) : Current cells := by
  obtain ⟨initialCwd, hlive⟩ := h.live
  refine ⟨fun other hother => ?_, fun other session hother hsession => ?_⟩
  · obtain rfl := some.inj (h.current.symm.trans hother)
    intro hnone
    rw [Cells.live, hnone] at hlive
    cases hlive
  · obtain rfl := some.inj (h.current.symm.trans hother)
    obtain rfl := some.inj (hlive.symm.trans hsession)
    exact h.effective.symm

theorem forgetGone_current {existing : SessionId}
    (h : cells.forgetGone.shellSessionId = some existing) :
    cells.forgetGone = cells ∧ cells.shellSessionId = some existing ∧
      ∃ session, cells.live existing = some session := by
  unfold forgetGone at h ⊢
  split at h
  · next other hother =>
    rw [hother]
    by_cases hlive : (cells.live other).isSome = true
    · rw [if_pos hlive] at h ⊢
      obtain rfl := some.inj (hother.symm.trans h)
      exact ⟨rfl, rfl, isSome_iff_exists.mp hlive⟩
    · rw [if_neg hlive] at h
      cases h
  · next hnone =>
    rw [hnone] at h
    cases h

theorem forgetGone_pending (cells : Cells) :
    cells.forgetGone.pendingSandboxPolicy = cells.pendingSandboxPolicy := by
  unfold forgetGone
  split
  · split <;> rfl
  · rfl

theorem terminate_pending (cells : Cells) (sessionId : SessionId) :
    (cells.terminate sessionId).pendingSandboxPolicy = cells.pendingSandboxPolicy := by
  unfold terminate
  split <;> rfl

theorem spawn_between {between : Cells} (hbetween : Settled cells between)
    (hpending : between.pendingSandboxPolicy = cells.pendingSandboxPolicy)
    (h : spawnShellSession between state outside = some (cells', reply)) :
    (∃ sessionId standing, outside = .spawned sessionId standing ∧
      reply = .session (.ok sessionId) ∧
      Opened cells.pendingSandboxPolicy cells' sessionId standing) ∨
    (∃ error, outside = .failed error ∧ reply = .session (.error error) ∧
      Settled cells cells') := by
  rcases spawn_cases h with ⟨sessionId, standing, houtside, hreply, hopened⟩ |
    ⟨error, houtside, hreply, rfl⟩
  · rw [hpending] at hopened
    exact .inl ⟨sessionId, standing, houtside, hreply, hopened⟩
  · exact .inr ⟨error, houtside, hreply, hbetween⟩

/-- A session is opened under the policy last written, or the one in use has that policy. -/
theorem getOrCreate_cases {seedCwd : String}
    (h : getOrCreateShellSession platform cells seedCwd outside = some (cells', reply)) :
    (∃ sessionId standing, outside = .spawned sessionId standing ∧
      reply = .session (.ok sessionId) ∧
      Opened cells.pendingSandboxPolicy cells' sessionId standing) ∨
    (∃ existing session, outside = .quiet ∧ reply = .session (.ok existing) ∧ cells' = cells ∧
      cells.shellSessionId = some existing ∧ cells.live existing = some session ∧
      cells.effectiveSandboxPolicy = cells.pendingSandboxPolicy) ∨
    (∃ error, outside = .failed error ∧ reply = .session (.error error) ∧
      Settled cells cells') := by
  unfold getOrCreateShellSession at h
  dsimp only at h
  split at h
  · exact (spawn_between (settled_forgetGone cells) (forgetGone_pending cells) h).imp_right .inr
  · next existing hexisting =>
    obtain ⟨hforget, hcurrent, session, hlive⟩ := forgetGone_current hexisting
    rw [hforget] at h
    split at h
    · exact (spawn_between (settled_refl cells) rfl h).imp_right .inr
    · split at h
      · exact (spawn_between (settled_cleared cells existing) (terminate_pending cells existing)
          h).imp_right .inr
      · next hpolicy =>
        split at h
        · obtain ⟨rfl, rfl⟩ := mk.inj (some.inj h)
          exact .inr (.inl ⟨existing, session, rfl, rfl, rfl, hcurrent, hlive, not_not.mp hpolicy⟩)
        · cases h

/-- A command moves the session it runs in. -/
theorem exec_cases (h : execInSession cells sessionId false outside = some (cells', reply)) :
    ∃ attempt standing, outside = .attempted attempt standing ∧ reply = .attempt attempt ∧
      ((attempt.started = true ∧ ∃ session, cells.live sessionId = some session ∧
        cells' = cells.setSession sessionId { session with standing }) ∨
      (attempt.started = false ∧ cells' = cells)) := by
  cases outside with
  | attempted attempt standing =>
    refine ⟨attempt, standing, rfl, ?_⟩
    rw [execInSession] at h
    cases hstarted : attempt.started with
    | true =>
      rw [hstarted] at h
      split at h
      · next session hlive =>
        obtain ⟨rfl, rfl⟩ := mk.inj (some.inj h)
        exact ⟨rfl, .inl ⟨rfl, session, hlive, rfl⟩⟩
      · cases h
    | false =>
      rw [hstarted] at h
      split at h
      · obtain ⟨rfl, rfl⟩ := mk.inj (some.inj h)
        exact ⟨rfl, .inr ⟨rfl, rfl⟩⟩
      · obtain ⟨rfl, rfl⟩ := mk.inj (some.inj h)
        exact ⟨rfl, .inr ⟨rfl, rfl⟩⟩
  | _ => cases h

theorem frame_serve
    (hq : ∀ sessionId request approval, q ≠ .execInSession sessionId request approval)
    (h : serve platform cells q outside = some (cells', reply)) : Frame cells cells' := by
  rcases serve_cases h with ⟨seedCwd, -, hget⟩ | ⟨sessionId, request, approval, rfl, -⟩ | hsettled
  · exact frame_getOrCreate hget
  · exact absurd rfl (hq sessionId request approval)
  · exact hsettled.frame

theorem live_opened
    (h : cells.live sessionId = some session) : cells.sessions sessionId ≠ none := by
  intro hnone
  rw [live, hnone] at h
  cases h

theorem live_alive (h : cells.live sessionId = some session) : session.alive = true :=
  (filter_eq_some_iff.mp h).2

/-- The session a command has moved. -/
theorem live_moved (h : cells.live sessionId = some session) (standing : Standing) :
    (cells.setSession sessionId { session with standing }).live sessionId =
      some { session with standing } := by
  have halive : session.alive = true := live_alive h
  rw [live_setSession]
  exact filter_eq_some_iff.mpr ⟨rfl, halive⟩

/-- No id of a session is given up. -/
theorem serve_opened (h : serve platform cells q outside = some (cells', reply))
    (hopened : cells.sessions sessionId ≠ none) :
    cells'.sessions sessionId ≠ none := by
  rcases serve_cases h with ⟨seedCwd, -, hget⟩ | ⟨moved, request, approval, -, hexec⟩ | hsettled
  · exact (frame_getOrCreate hget).opened sessionId hopened
  · obtain ⟨attempt, standing, -, -, ⟨-, session, -, rfl⟩ | ⟨-, rfl⟩⟩ := exec_cases hexec
    · exact opened_setSession _ sessionId hopened
    · exact hopened
  · exact hsettled.frame.opened sessionId hopened

theorem Current.moved (h : Current cells)
    (hlive : cells.live sessionId = some session) (standing : Standing) :
    Current (cells.setSession sessionId { session with standing }) := by
  refine ⟨fun other hother => opened_setSession _ other (h.opened other hother),
    fun other session' hother hsession => ?_⟩
  by_cases heq : other = sessionId
  · subst heq
    obtain rfl := some.inj ((live_moved hlive standing).symm.trans hsession)
    exact h.effective other session hother hlive
  · rw [live_setSession_of_ne _ _ heq] at hsession
    exact h.effective other session' hother hsession

theorem Current.serve (h : Current cells)
    (hserve : serve platform cells q outside = some (cells', reply)) : Current cells' := by
  rcases serve_cases hserve with
    ⟨seedCwd, -, hget⟩ | ⟨moved, request, approval, -, hexec⟩ | hsettled
  · rcases getOrCreate_cases hget with ⟨sessionId, standing, -, -, hopened⟩ |
      ⟨existing, session, -, -, rfl, -⟩ | ⟨error, -, -, hsettled⟩
    · exact hopened.inUse
    · exact h
    · exact h.settled hsettled
  · obtain ⟨attempt, standing, -, -, ⟨-, session, hlive, rfl⟩ | ⟨-, rfl⟩⟩ := exec_cases hexec
    · exact h.moved hlive standing
    · exact h
  · exact h.settled hsettled

end ColossalCode.Dispatch
