import ColossalCode.Dispatch.Isolation

/-! Writable roots that are added to the policy, and the commands that run after it. Nothing in the
process takes a root back: `withdraw` only says that it is no longer relied on. -/
namespace ColossalCode.Dispatch
open Function List Option Prod

open Sessionizer Transition

/-- `add_writable_root`, on the policy it finds; paths are compared as texts. -/
def addWritableRoot (path : String) : SandboxPolicy → Except String SandboxPolicy
  | .workspaceWrite writableRoots network tmpdir slashTmp =>
    if writableRoots.any (·.root == path) then
      .ok (.workspaceWrite writableRoots network tmpdir slashTmp)
    else .ok (.workspaceWrite (writableRoots ++ [⟨path, true, []⟩]) network tmpdir slashTmp)
  | .dangerFullAccess => .ok .dangerFullAccess
  | .readOnly => .error "Cannot add writable root in read-only mode"

/-- The root is one of the writable ones; with full access every path is. -/
def HasRoot (root : String) : SandboxPolicy → Prop
  | .workspaceWrite writableRoots _ _ _ => root ∈ writableRoots.map (·.root)
  | .dangerFullAccess => True
  | .readOnly => False

instance (root : String) (policy : SandboxPolicy) : Decidable (HasRoot root policy) := by
  cases policy <;> unfold HasRoot <;> infer_instance

/-- The process with the roots that were added, and the policies that commands ran under, each with
the roots that had been added then. -/
structure Grants (κ : Type) where
  state : State κ
  granted : List String
  ran : List (SandboxPolicy × List String)

/-- A policy is also written by `update_safety_config`, for the directory its agent works in. -/
inductive GrantAction (κ : Type) where
  | addWritableRoot (path : String)
  | withdraw (path : String)
  | updateSafetyConfig (safetyConfig : SafetyConfig) (effectiveCwd : String)
  | act (a : CellAction κ)

def State.setPolicy {κ : Type} (s : State κ) (policy : SandboxPolicy) : State κ :=
  { s with cells := { s.cells with pendingSandboxPolicy := policy } }

section Step

variable {κ : Type} [DecidableEq κ] (platform : Platform) (calls : κ → Call)

def grantStep (g : Grants κ) : GrantAction κ → Option (Grants κ)
  | .addWritableRoot path =>
    match addWritableRoot path g.state.cells.pendingSandboxPolicy with
    | .ok policy => some { g with
        state := g.state.setPolicy policy
        granted := path :: g.granted }
    | .error _ => some g
  | .withdraw path => some { g with granted := g.granted.filter (· != path) }
  | .updateSafetyConfig safetyConfig effectiveCwd => some { g with
      state := g.state.setPolicy
        (sandboxPolicyFromConfigWithWorkspace platform.env safetyConfig effectiveCwd) }
  | .act a => (cellStep platform calls g.state a).map fun t => { g with
      state := t
      ran := g.ran ++ (t.executions.drop g.state.executions.length).map
        fun e => (e.sandboxPolicy, g.granted) }

def Grants.start (state : State κ) : Grants κ := ⟨state, [], []⟩

/-- Every command ran with the roots added before it, and a session that a call would be given now
runs under the policy that is pending. -/
structure Persists (g : Grants κ) : Prop where
  ran : ∀ r ∈ g.ran, ∀ root ∈ r.2, HasRoot root r.1
  session : ∀ seedCwd outside cells sessionId,
    getOrCreateShellSession platform g.state.cells seedCwd outside =
      some (cells, .session (.ok sessionId)) →
    cells.pendingSandboxPolicy = g.state.cells.pendingSandboxPolicy ∧
      ∃ session, cells.live sessionId = some session ∧
        session.sandboxPolicy = cells.pendingSandboxPolicy

end Step

/-- The policy that a call has read. -/
def Phase.policy : Phase → Option SandboxPolicy
  | .invoking _ policy => some policy
  | .isolated _ _ _ policy => some policy
  | _ => none

/-- The policy that a call has read, and that of the session it was given. -/
structure Bound (ok : SandboxPolicy → Prop) (cells : Cells) (p : Phase) : Prop where
  read : ∀ policy, p.policy = some policy → ok policy
  given : ∀ sessionId session, p.session = some sessionId → cells.live sessionId = some session →
    ok session.sandboxPolicy

section Runs

variable {κ : Type} [DecidableEq κ] (platform : Platform) (calls : κ → Call)

/-- A policy that is built anew has the roots that were added, and so has what the calls under way
have taken when a root is added. -/
def Keeps (g : Grants κ) : GrantAction κ → Prop
  | .addWritableRoot path =>
    g.state.cells.pendingSandboxPolicy ≠ .readOnly →
      ∀ c, Bound (HasRoot path) g.state.cells (g.state.phase c)
  | .updateSafetyConfig safetyConfig effectiveCwd => ∀ root ∈ g.granted,
      HasRoot root (sandboxPolicyFromConfigWithWorkspace platform.env safetyConfig effectiveCwd)
  | .act (.advance c _) => g.state.phase c = .called →
      ∀ root ∈ g.granted, HasRoot root (ownPolicy platform (calls c))
  | _ => True

/-- The roots that were added are in the policy that is pending and in those that were taken. -/
structure Held (g : Grants κ) : Prop where
  invariant : Invariant g.state
  pending : ∀ root ∈ g.granted, HasRoot root g.state.cells.pendingSandboxPolicy
  bound : ∀ root ∈ g.granted, ∀ c, Bound (HasRoot root) g.state.cells (g.state.phase c)
  ran : ∀ r ∈ g.ran, ∀ root ∈ r.2, HasRoot root r.1

variable {platform calls} {s t : State κ} {c : κ} {g g' : Grants κ} {outside : Outside}
  {cells cells' : Cells} {p : Phase} {q : Query} {reply : Reply} {ok : SandboxPolicy → Prop}

theorem addWritableRoot_has {policy policy' : SandboxPolicy} {path : String}
    (h : addWritableRoot path policy = .ok policy') :
    policy ≠ .readOnly ∧ HasRoot path policy' ∧
      ∀ root, HasRoot root policy → HasRoot root policy' := by
  cases policy with
  | workspaceWrite writableRoots network tmpdir slashTmp =>
    refine ⟨by simp, ?_⟩
    rw [addWritableRoot] at h
    split at h
    · next hany =>
      obtain rfl := Except.ok.inj h
      obtain ⟨root, hroot, heq⟩ := any_eq_true.mp hany
      exact ⟨mem_map.mpr ⟨root, hroot, by simpa using heq⟩, fun _ hmem => hmem⟩
    · obtain rfl := Except.ok.inj h
      refine ⟨by simp [HasRoot], fun root hmem => ?_⟩
      rw [HasRoot, map_append]
      exact mem_append_left _ hmem
  | dangerFullAccess =>
    obtain rfl := Except.ok.inj h
    exact ⟨by simp, trivial, fun _ _ => trivial⟩
  | readOnly => cases h

variable {agent : CallingAgent} {policy : SandboxPolicy} {session : ShellSession}
  {sessionId : SessionId}

/-- What runs with a reply runs under what was taken. -/
theorem bound_ran {cwd : String}
    (hq : query platform agent p = some q) (hran : ranUnder cells q reply = some (policy, cwd))
    (h : Bound ok cells p) : ok policy := by
  obtain ⟨args, rfl, -⟩ | ⟨_, _, _, _, sessionId, session, rfl, hlive, heq⟩ | ⟨_, _, _, rfl, -⟩ :=
    ranUnder_cases hq hran
  · exact h.read policy rfl
  · cases heq
    exact h.given sessionId session rfl hlive
  · exact h.read policy rfl

/-- A session keeps its policy. -/
theorem serve_live (h : serve platform cells q outside = some (cells', reply))
    (hopened : cells.sessions sessionId ≠ none) (hlive : cells'.live sessionId = some session) :
    ∃ before, cells.live sessionId = some before ∧
      before.sandboxPolicy = session.sandboxPolicy := by
  rcases serve_cases h with ⟨seedCwd, -, hget⟩ | ⟨moved, request, approval, -, hexec⟩ | hsettled
  · exact ⟨session, (frame_getOrCreate hget).live sessionId session hopened hlive, rfl⟩
  · obtain ⟨attempt, standing, -, -, ⟨-, before, hbefore, rfl⟩ | ⟨-, rfl⟩⟩ := exec_cases hexec
    · by_cases heq : sessionId = moved
      · subst heq
        obtain rfl := some.inj ((live_moved hbefore standing).symm.trans hlive)
        exact ⟨before, hbefore, rfl⟩
      · rw [live_setSession_of_ne _ _ heq] at hlive
        exact ⟨session, hlive, rfl⟩
    · exact ⟨session, hlive, rfl⟩
  · exact ⟨session, hsettled.frame.live sessionId session hopened hlive, rfl⟩

theorem Bound.serve (h : Bound ok cells p)
    (hopened : ∀ sessionId, p.session = some sessionId → cells.sessions sessionId ≠ none)
    (hserve : serve platform cells q outside = some (cells', reply)) : Bound ok cells' p where
  read := h.read
  given sessionId session hsession hlive := by
    obtain ⟨before, hbefore, hpolicy⟩ := serve_live hserve (hopened sessionId hsession) hlive
    rw [← hpolicy]
    exact h.given sessionId before hsession hbefore

theorem spawn_pending {state : Continuity}
    (h : spawnShellSession cells state outside = some (cells', reply)) :
    cells'.pendingSandboxPolicy = cells.pendingSandboxPolicy := by
  cases outside with
  | spawned sessionId standing =>
    rw [spawnShellSession] at h
    split at h
    · obtain ⟨rfl, -⟩ := mk.inj (some.inj h)
      rfl
    · cases h
  | failed error =>
    obtain ⟨rfl, -⟩ := mk.inj (some.inj h)
    rfl
  | _ => cases h

theorem getOrCreate_pending {seedCwd : String}
    (h : getOrCreateShellSession platform cells seedCwd outside = some (cells', reply)) :
    cells'.pendingSandboxPolicy = cells.pendingSandboxPolicy := by
  unfold getOrCreateShellSession at h
  dsimp only at h
  rw [← forgetGone_pending cells]
  split at h
  · exact spawn_pending h
  · next existing _ =>
    split at h
    · exact spawn_pending h
    · split at h
      · rw [spawn_pending h]
        exact terminate_pending _ existing
      · split at h
        · obtain ⟨rfl, -⟩ := mk.inj (some.inj h)
          rfl
        · cases h

/-- Only the question that writes a policy changes the one that is pending. -/
theorem serve_pending (h : serve platform cells q outside = some (cells', reply)) :
    cells'.pendingSandboxPolicy = cells.pendingSandboxPolicy ∨
      q = .writePolicy cells'.pendingSandboxPolicy := by
  have hexec : ∀ sessionId forked,
      execInSession cells sessionId forked outside = some (cells', reply) →
        cells'.pendingSandboxPolicy = cells.pendingSandboxPolicy := by
    intro sessionId forked h
    cases outside with
    | attempted attempt standing =>
      rw [execInSession] at h
      split at h
      · obtain ⟨rfl, -⟩ := mk.inj (some.inj h)
        split <;> rfl
      · split at h
        · cases h
        · obtain ⟨rfl, -⟩ := mk.inj (some.inj h)
          rfl
    | _ => cases h
  cases q with
  | writePolicy policy =>
    cases outside with
    | quiet =>
      obtain ⟨rfl, -⟩ := mk.inj (some.inj h)
      exact .inr rfl
    | _ => cases h
  | shellSession seedCwd => exact .inl (getOrCreate_pending h)
  | execInSession sessionId request approval => exact .inl (hexec sessionId false h)
  | forkEval sessionId request approval => exact .inl (hexec sessionId true h)
  | syncContinuity sessionId replayedCommand =>
    have h : syncContinuity platform cells sessionId replayedCommand outside =
      some (cells', reply) := h
    cases outside with
    | quiet =>
      obtain ⟨session, -, heq⟩ := map_eq_some_iff.mp h
      obtain ⟨rfl, -⟩ := mk.inj heq
      exact .inl rfl
    | failed error =>
      obtain ⟨rfl, -⟩ := mk.inj (some.inj h)
      exact .inl rfl
    | _ => cases h
  | dropSession sessionId onlyCurrent =>
    cases outside with
    | quiet =>
      obtain ⟨rfl, -⟩ := mk.inj (some.inj h)
      exact .inl (terminate_pending cells sessionId)
    | _ => cases h
  | readPolicy | readContinuity =>
    cases outside with
    | quiet =>
      obtain ⟨rfl, -⟩ := mk.inj (some.inj h)
      exact .inl rfl
    | _ => cases h
  | runIsolated request cwd env policy approval =>
    cases outside with
    | attempted attempt standing =>
      obtain ⟨rfl, -⟩ := mk.inj (some.inj h)
      exact .inl rfl
    | _ => cases h
  | toolsBinary | readBackgroundOutput | webSearch | htmlToText | requestApproval =>
    cases outside with
    | replied reply' =>
      obtain ⟨rfl, -⟩ := serve_replied h
      exact .inl rfl
    | _ => cases h

theorem policy_of_quiet (h : p.quiet = true) : p.policy = none := by
  cases p with
  | invoking | attempting | isolated => cases h
  | _ => rfl

theorem readPolicy_reply
    (h : serve platform cells .readPolicy outside = some (cells', .policy policy)) :
    policy = cells.pendingSandboxPolicy := by
  cases outside with
  | quiet =>
    obtain ⟨-, heq⟩ := mk.inj (some.inj h)
    exact (Reply.policy.inj heq).symm
  | _ => cases h

/-- A session that is given runs under the policy that is pending. -/
theorem getOrCreate_policy (hcurrent : Current cells) {seedCwd : String}
    (h : getOrCreateShellSession platform cells seedCwd outside =
      some (cells', .session (.ok sessionId))) :
    ∃ session, cells'.live sessionId = some session ∧
      session.sandboxPolicy = cells.pendingSandboxPolicy := by
  rcases getOrCreate_cases h with ⟨other, standing, -, heq, hopened⟩ |
    ⟨existing, session, -, heq, rfl, hid, hlive, hpolicy⟩ | ⟨error, -, heq, -⟩
  · obtain rfl := Except.ok.inj (Reply.session.inj heq)
    obtain ⟨initialCwd, hlive⟩ := hopened.live
    exact ⟨_, hlive, rfl⟩
  · obtain rfl := Except.ok.inj (Reply.session.inj heq)
    exact ⟨session, hlive, (hcurrent.effective sessionId session hid hlive).trans hpolicy⟩
  · cases Reply.session.inj heq

/-- What a call takes next it finds pending. -/
theorem bound_resume {name arguments : String} {p' : Phase} (hcurrent : Current cells)
    (hopened : ∀ sessionId, p.session = some sessionId → cells.sessions sessionId ≠ none)
    (hpending : ok cells.pendingSandboxPolicy) (h : Bound ok cells p)
    (hq : query platform agent p = some q)
    (hserve : serve platform cells q outside = some (cells', reply))
    (hresume : resume platform agent name arguments p reply = some p') : Bound ok cells' p' := by
  have hkept := h.serve hopened hserve
  rcases resume_cases hresume with ⟨hquiet, hsession⟩ | ⟨args, policy, rfl, rfl, rfl⟩ |
    ⟨request, approval, state, policy, rfl, rfl, rfl⟩ |
    ⟨way, request, approval, retried, sessionId, rfl, rfl, rfl⟩ |
    ⟨request, sessionId, rfl, rfl, rfl⟩
  · refine ⟨fun policy hpolicy => ?_, fun sessionId session hid hlive => ?_⟩
    · rw [policy_of_quiet hquiet] at hpolicy
      cases hpolicy
    · exact hkept.given sessionId session (hsession sessionId hid) hlive
  · obtain rfl := some.inj hq
    refine ⟨fun policy' hpolicy => ?_, fun _ _ hid => nomatch hid⟩
    obtain rfl := some.inj hpolicy
    rwa [readPolicy_reply hserve]
  · obtain rfl := some.inj hq
    refine ⟨fun policy' hpolicy => ?_, fun _ _ hid => nomatch hid⟩
    obtain rfl := some.inj hpolicy
    rwa [readPolicy_reply hserve]
  · obtain rfl := some.inj hq
    refine ⟨fun _ hpolicy => (nomatch hpolicy), fun other session hid hlive => ?_⟩
    obtain rfl := some.inj hid
    obtain ⟨given, hgiven, hpolicy⟩ := getOrCreate_policy hcurrent hserve
    obtain rfl := some.inj (hgiven.symm.trans hlive)
    rwa [hpolicy]
  · exact ⟨fun _ hpolicy => (nomatch hpolicy), fun other session hid hlive =>
      hkept.given other session hid hlive⟩

theorem terminate_live {sessionId other : SessionId} (hopened : cells.sessions other ≠ none)
    (hlive : (cells.terminate sessionId).live other = some session) :
    cells.live other = some session :=
  (frame_terminate cells sessionId).live other session hopened hlive

theorem Held.setPolicy (h : Held g) {granted : List String}
    (hpending : ∀ root ∈ granted, HasRoot root policy)
    (hbound : ∀ root ∈ granted, ∀ c, Bound (HasRoot root) g.state.cells (g.state.phase c)) :
    Held (⟨g.state.setPolicy policy, granted, g.ran⟩ : Grants κ) where
  invariant := ⟨⟨h.invariant.current.opened, h.invariant.current.effective⟩, h.invariant.opened⟩
  pending := hpending
  bound root hroot c := ⟨(hbound root hroot c).read, (hbound root hroot c).given⟩
  ran := h.ran

theorem Held.advance (h : Held g) (hkeeps : Keeps platform calls g (.act (.advance c outside)))
    (hadvance : advance platform calls g.state c outside = some t) :
    Held (⟨t, g.granted, g.ran ++ (t.executions.drop g.state.executions.length).map
      fun e => (e.sandboxPolicy, g.granted)⟩ : Grants κ) := by
  have hinvariant : Invariant t :=
    invariant_step h.invariant (a := .advance c outside) hadvance
  obtain ⟨q, cells, reply, phase, hq, hserve, hphase, rfl⟩ := advance_eq_some.mp hadvance
  have hopened := h.invariant.opened
  refine ⟨hinvariant, fun root hroot => ?_, fun root hroot d => ?_, fun r hr root hroot => ?_⟩
  · rcases serve_pending hserve with hsame | rfl
    · rw [hsame]
      exact h.pending root hroot
    · cases hp : g.state.phase c with
      | called =>
        rw [hp] at hq
        rw [← Query.writePolicy.inj (some.inj hq)]
        exact hkeeps hp root hroot
      | attempting way => cases way <;> rw [hp] at hq <;> cases hq
      | _ =>
        rw [hp] at hq
        cases hq
  · by_cases hdc : d = c
    · subst hdc
      dsimp only
      rw [update_self]
      exact bound_resume h.invariant.current (hopened d) (h.pending root hroot)
        (h.bound root hroot d) hq hserve hphase
    · dsimp only
      rw [update_of_ne hdc]
      exact (h.bound root hroot d).serve (hopened d) hserve
  · rcases mem_append.mp hr with hr | hr
    · exact h.ran r hr root hroot
    · rw [drop_left] at hr
      obtain ⟨e, he, rfl⟩ := mem_map.mp hr
      obtain ⟨⟨policy, cwd⟩, hran, rfl⟩ := map_eq_some_iff.mp (mem_toList.mp he)
      exact bound_ran hq hran (h.bound root hroot c)

theorem Held.step {a : GrantAction κ} (h : Held g) (hkeeps : Keeps platform calls g a)
    (hstep : grantStep platform calls g a = some g') : Held g' := by
  cases a with
  | addWritableRoot path =>
    rw [grantStep] at hstep
    split at hstep
    · next policy hadd =>
      obtain rfl := some.inj hstep
      obtain ⟨hwritable, hpath, hroots⟩ := addWritableRoot_has hadd
      refine h.setPolicy (fun root hroot => ?_) (fun root hroot c => ?_)
      · rcases mem_cons.mp hroot with rfl | hroot
        · exact hpath
        · exact hroots root (h.pending root hroot)
      · rcases mem_cons.mp hroot with rfl | hroot
        · exact hkeeps hwritable c
        · exact h.bound root hroot c
    · obtain rfl := some.inj hstep
      exact h
  | withdraw path =>
    obtain rfl := some.inj hstep
    have hmem : ∀ root, root ∈ g.granted.filter (· != path) → root ∈ g.granted :=
      fun root hroot => (mem_filter.mp hroot).1
    exact ⟨h.invariant, fun root hroot => h.pending root (hmem root hroot),
      fun root hroot => h.bound root (hmem root hroot), h.ran⟩
  | updateSafetyConfig safetyConfig effectiveCwd =>
    obtain rfl := some.inj hstep
    exact h.setPolicy hkeeps h.bound
  | act a =>
    obtain ⟨t, ht, rfl⟩ := map_eq_some_iff.mp hstep
    cases a with
    | advance c outside => exact h.advance hkeeps ht
    | expire sessionId =>
      have hinvariant := invariant_step h.invariant ht
      obtain rfl := some.inj ht
      refine ⟨hinvariant, fun root hroot => ?_, fun root hroot c => ?_, ?_⟩
      · rw [show (g.state.cells.terminate sessionId).pendingSandboxPolicy = _ from
          terminate_pending _ _]
        exact h.pending root hroot
      · exact ⟨(h.bound root hroot c).read, fun other session hid hlive =>
          (h.bound root hroot c).given other session hid
            (terminate_live (h.invariant.opened c other hid) hlive)⟩
      · simpa using h.ran

theorem Held.persists (h : Held g) : Persists platform g where
  ran := h.ran
  session seedCwd outside cells sessionId hget := by
    obtain ⟨session, hlive, hpolicy⟩ := getOrCreate_policy h.invariant.current hget
    have hpending := getOrCreate_pending hget
    exact ⟨hpending, session, hlive, hpolicy.trans hpending.symm⟩

omit [DecidableEq κ] in
theorem held_start (shellPath : String) (policy : SandboxPolicy) :
    Held (.start (.start (.init platform shellPath policy)) : Grants κ) where
  invariant := invariant_start shellPath policy
  pending := by simp [Grants.start]
  bound := by simp [Grants.start]
  ran := by simp [Grants.start]

/-- The roots that are added persist while every policy that is built anew has them; a session that
is given runs under the policy that is pending. -/
theorem roots_persist {shellPath : String} {policy : SandboxPolicy} {actions : List (GrantAction κ)}
    (h : Steps (grantStep platform calls) (Keeps platform calls)
      (.start (.start (.init platform shellPath policy))) actions g) :
    Throughout (grantStep platform calls) (Persists platform)
      (.start (.start (.init platform shellPath policy))) actions :=
  h.throughout (fun _ _ _ hkeeps hstep hheld => hheld.step hkeeps hstep)
    (fun _ hheld => hheld.persists) (held_start shellPath policy)

end Runs

def touchArguments : String := "\x7b\"command\": \"touch /data/a\"\x7d"

def touchPlatform : Platform where
  env := ⟨none, none, [], false⟩
  workspaceRoot := "/repo"
  shellKind := .posix
  parse text :=
    if text = touchArguments then .ok (.object [("command", .string "touch /data/a")])
    else .error "expected value at line 1 column 1"
  jsonText _ := "[]"

def touchCall (_ : Unit) : Call where
  agent := ⟨⟨.regular, false, true⟩, "/repo"⟩
  name := "exec_command"
  arguments := touchArguments

def touchStart : Grants Unit :=
  .start (.start (.init touchPlatform "/bin/bash" (ownPolicy touchPlatform (touchCall ()))))

/-- A root is added, and then a command runs. -/
def touchAfterAdd (path : String) : List (GrantAction Unit) :=
  [.addWritableRoot path, .act (.advance () .quiet),
    .act (.advance () (.spawned "s1" ⟨"/repo", []⟩)),
    .act (.advance () (.attempted (.ran someOutput) ⟨"/repo", []⟩))]

/-- The command runs under a policy that was built without the root. -/
theorem added_root_lost : ¬ ∀ actions g,
    run (grantStep touchPlatform touchCall) touchStart actions = some g →
      Persists touchPlatform g := by
  intro hall
  have hran := (hall (touchAfterAdd "/data") _ rfl).ran _ mem_cons_self "/data"
    mem_cons_self
  revert hran
  decide

/-- The directory of the agent is in every policy of its own. -/
theorem added_directory_persists :
    Throughout (grantStep touchPlatform touchCall) (Persists touchPlatform) touchStart
      (touchAfterAdd "/repo") := by
  refine roots_persist (.head ?_ rfl (.head ?_ rfl (.head ?_ rfl (.head ?_ rfl (.refl _)))))
  · intro _ c
    exact ⟨fun _ hpolicy => (nomatch hpolicy), fun _ _ hid => nomatch hid⟩
  · intro _ root hroot
    obtain rfl := mem_singleton.mp hroot
    decide
  · intro hcalled
    cases hcalled
  · intro hcalled
    cases hcalled

end ColossalCode.Dispatch
