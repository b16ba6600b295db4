import ColossalCode.A2A.Sharing

/-! When tasks that are executed side by side do not interfere. -/
namespace ColossalCode.A2A.Sharing
open Function Option Execution

open Protocol Transition

variable {host : Host} {id : String} {shared shared' : Shared} {e e' : Execution} {m : Move}
  {cell : Option ColossalCode.Agent.Conversation} {s t v : Handler} {a : HandlerAction}
  {actions : List HandlerAction}

/-- What a task reads of what is shared is its own: the conversation is the one there was before all
tasks, and the flag says what has been asked for this task. -/
def ReadsItsOwn (cell : Option ColossalCode.Agent.Conversation) (s : Handler) (a : HandlerAction) :
    Prop :=
  ∀ e, s.tasks a.id = some e → match a.move with
    | .take => s.shared.conversation = cell
    | .check => s.shared.cancelRequested = e.asked
    | _ => True

/-- What is shared, as the only task there is knows it. -/
structure Tuned (cell : Option ColossalCode.Agent.Conversation) (shared : Shared) (e : Execution) :
    Prop where
  quiet : e.generating.early = true → e.sent = [] ∧ e.read = []
  cell : e.generating.early = true → shared.conversation = cell
  flag : e.generating.running = true → shared.cancelRequested = e.asked

/-- Behind the start of a generation only the flag matters. -/
theorem Tuned.late (hearly : e.generating.early = false)
    (hflag : e.generating.running = true → shared.cancelRequested = e.asked) :
    Tuned cell shared e := by
  refine ⟨?_, ?_, hflag⟩ <;> intro h <;> rw [hearly] at h <;> cases h

variable {builder : ColossalCode.Agent.Conversation} {turn : ColossalCode.Agent.Turn}

theorem tuned_finishTurn (hflag : shared.cancelRequested = e.asked) :
    Tuned cell shared (e.finishTurn builder turn) := by
  refine Tuned.late ?_ fun _ => hflag
  unfold finishTurn
  dsimp only
  split <;> rfl

theorem tuned_readNext (h : e.readNext shared = some (shared', e')) (ht : Tuned cell shared e) :
    Tuned cell shared' e' := by
  obtain ⟨hsame, -, hcell, split, hflag, hasked⟩ := readNext_frame h
  refine ⟨fun hearly => ?_, fun hearly => hcell.trans (ht.cell (hsame ▸ hearly)),
    fun hrunning => ?_⟩
  · -- nothing has been sent yet, so there is nothing to read
    rw [hsame] at hearly
    obtain ⟨hsent, hread⟩ := ht.quiet hearly
    unfold readNext at h
    cases hgenerating : e.generating <;> simp [hgenerating, Generating.early] at hearly <;>
      simp [channel, hgenerating, hsent] at h
  · rw [hflag, hasked, ht.flag (hsame ▸ hrunning)]

/-- Each move of the only task keeps it in tune with what is shared. -/
theorem tuned_move (h : e.move host id shared m = some (shared', e')) (ht : Tuned cell shared e) :
    Tuned cell shared' e' := by
  cases m <;> simp only [move] at h
  case handle => cases h
  case cancel =>
    cases h
    exact ⟨ht.quiet, ht.cell, fun _ => (Bool.true_or _).symm⟩
  case reset =>
    split at h
    · rename_i hgenerating
      cases h
      obtain ⟨hsent, hread⟩ := ht.quiet (by rw [hgenerating]; rfl)
      exact ⟨fun _ => ⟨hsent, hread⟩, fun _ => ht.cell (by rw [hgenerating]; rfl),
        fun _ => by simp [asked, hread]⟩
    · cases h
  case take =>
    split at h
    · rename_i hgenerating
      cases h
      exact Tuned.late rfl fun _ => ht.flag (by rw [hgenerating]; rfl)
    · cases h
  case request refused =>
    split at h
    · rename_i builder hgenerating
      cases h
      have hflag := ht.flag (by rw [hgenerating]; rfl)
      cases refused with
      | none => exact Tuned.late rfl fun _ => hflag
      | some error => exact Tuned.late rfl fun _ => hflag
    · cases h
  case check =>
    split at h
    · rename_i builder turn check checks hgenerating
      cases h
      have hflag := ht.flag (by rw [hgenerating]; rfl)
      split
      · exact Tuned.late rfl fun _ => hflag
      · exact Tuned.late rfl fun _ => hflag
    · cases h
  case idle =>
    split at h
    · rename_i builder turn hgenerating
      cases h
      exact Tuned.late rfl fun _ => ht.flag (by rw [hgenerating]; rfl)
    · cases h
  case receive response first second =>
    split at h
    · rename_i builder turn hgenerating
      cases h
      have hflag := ht.flag (by rw [hgenerating]; rfl)
      split
      · exact Tuned.late rfl fun _ => hflag
      · exact tuned_finishTurn hflag
    · cases h
  case close =>
    split at h
    · rename_i builder turn hgenerating
      cases h
      exact tuned_finishTurn (ht.flag (by rw [hgenerating]; rfl))
    · cases h
  case call outcome =>
    split at h
    · rename_i builder text call calls hgenerating
      cases h
      have hflag := ht.flag (by rw [hgenerating]; rfl)
      refine Tuned.late ?_ fun _ => hflag
      unfold called
      dsimp only
      split <;> rfl
    · cases h
  case store =>
    split at h
    · cases h
      exact Tuned.late rfl fun hrunning => by cases hrunning
    · cases h
  case read =>
    split at h
    · cases h
    · exact tuned_readNext h ht
  case conclude =>
    split at h
    · rename_i result hgenerating houtcome
      split at h
      · cases h
        exact Tuned.late (by dsimp only; rw [hgenerating]; rfl) fun hrunning => by
          dsimp only at hrunning
          rw [hgenerating] at hrunning
          cases hrunning
      · cases h
    · cases h

theorem tuned_handle {step : SpecStep} {spec : SpecSheet} (hcell : shared.conversation = cell) :
    Tuned cell shared (handle host id step spec) := by
  unfold handle
  dsimp only
  split
  · exact Tuned.late rfl fun hrunning => by cases hrunning
  · exact ⟨fun _ => ⟨rfl, rfl⟩, fun _ => hcell, fun hrunning => by cases hrunning⟩

/-- The handler with the one task has come as far with it as the handler with all of them. -/
structure Follows (cell : Option ColossalCode.Agent.Conversation) (id : String) (s v : Handler) :
    Prop where
  same : v.tasks id = s.tasks id
  idle : v.tasks id = none → v.shared.conversation = cell
  tuned : ∀ e, v.tasks id = some e → Tuned cell v.shared e

theorem step_other (h : s.step host a = some t) (hid : a.id ≠ id) : t.tasks id = s.tasks id := by
  unfold Handler.step at h
  split at h
  · cases h
    exact update_of_ne (fun heq => hid heq.symm) ..
  · cases h
    rfl
  · cases h
  · obtain ⟨next, -, rfl⟩ := map_eq_some_iff.mp h
    exact update_of_ne (fun heq => hid heq.symm) ..

theorem step_own (hf : Follows cell id s v) (hid : a.id = id) (hown : ReadsItsOwn cell s a)
    (h : s.step host a = some t) : ∃ w, v.step host a = some w ∧ Follows cell id t w := by
  subst hid
  have hsame := hf.same
  unfold Handler.step at h ⊢
  split at h
  · -- the task begins
    rename_i step spec hnone hmove
    cases h
    rw [hnone] at hsame
    rw [hsame, hmove]
    refine ⟨_, rfl, ?_, ?_, ?_⟩
    · simp
    · intro hnot
      simp at hnot
    · intro e he
      obtain rfl : handle host a.id step spec = e := by simpa using he
      exact tuned_handle (hf.idle hsame)
  · -- a cancel comes before the task
    rename_i hnone hmove
    cases h
    rw [hnone] at hsame
    rw [hsame, hmove]
    refine ⟨_, rfl, hsame.trans hnone.symm, fun _ => hf.idle hsame, fun e he => ?_⟩
    cases hsame.symm.trans he
  · cases h
  · rename_i e hold
    obtain ⟨next, hnext, rfl⟩ := map_eq_some_iff.mp h
    rw [hold] at hsame
    have htuned := hf.tuned e hsame
    have hreads := hown e hold
    have hcell : a.move = .take → v.shared.conversation = s.shared.conversation := by
      intro htake
      rw [htake] at hreads hnext
      simp only [move] at hnext
      split at hnext
      · rename_i hgenerating
        exact (htuned.cell (by rw [hgenerating]; rfl)).trans hreads.symm
      · cases hnext
    have hflag : a.move = .check → v.shared.cancelRequested = s.shared.cancelRequested := by
      intro hcheck
      rw [hcheck] at hreads hnext
      simp only [move] at hnext
      split at hnext
      · rename_i hgenerating
        exact (htuned.flag (by rw [hgenerating]; rfl)).trans hreads.symm
      · cases hnext
    obtain ⟨other', hother⟩ := move_reads hnext hcell hflag
    rw [hsame]
    dsimp only
    rw [hother]
    refine ⟨_, rfl, ?_, ?_, ?_⟩
    · simp
    · intro hnot
      simp at hnot
    · intro e' he'
      obtain rfl : next.2 = e' := by simpa using he'
      exact tuned_move hother htuned

/-- A generation that a cancel has ended was asked to be cancelled since it began. -/
def CancelAsked (e : Execution) : Prop :=
  e.cancelled = true → e.asked = true ∧ e.generating ≠ .spawned

theorem finishTurn_begun
    : (e.finishTurn builder turn).generating ≠ .spawned := by
  unfold finishTurn
  dsimp only
  split <;> simp

theorem cancels_move (h : e.move host id shared m = some (shared', e'))
    (hown : m = .check → shared.cancelRequested = e.asked) (he : CancelAsked e) :
    CancelAsked e' := by
  cases m <;> simp only [move] at h
  case handle => cases h
  case cancel =>
    cases h
    exact fun hc => ⟨Bool.true_or _, (he hc).2⟩
  case reset =>
    split at h
    · rename_i hgenerating
      cases h
      exact fun hc => absurd hgenerating (he hc).2
    · cases h
  case check =>
    split at h
    · cases h
      split
      · rename_i hflag
        exact fun _ => ⟨(hown rfl).symm.trans hflag, by simp [cancel]⟩
      · exact fun hc => ⟨(he hc).1, by simp⟩
    · cases h
  case read =>
    split at h
    · cases h
    · obtain ⟨hsame, hcancelled, -, split, -, hasked⟩ := readNext_frame h
      intro hc
      obtain ⟨hbefore, hbegun⟩ := he (hcancelled ▸ hc)
      exact ⟨by rw [hasked, hbefore, Bool.true_or], hsame ▸ hbegun⟩
  case receive =>
    split at h
    · cases h
      split
      · exact fun hc => ⟨(he hc).1, by simp⟩
      · exact fun hc => ⟨(he hc).1, finishTurn_begun⟩
    · cases h
  case close =>
    split at h
    · cases h
      exact fun hc => ⟨(he hc).1, finishTurn_begun⟩
    · cases h
  case call =>
    split at h
    · cases h
      intro hc
      refine ⟨(he hc).1, ?_⟩
      unfold called
      dsimp only
      split <;> simp
    · cases h
  case request refused =>
    split at h
    · cases h
      exact fun hc => ⟨(he hc).1, by cases refused <;> simp⟩
    · cases h
  case conclude =>
    split at h
    · split at h
      · cases h
        exact he
      · cases h
    · cases h
  all_goals
    split at h
    · cases h
      exact fun hc => ⟨(he hc).1, by simp⟩
    · cases h

theorem cancels_step (hown : ReadsItsOwn cell s a) (h : s.step host a = some t)
    (hs : ∀ id e, s.tasks id = some e → CancelAsked e) :
    ∀ id e, t.tasks id = some e → CancelAsked e := by
  intro id e he
  by_cases hid : a.id = id
  · subst hid
    unfold Handler.step at h
    split at h
    · cases h
      simp only [update_self, some.injEq] at he
      subst he
      unfold handle
      dsimp only
      split <;> intro hc <;> cases hc
    · rename_i hnone hmove
      cases h
      cases hnone.symm.trans he
    · cases h
    · rename_i e₀ hold
      obtain ⟨next, hnext, rfl⟩ := map_eq_some_iff.mp h
      simp only [update_self, some.injEq] at he
      subst he
      refine cancels_move hnext (fun hcheck => ?_) (hs a.id e₀ hold)
      have hreads := hown e₀ hold
      rwa [hcheck] at hreads
  · rw [step_other h hid] at he
    exact hs id e he

/-- Tasks that read nothing of each other's do not interfere. -/
theorem tasks_separate (shared : Shared)
    (h : Steps (Handler.step host) (ReadsItsOwn shared.conversation) (.start shared) actions t) :
    Separate host (.start shared) actions t := by
  constructor
  · intro id
    have hstart : Follows shared.conversation id (.start shared) (.start shared) :=
      ⟨rfl, fun _ => rfl, fun e he => by cases he⟩
    have hothers (s : Handler) (a : HandlerAction) (t v : Handler)
        (hhidden : (!decide (a.id = id)) = true) (hs : Handler.step host s a = some t)
        (hf : Follows shared.conversation id s v) : Follows shared.conversation id t v := by
      have hid : a.id ≠ id := by simpa using hhidden
      exact ⟨hf.same.trans (step_other hs hid).symm, hf.idle, hf.tuned⟩
    obtain ⟨v, hv, hfollows⟩ := h.without_hidden hothers
      (fun s a t v hshown hown hs hf => step_own hf (by simpa using hshown) hown hs) hstart
    refine ⟨v, ?_, hfollows.same⟩
    simpa using hv
  · intro id e he hc
    exact (h.invariant (fun s a t hown hs => cancels_step hown hs) (fun id e he => by cases he)
      id e he hc).1

def plainHost : Host where
  runtime := jsonless
  agent := ⟨[], .ok (), fun _ => none, fun _ => .error "", fun _ => .ok .null,
    fun task step _ => ⟨task.id, step.index, "", [], [], ⟨.pending, []⟩, none⟩,
    fun task => ⟨task.id, "", "", [], [], ⟨.pending, []⟩, none⟩⟩
  systemPrompt := "system"
  tags := ⟨"<think>".toList, "</think>".toList⟩
  failureYaml := fun error _ => error

/-- Both tasks make the same moves, the first one always first. -/
def sideBySide (moves : List Move) : List HandlerAction :=
  moves.flatMap fun move => [⟨"a", move⟩, ⟨"b", move⟩]

def silentMoves : List Move :=
  [.handle default default, .reset, .take, .request none, .check, .receive (.done []) 0 0, .store,
    .read, .conclude]

def readsItsOwnTest (s : Handler) (a : HandlerAction) : Bool :=
  (s.tasks a.id).all fun e => match a.move with
    | .take => s.shared.conversation.isNone
    | .check => s.shared.cancelRequested == e.asked
    | _ => true

theorem readsItsOwn_of_test (h : readsItsOwnTest s a = true) : ReadsItsOwn none s a := by
  intro e he
  simp only [readsItsOwnTest, he, all_some] at h
  split
  · rename_i hmove
    simpa [hmove] using h
  · rename_i hmove
    simpa [hmove] using h
  · trivial

theorem silent_tasks_separate : ∃ t, Separate plainHost (.start ⟨none, true⟩)
    (sideBySide silentMoves) t ∧ ((t.tasks "a").bind (·.outcome)).isSome = true := by
  have hcheck : check (Handler.step plainHost) readsItsOwnTest (.start ⟨none, true⟩)
      (sideBySide silentMoves) = some _ := rfl
  exact ⟨_, tasks_separate ⟨none, true⟩ (steps_of_check hcheck fun _ _ =>
    readsItsOwn_of_test), rfl⟩

/-- The model has one task split, and the other one is answered with a piece of text. -/
def splitCall : ColossalCode.Agent.ToolCallResponse := ⟨0, "call", ⟨"request_split", "reason"⟩⟩

def splitWhileAnswered : List HandlerAction :=
  sideBySide [.handle default default, .reset, .take, .request none, .check] ++
    [⟨"b", .receive (.chunk [⟨none, 0, ⟨some "text".toList, "assistant", none⟩⟩]) 0 0⟩,
      ⟨"a", .receive (.done [⟨"tool_calls", ⟨none, "assistant", some [splitCall]⟩⟩]) 0 0⟩,
      ⟨"a", .call (.ok "split")⟩, ⟨"a", .read⟩, ⟨"a", .read⟩, ⟨"b", .check⟩]

theorem split_cancels_another : ¬ ∀ t,
    run (Handler.step plainHost) (.start ⟨none, false⟩) splitWhileAnswered = some t →
    Separate plainHost (.start ⟨none, false⟩) splitWhileAnswered t := by
  intro hall
  have hseparate := hall _ rfl
  have hasked := hseparate.cancels "b" _ rfl rfl
  cases hasked

end ColossalCode.A2A.Sharing
