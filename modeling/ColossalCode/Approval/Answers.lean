import ColossalCode.Approval.Slot

/-! Where calls ask one after the other, an answer goes to the call it was given to. -/
namespace ColossalCode.Approval
open Function List Option Approval

open Sessionizer Transition

variable {κ : Type} [DecidableEq κ] {calls : κ → CommandCall} {displays : Nat → Bool}
  {s t : State κ} {c d : κ}

/-- The phases of a call that asks and has been let through. -/
def Phase.admitted : Phase → Bool
  | .attempting .never => true
  | .ended .ran => true
  | _ => false

structure Invariant (calls : κ → CommandCall) (s : State κ) : Prop where
  admitted : ∀ c, (calls c).askPermission = true → (s.phase c).admitted = true →
    s.channel c = some true
  unasked : ∀ c, s.phase c = .attempting .onRequest →
    s.channel c = none ∧ c ∉ s.messages ∧ c ∉ s.displayed
  released : ∀ c approved, s.channel c = some approved → (c, approved) ∈ s.answered
  waits : ∀ c, Pending s c → s.pendingApproval = some c
  slot : ∀ c, s.pendingApproval = some c → s.channel c = none
  responses : ∀ c approved, (c, approved) ∈ s.responses → (c, approved) ∈ s.answered
  next : ∀ c approved rest, s.responses = (c, approved) :: rest → ∀ d, Pending s d → d = c
  onWay : ∀ c approved, Pending s c → (c, approved) ∈ s.answered → (c, approved) ∈ s.responses
  answered : ∀ c approved, (c, approved) ∈ s.answered → c ∈ s.displayed
  prompt : ∀ c, s.approvalPrompt = some c → c ∈ s.displayed

omit [DecidableEq κ] in
theorem Invariant.faithful (h : Invariant calls s) : Faithful calls s where
  ran c hasks hran := by
    have happroved := h.released c true (h.admitted c hasks (by rw [hran]; rfl))
    exact ⟨h.answered c true happroved, happroved⟩
  released := h.released
  waits := h.waits

omit [DecidableEq κ] in
theorem invariant_init : Invariant calls (init calls) where
  admitted c hasks hphase := by
    simp [init, CommandCall.safetyMode, hasks, Phase.admitted] at hphase
  unasked c _ := ⟨rfl, not_mem_nil, not_mem_nil⟩
  released c approved h := by cases h
  waits c h := by
    obtain ⟨hlistens, -⟩ := h
    simp [init, Phase.listens] at hlistens
  slot c h := by cases h
  responses c approved h := absurd h not_mem_nil
  next c approved rest h := by cases h
  onWay c approved _ h := absurd h not_mem_nil
  answered c approved h := absurd h not_mem_nil
  prompt c h := by cases h

omit [DecidableEq κ] in
theorem pending_congr (hphase : t.phase d = s.phase d) (hchannel : t.channel d = s.channel d) :
    Pending t d ↔ Pending s d := by
  rw [Pending, Pending, hphase, hchannel]

variable {phase : Phase} {a : Action κ}

theorem pending_setPhase (h : phase.listens = false) :
    Pending (s.setPhase c phase) d ↔ d ≠ c ∧ Pending s d := by
  by_cases hd : d = c
  · subst hd
    simp [Pending, h]
  · exact (pending_congr (s.setPhase_of_ne phase hd) rfl).trans (and_iff_right hd).symm

/-- The call leaves off waiting, or never did. -/
theorem Invariant.setPhase (h : Invariant calls s) (hlistens : phase.listens = false)
    (hphase : phase ≠ .attempting .onRequest)
    (hadmitted : (calls c).askPermission = true → phase.admitted = true →
      s.channel c = some true) : Invariant calls (s.setPhase c phase) where
  admitted d hasks hd := by
    by_cases hdc : d = c
    · subst hdc
      rw [State.setPhase_self] at hd
      exact hadmitted hasks hd
    · rw [State.setPhase_of_ne _ _ hdc] at hd
      exact h.admitted d hasks hd
  unasked d hd := by
    by_cases hdc : d = c
    · subst hdc
      rw [State.setPhase_self] at hd
      exact absurd hd hphase
    · rw [State.setPhase_of_ne _ _ hdc] at hd
      exact h.unasked d hd
  released := h.released
  waits d hd := h.waits d ((pending_setPhase hlistens).mp hd).2
  slot := h.slot
  responses := h.responses
  next d approved rest hresponses e he :=
    h.next d approved rest hresponses e ((pending_setPhase hlistens).mp he).2
  onWay d approved hd := h.onWay d approved ((pending_setPhase hlistens).mp hd).2
  answered := h.answered
  prompt := h.prompt

variable {approval : AskForApproval} {call : CommandCall} {approved : Bool} {rest : List (κ × Bool)}

/-- A command that needs approval is one that asks. -/
theorem admit_asks {code : Int}
    (h : call.clearance approval = .error (.denied code "User approval required")) :
    approval = .onRequest ∧ call.commandParts ≠ [] := by
  unfold CommandCall.clearance assessCommandSafety at h
  split at h
  · simp [SafetyCheck.clearance] at h
  · rename_i hcommand
    refine ⟨?_, by simpa using hcommand⟩
    cases approval with
    | onRequest => rfl
    | never => cases h

theorem admit_ok {sandboxType : SandboxType}
    (h : call.clearance approval = .ok sandboxType) : approval = .never := by
  unfold CommandCall.clearance assessCommandSafety at h
  split at h
  · cases h
  · cases approval with
    | onRequest => cases h
    | never => rfl

/-- The only call that waits is the one in the slot, and no answer is on its way. -/
theorem Invariant.store (h : Invariant calls s) (hphase : s.phase c = .attempting .onRequest)
    (hpending : ∀ d, ¬ Pending s d) (hresponses : s.responses = []) :
    Invariant calls { s.setPhase c .stored with pendingApproval := some c } := by
  obtain ⟨hchannel, hmessages, hdisplayed⟩ := h.unasked c hphase
  have hself : ∀ d, Pending { s.setPhase c .stored with pendingApproval := some c } d → d = c := by
    intro d hd
    by_contra hdc
    have hphase' : (s.setPhase c .stored).phase d = s.phase d := s.setPhase_of_ne _ hdc
    exact hpending d ((pending_congr hphase' rfl).mp hd)
  refine ⟨fun d hasks hd => ?_, fun d hd => ?_, h.released, fun d hd => ?_, fun d hd => ?_,
    h.responses, fun d approved rest heq => ?_, fun d approved hd hmem => ?_, h.answered, h.prompt⟩
  · by_cases hdc : d = c
    · subst hdc
      simp [Phase.admitted] at hd
    · rw [State.setPhase_of_ne _ _ hdc] at hd
      exact h.admitted d hasks hd
  · by_cases hdc : d = c
    · subst hdc
      simp at hd
    · rw [State.setPhase_of_ne _ _ hdc] at hd
      exact h.unasked d hd
  · rw [hself d hd]
  · obtain rfl := some.inj hd
    exact hchannel
  · have heq : s.responses = (d, approved) :: rest := heq
    rw [hresponses] at heq
    cases heq
  · obtain rfl := hself d hd
    exact absurd (h.answered d approved hmem) hdisplayed

theorem Invariant.attempt (h : Invariant calls s) (hphase : s.phase c = .attempting approval)
    (hok : Orderly calls s (.attempt c)) : Invariant calls (attempt calls s c approval) := by
  unfold Approval.attempt
  split
  · rename_i sandboxType hclearance
    obtain rfl := admit_ok hclearance
    refine h.setPhase rfl (by simp) fun hasks _ => ?_
    exact h.admitted c hasks (by rw [hphase]; rfl)
  · rename_i code reason hclearance
    split
    · rename_i hreason
      subst hreason
      obtain ⟨rfl, hparts⟩ := admit_asks hclearance
      obtain ⟨hpending, hresponses⟩ := hok hphase hparts
      exact h.store hphase hpending hresponses
    · exact h.setPhase rfl (by simp) fun _ hadmitted => by cases hadmitted
  · exact h.setPhase rfl (by simp) fun _ hadmitted => by cases hadmitted
  · exact h.setPhase rfl (by simp) fun _ hadmitted => by cases hadmitted

theorem Invariant.receive (h : Invariant calls s) (ht : receive s c = some t) :
    Invariant calls t := by
  unfold Approval.receive at ht
  split at ht
  · rename_i hchannel
    obtain rfl := some.inj ht
    exact h.setPhase rfl (by simp) fun _ _ => hchannel
  · obtain rfl := some.inj ht
    exact h.setPhase rfl (by simp) fun _ hadmitted => by cases hadmitted
  · split at ht
    · cases ht
    · obtain rfl := some.inj ht
      exact h.setPhase rfl (by simp) fun _ hadmitted => by cases hadmitted

/-- The request is sent; the call listens as before. -/
theorem Invariant.request (h : Invariant calls s) (hphase : s.phase c = .stored) :
    Invariant calls { s.setPhase c .waiting with messages := s.messages ++ [c] } := by
  have hpending : ∀ d, Pending { s.setPhase c .waiting with messages := s.messages ++ [c] } d ↔
      Pending s d := by
    intro d
    by_cases hdc : d = c
    · subst hdc
      simp [Pending, State.setPhase, hphase, Phase.listens]
    · have hphase' : (s.setPhase c .waiting).phase d = s.phase d := s.setPhase_of_ne _ hdc
      exact pending_congr hphase' rfl
  refine ⟨fun d hasks hd => ?_, fun d hd => ?_, h.released,
    fun d hd => h.waits d ((hpending d).mp hd),
    h.slot, h.responses, fun d approved rest heq e he => ?_,
    fun d approved hd => h.onWay d approved ((hpending d).mp hd), h.answered, h.prompt⟩
  · by_cases hdc : d = c
    · subst hdc
      simp [Phase.admitted] at hd
    · rw [State.setPhase_of_ne _ _ hdc] at hd
      exact h.admitted d hasks hd
  · by_cases hdc : d = c
    · subst hdc
      simp at hd
    · rw [State.setPhase_of_ne _ _ hdc] at hd
      obtain ⟨hchannel, hmessages, hdisplayed⟩ := h.unasked d hd
      exact ⟨hchannel, by simp [hmessages, hdc], hdisplayed⟩
  · exact h.next d approved rest heq e ((hpending e).mp he)

theorem Invariant.display (h : Invariant calls s) (ht : display calls displays s c = some t) :
    Invariant calls t := by
  unfold Approval.display at ht
  split at ht
  · rename_i hfirst
    have hmem : c ∈ s.messages := mem_of_find?_eq_some hfirst
    dsimp only at ht
    split at ht
    · obtain rfl := some.inj ht
      refine ⟨h.admitted, fun d hd => ?_, h.released, h.waits, h.slot, h.responses, h.next, h.onWay,
        ?_, ?_⟩
      · obtain ⟨hchannel, hmessages, hdisplayed⟩ := h.unasked d hd
        refine ⟨hchannel, fun hd => hmessages (mem_of_mem_erase hd), fun hd => ?_⟩
        rcases mem_append.mp hd with hd | hd
        · exact hdisplayed hd
        · exact hmessages (mem_singleton.mp hd ▸ hmem)
      · exact fun d approved hmem => mem_append_left _ (h.answered d approved hmem)
      · intro d hd
        obtain rfl := some.inj hd
        exact mem_append_right _ mem_cons_self
    · obtain rfl := some.inj ht
      refine ⟨h.admitted, fun d hd => ?_, h.released, h.waits, h.slot, h.responses, h.next, h.onWay,
        h.answered, h.prompt⟩
      obtain ⟨hchannel, hmessages, hdisplayed⟩ := h.unasked d hd
      exact ⟨hchannel, fun hd => hmessages (mem_of_mem_erase hd), hdisplayed⟩
  · cases ht

omit [DecidableEq κ] in
/-- A first answer is for the only call that may wait. -/
theorem Invariant.answer (h : Invariant calls s) (hprompt : s.approvalPrompt = some c)
    (hfirst : s.responses = [] → ∀ d, Pending s d → s.approvalPrompt = some d) (approved : Bool) :
    Invariant calls { s with
      approvalPrompt := none
      responses := s.responses ++ [(c, approved)]
      answered := s.answered ++ [(c, approved)] } := by
  refine ⟨h.admitted, h.unasked, ?_, h.waits, h.slot, ?_, ?_, ?_, ?_, fun d hd => by cases hd⟩
  · exact fun d b hchannel => mem_append_left _ (h.released d b hchannel)
  · intro d b hmem
    rcases mem_append.mp hmem with hmem | hmem
    · exact mem_append_left _ (h.responses d b hmem)
    · exact mem_append_right _ hmem
  · intro d b rest heq e he
    have heq : s.responses ++ [(c, approved)] = (d, b) :: rest := heq
    cases hresponses : s.responses with
    | nil =>
      rw [hresponses] at heq
      obtain ⟨rfl, -⟩ := Prod.mk.inj (List.cons.inj heq).1
      exact some.inj ((hfirst hresponses e he).symm.trans hprompt)
    | cons first others =>
      rw [hresponses] at heq
      obtain rfl := (List.cons.inj heq).1
      exact h.next d b others hresponses e he
  · intro d b hd hmem
    rcases mem_append.mp hmem with hmem | hmem
    · exact mem_append_left _ (h.onWay d b hd hmem)
    · exact mem_append_right _ hmem
  · intro d b hmem
    rcases mem_append.mp hmem with hmem | hmem
    · exact h.answered d b hmem
    · obtain ⟨rfl, -⟩ := Prod.mk.inj (mem_singleton.mp hmem)
      exact h.prompt d hprompt

theorem handle_cases (s : State κ) (approved : Bool) :
    (s.pendingApproval = none ∧ handleApprovalResponse s approved = s) ∨
    ∃ c, s.pendingApproval = some c ∧
      (((s.phase c).listens = true ∧ handleApprovalResponse s approved =
          { s with
            pendingApproval := none
            channel := update s.channel c (some approved) }) ∨
        ((s.phase c).listens = false ∧ handleApprovalResponse s approved =
          { s with pendingApproval := none })) := by
  unfold handleApprovalResponse
  cases hslot : s.pendingApproval with
  | none => exact .inl ⟨rfl, rfl⟩
  | some c =>
    refine .inr ⟨c, rfl, ?_⟩
    cases hlistens : (s.phase c).listens with
    | true => exact .inl ⟨rfl, if_pos hlistens⟩
    | false => exact .inr ⟨rfl, if_neg (by simp [hlistens])⟩

/-- Once an answer has arrived no call waits. -/
theorem respond_pending (h : Invariant calls s) :
    ¬ Pending { handleApprovalResponse s approved with responses := rest } d := by
  intro hd
  rcases handle_cases s approved with ⟨hslot, heq⟩ | ⟨c, hslot, ⟨hlistens, heq⟩ | ⟨hlistens, heq⟩⟩
  · rw [heq] at hd
    exact absurd (h.waits d hd) (by simp [hslot])
  · rw [heq] at hd
    by_cases hdc : d = c
    · subst hdc
      have hnone : update s.channel d (some approved) d = none := hd.2
      rw [update_self] at hnone
      cases hnone
    · have hsame : update s.channel c (some approved) d = s.channel d :=
        update_of_ne hdc _ _
      have hpending : Pending s d := ⟨hd.1, hsame.symm.trans hd.2⟩
      exact hdc (some.inj ((h.waits d hpending).symm.trans hslot))
  · rw [heq] at hd
    have hpending : Pending s d := hd
    obtain rfl := some.inj (hslot.symm.trans (h.waits d hpending))
    exact absurd hpending.1 (by simp [hlistens])

/-- The call in the slot, if it still listens, is the one the answer was given to. -/
theorem Invariant.respond (h : Invariant calls s)
    (hresponses : s.responses = (c, approved) :: rest) :
    Invariant calls { handleApprovalResponse s approved with responses := rest } := by
  have hnone : ∀ d, ¬ Pending { handleApprovalResponse s approved with responses := rest } d :=
    fun d => respond_pending h
  have hrest : ∀ d b, (d, b) ∈ rest → (d, b) ∈ s.answered :=
    fun d b hmem => h.responses d b (hresponses ▸ mem_cons_of_mem _ hmem)
  rcases handle_cases s approved with ⟨hslot, heq⟩ | ⟨e, hslot, ⟨hlistens, heq⟩ | ⟨hlistens, heq⟩⟩
  · rw [heq] at hnone ⊢
    exact ⟨h.admitted, h.unasked, h.released, fun d hd => absurd hd (hnone d), h.slot, hrest,
      fun _ _ _ _ d hd => absurd hd (hnone d), fun d _ hd => absurd hd (hnone d), h.answered,
      h.prompt⟩
  · rw [heq] at hnone ⊢
    obtain rfl := h.next c approved rest hresponses e ⟨hlistens, h.slot e hslot⟩
    have hchannel : ∀ d, d ≠ e →
        update s.channel e (some approved) d = s.channel d := fun d hd =>
      update_of_ne hd _ _
    refine ⟨fun d hasks hd => ?_, fun d hd => ?_, fun d b hd => ?_, fun d hd => absurd hd (hnone d),
      fun d hd => (by cases hd), hrest, fun _ _ _ _ d hd => absurd hd (hnone d),
      fun d _ hd => absurd hd (hnone d), h.answered, h.prompt⟩
    · by_cases hde : d = e
      · subst hde
        have hd : (s.phase d).admitted = true := hd
        cases hphase : s.phase d with
        | stored => rw [hphase] at hd; cases hd
        | waiting => rw [hphase] at hd; cases hd
        | attempting approval => rw [hphase] at hlistens; cases hlistens
        | ended outcome => rw [hphase] at hlistens; cases hlistens
      · exact (hchannel d hde).trans (h.admitted d hasks hd)
    · by_cases hde : d = e
      · subst hde
        have hd : s.phase d = .attempting .onRequest := hd
        rw [hd] at hlistens
        cases hlistens
      · obtain ⟨hnone', hmessages, hdisplayed⟩ := h.unasked d hd
        exact ⟨(hchannel d hde).trans hnone', hmessages, hdisplayed⟩
    · by_cases hde : d = e
      · subst hde
        have hsome : update s.channel d (some approved) d = some b := hd
        rw [update_self] at hsome
        obtain rfl := some.inj hsome
        exact h.responses d approved (hresponses ▸ mem_cons_self)
      · exact h.released d b ((hchannel d hde).symm.trans hd)
  · rw [heq] at hnone ⊢
    exact ⟨h.admitted, h.unasked, h.released, fun d hd => absurd hd (hnone d),
      fun d hd => (by cases hd), hrest, fun _ _ _ _ d hd => absurd hd (hnone d),
      fun d _ hd => absurd hd (hnone d), h.answered, h.prompt⟩

theorem Invariant.step (h : Invariant calls s) (hok : Orderly calls s a)
    (ht : step calls displays s a = some t) : Invariant calls t := by
  cases a with
  | attempt c =>
    unfold step at ht
    dsimp only at ht
    split at ht
    · rename_i approval hphase
      obtain rfl := some.inj ht
      exact h.attempt hphase hok
    · cases ht
  | request c =>
    unfold step at ht
    dsimp only at ht
    split at ht
    · rename_i hphase
      obtain rfl := some.inj ht
      exact h.request hphase
    · cases ht
  | receive c =>
    unfold step at ht
    dsimp only at ht
    split at ht
    · exact h.receive ht
    · cases ht
  | drop c =>
    unfold step at ht
    dsimp only at ht
    split at ht
    · cases ht
    · obtain rfl := some.inj ht
      exact h.setPhase rfl (by simp) fun _ hadmitted => by cases hadmitted
  | display c => exact h.display ht
  | hide =>
    obtain rfl := some.inj ht
    exact ⟨h.admitted, h.unasked, h.released, h.waits, h.slot, h.responses, h.next, h.onWay,
      h.answered, fun _ hprompt => by cases hprompt⟩
  | answer approved =>
    unfold step at ht
    dsimp only at ht
    split at ht
    · rename_i c hprompt
      obtain rfl := some.inj ht
      exact h.answer hprompt hok approved
    · cases ht
  | respond =>
    unfold step at ht
    dsimp only at ht
    split at ht
    · rename_i c approved rest hresponses
      obtain rfl := some.inj ht
      exact h.respond hresponses
    · cases ht

theorem Invariant.sound (h : Invariant calls s) : Sound calls displays s :=
  ⟨h.faithful, fun _ ht => (h.step (a := .respond) trivial ht).faithful⟩

theorem admit_onRequest (h : call.commandParts ≠ []) :
    call.clearance .onRequest = .error (.denied (-1) "User approval required") := by
  unfold CommandCall.clearance assessCommandSafety
  rw [if_neg (by simpa using h)]
  rfl

theorem attempt_stores (h : (calls c).commandParts ≠ []) (s : State κ) :
    attempt calls s c .onRequest = { s.setPhase c .stored with pendingApproval := some c } := by
  unfold attempt
  rw [admit_onRequest h]
  rfl

/-- The next answer goes to the call in the slot. -/
theorem respond_released (hsound : Sound calls displays s)
    (hresponses : s.responses = (c, approved) :: rest)
    (hslot : s.pendingApproval = some d) (hlistens : (s.phase d).listens = true) :
    (d, approved) ∈ s.answered := by
  have hstep : step calls displays s .respond =
      some { handleApprovalResponse s approved with responses := rest } := by
    unfold step
    rw [hresponses]
  have hreleased := (hsound.2 _ hstep).released d approved
  rcases handle_cases s approved with ⟨hnone, -⟩ | ⟨e, he, ⟨-, heq⟩ | ⟨hdeaf, -⟩⟩
  · rw [hslot] at hnone
    cases hnone
  · obtain rfl := some.inj (hslot.symm.trans he)
    rw [heq] at hreleased
    exact hreleased (update_self _ _ _)
  · obtain rfl := some.inj (hslot.symm.trans he)
    exact absurd hlistens (by simp [hdeaf])

theorem orderly_attempt (h : Invariant calls s) (hphase : s.phase c = .attempting .onRequest)
    (hparts : (calls c).commandParts ≠ [])
    (hsound : Sound calls displays (attempt calls s c .onRequest)) :
    (∀ d, ¬ Pending s d) ∧ s.responses = [] := by
  obtain ⟨hchannel, -, hdisplayed⟩ := h.unasked c hphase
  rw [attempt_stores hparts] at hsound
  constructor
  · intro d hd
    have hdc : d ≠ c := by
      rintro rfl
      have hlistens := hd.1
      rw [hphase] at hlistens
      cases hlistens
    have hphase' : (s.setPhase c .stored).phase d = s.phase d := s.setPhase_of_ne _ hdc
    have hwaits := hsound.1.waits d ((pending_congr hphase' rfl).mpr hd)
    exact hdc (some.inj hwaits).symm
  · cases hresponses : s.responses with
    | nil => rfl
    | cons first rest =>
      obtain ⟨e, approved⟩ := first
      have hlistens : ((s.setPhase c .stored).phase c).listens = true := by
        rw [State.setPhase_self]
        rfl
      have hanswered := respond_released hsound hresponses rfl hlistens
      exact absurd (h.answered c approved hanswered) hdisplayed

theorem orderly_of_sound (h : Invariant calls s)
    (ht : step calls displays s a = some t) (hsound : Sound calls displays t) :
    Orderly calls s a := by
  cases a with
  | attempt c =>
    intro hphase hparts
    unfold step at ht
    dsimp only at ht
    rw [hphase] at ht
    obtain rfl := some.inj ht
    exact orderly_attempt h hphase hparts hsound
  | answer approved =>
    intro hresponses d hd
    unfold step at ht
    dsimp only at ht
    split at ht
    · rename_i c hprompt
      obtain rfl := some.inj ht
      have hslot := h.waits d hd
      have hfirst : s.responses ++ [(c, approved)] = [(c, approved)] := by rw [hresponses]; rfl
      have hanswered : (d, approved) ∈ s.answered ++ [(c, approved)] :=
        respond_released hsound hfirst hslot hd.1
      rcases mem_append.mp hanswered with hmem | hmem
      · have honWay := h.onWay d approved hd hmem
        rw [hresponses] at honWay
        exact absurd honWay not_mem_nil
      · obtain ⟨rfl, -⟩ := Prod.mk.inj (mem_singleton.mp hmem)
        exact hprompt
    · cases ht
  | _ => trivial

theorem orderly_run {actions : List (Action κ)} (h : Invariant calls s)
    (hrun : run (step calls displays) s actions = some t)
    (hsound : Throughout (step calls displays) (Sound calls displays) s actions) :
    Steps (step calls displays) (Orderly calls) s actions t := by
  induction actions generalizing s with
  | nil =>
    obtain rfl : s = t := by simpa using hrun
    exact .refl s
  | cons a actions ih =>
    obtain ⟨u, hu, hrest⟩ := run_cons_eq_some.mp hrun
    have htail := ((throughout_cons hu).mp hsound).2
    have hok := orderly_of_sound h hu (htail [] u nil_prefix rfl)
    exact .head hok hu (ih (h.step hok hu) hrest htail)

/-- Two calls of agents that ask: the main agent, and a sub-agent whose requests are displayed to no
one. -/
def twoCalls (sub : Bool) : CommandCall :=
  if sub then ⟨1, "rm -rf build", ["rm", "-rf", "build"], false, true, .readOnly, true⟩
  else ⟨0, "ls", ["ls"], false, true, .readOnly, true⟩

def mainOnly (agent : Nat) : Bool := agent == 0

/-- The main agent asks, is approved and runs; then the sub-agent asks. -/
def oneByOne : List (Action Bool) :=
  [.attempt false, .request false, .display false, .answer true, .respond, .receive false,
    .attempt false, .attempt true]

end ColossalCode.Approval
