import ColossalCode.Output.Consumers

/-! When the four loops collect the whole output of a command. -/
namespace ColossalCode.Output
open Option

open Broadcast Text Transition

variable {β γ : Type} {c : Consumer β} {s t : Execution β} {a : Action} {as : List Action}
  {r : Subscription (List UInt8)} {late : Bool} {taken : List (List UInt8)}
  {J : List (List UInt8) → β → Prop} {legible : List (List UInt8) → Prop}
  {shown : β → List γ} {whole : List UInt8 → List γ} {more : List Char}

/-- Nothing more will be collected: the loop has ended, or finds the channel without anything. -/
def Execution.Settled (s : Execution β) : Prop :=
  s.point = .finished ∨ ∃ r, s.receiver = some r ∧ r.Idle

/-- The whole output has been collected once all of it has been read and the loop has seen it. -/
def Complete (shown : β → List γ) (whole : List UInt8 → List γ) (s : Execution β) : Prop :=
  s.ended = true → s.Settled → shown s.got = whole s.sent.flatten

/-- The loop ends at this step whatever it has yet to receive: at a deadline that has passed, or
without an exit code. -/
def Consumer.Leaves (c : Consumer β) (s : Execution β) (late : Bool) : Prop :=
  (s.point = .deadline ∧ c.expires = true ∧ late = true) ∨
    (s.point = .grace ∧ late = true) ∨
    (s.point = .exit ∧ s.exit = some none ∧ c.unexpected = .finished)

/-- What is read finds the loop subscribed, at work and less than the channel behind; all that was
read can be told from its chunks; and the loop is not left with chunks to receive. -/
def Consumer.Keeps (c : Consumer β) (legible : List (List UInt8) → Prop) (s : Execution β) :
    Action → Prop
  | .read _ => s.point ≠ .finished ∧
      ∃ r, s.receiver = some r ∧ r.pending.length < channelCapacity
  | .endOfFile => legible s.sent
  | .turn late => c.Leaves s late → ∀ r, s.receiver = some r → r.pending = []
  | _ => True

/-- `J` says what a loop has made of the chunks that it has taken. -/
structure Consumer.Reads (c : Consumer β) (J : List (List UInt8) → β → Prop) : Prop where
  start : J [] c.start
  take : ∀ taken b chunk, J taken b → J (taken ++ [chunk]) (c.take b chunk)
  exited : ∀ taken b code, J taken b → J taken (c.exited b code)
  expired : ∀ taken b, J taken b → J taken (c.expired b)

/-- The loop has taken a start of what was read and has the rest before it. -/
structure Execution.Follows (J : List (List UInt8) → β → Prop) (s : Execution β)
    (taken : List (List UInt8)) : Prop where
  got : J taken s.got
  unsubscribed : s.receiver = none → s.sent = [] ∧ taken = []
  current : ∀ r, s.receiver = some r → r.Current s.sent taken
  finished : s.point = .finished → taken = s.sent

/-- All that one step of a loop can do. -/
theorem turn_cases (h : c.turn s r late = some t) :
    (∃ chunk rest p, r.missed = 0 ∧ r.pending = chunk :: rest ∧ p ≠ .finished ∧
      t = { s with
        receiver := some { r with pending := rest }
        point := p
        got := c.take s.got chunk }) ∨
    (0 < r.missed ∧ ∃ p, t = { s with receiver := some { r with missed := 0 }, point := p }) ∨
    (∃ p got, t = { s with point := p, got := got } ∧
      (got = s.got ∨ (∃ code, got = c.exited s.got code) ∨ got = c.expired s.got) ∧
      (p = .finished → c.Leaves s late ∨ r.Idle)) := by
  unfold Consumer.turn at h
  cases hpoint : s.point with
  | finished => simp [hpoint] at h
  | deadline =>
    simp only [hpoint] at h
    split at h
    · rename_i hlate
      rw [Bool.and_eq_true] at hlate
      obtain rfl := some.inj h
      exact .inr (.inr ⟨_, _, rfl, .inr (.inr rfl), fun _ => .inl (.inl ⟨hpoint, hlate⟩)⟩)
    · obtain rfl := some.inj h
      exact .inr (.inr ⟨_, s.got, rfl, .inl rfl, fun hp => Point.noConfusion hp⟩)
  | exit =>
    simp only [hpoint] at h
    split at h
    · obtain rfl := some.inj h
      exact .inr (.inr ⟨_, s.got, rfl, .inl rfl, fun hp => Point.noConfusion hp⟩)
    · rename_i code hexit
      obtain rfl := some.inj h
      exact .inr (.inr ⟨_, _, rfl, .inr (.inl ⟨some code, rfl⟩), fun hp => Point.noConfusion hp⟩)
    · rename_i hexit
      obtain rfl := some.inj h
      exact .inr (.inr ⟨_, _, rfl, .inr (.inl ⟨none, rfl⟩),
        fun hp => .inl (.inr (.inr ⟨hpoint, hexit, hp⟩))⟩)
  | output =>
    simp only [hpoint] at h
    rcases r.receive_cases s.isOpen with ⟨hmissed, hr⟩ | ⟨hmissed, x, rest, hpending, hr⟩ |
      ⟨hidle, hr⟩
    · simp only [hr, some.injEq] at h
      exact .inr (.inl ⟨hmissed, _, h.symm⟩)
    · simp only [hr, some.injEq] at h
      exact .inl ⟨x, rest, _, hmissed, hpending, c.again_ne, h.symm⟩
    · rw [hr] at h
      cases hopen : s.isOpen with
      | false =>
        simp only [hopen, Bool.false_eq_true, if_false, some.injEq] at h
        exact .inr (.inr ⟨_, s.got, h.symm, .inl rfl, fun _ => .inr hidle⟩)
      | true =>
        simp only [hopen, if_true, some.injEq] at h
        exact .inr (.inr ⟨_, s.got, h.symm, .inl rfl, fun _ => .inr hidle⟩)
  | grace =>
    simp only [hpoint] at h
    split at h
    · rename_i hlate
      obtain rfl := some.inj h
      exact .inr (.inr ⟨_, s.got, rfl, .inl rfl, fun _ => .inl (.inr (.inl ⟨hpoint, hlate⟩))⟩)
    · rcases r.receive_cases s.isOpen with ⟨hmissed, hr⟩ | ⟨hmissed, x, rest, hpending, hr⟩ |
        ⟨hidle, hr⟩
      · simp only [hr, some.injEq] at h
        exact .inr (.inl ⟨hmissed, _, h.symm⟩)
      · simp only [hr, some.injEq] at h
        exact .inl ⟨x, rest, .grace, hmissed, hpending, fun hp => Point.noConfusion hp, h.symm⟩
      · rw [hr] at h
        cases hopen : s.isOpen with
        | false =>
          simp only [hopen, Bool.false_eq_true, if_false, some.injEq] at h
          exact .inr (.inr ⟨_, s.got, h.symm, .inl rfl, fun _ => .inr hidle⟩)
        | true =>
          simp only [hopen, if_true, some.injEq] at h
          exact .inr (.inr ⟨_, s.got, h.symm, .inl rfl, fun _ => .inr hidle⟩)

theorem Consumer.Reads.kept {got : β} (hJ : c.Reads J) (h : J taken s.got)
    (hgot : got = s.got ∨ (∃ code, got = c.exited s.got code) ∨ got = c.expired s.got) :
    J taken got := by
  rcases hgot with rfl | ⟨code, rfl⟩ | rfl
  · exact h
  · exact hJ.exited _ _ _ h
  · exact hJ.expired _ _ h

theorem turn_follows (hJ : c.Reads J) (h : c.turn s r late = some t) (hr : s.receiver = some r)
    (hkeeps : c.Leaves s late → r.pending = []) (hs : s.Follows J taken) :
    t.sent = s.sent ∧ t.ended = s.ended ∧ ∃ taken, t.Follows J taken := by
  have hcurrent := hs.current r hr
  rcases turn_cases h with ⟨chunk, rest, p, -, hpending, hp, rfl⟩ | ⟨hmissed, -⟩ |
    ⟨p, got, rfl, hgot, hp⟩
  · refine ⟨rfl, rfl, taken ++ [chunk], hJ.take _ _ _ hs.got, nofun, ?_, fun hend => absurd hend hp⟩
    intro r' hr'
    obtain rfl := some.inj hr'
    exact hcurrent.take hpending
  · rw [hcurrent.missed] at hmissed
    exact absurd hmissed (Nat.lt_irrefl 0)
  · refine ⟨rfl, rfl, taken, hJ.kept hs.got hgot, hs.unsubscribed, hs.current, fun hend => ?_⟩
    have hpending : r.pending = [] := by
      rcases hp hend with hleaves | hidle
      · exact hkeeps hleaves
      · exact hidle.1
    exact hcurrent.all_taken hpending

/-- What holds of a loop whose steps keep the output. -/
def Tracked (J : List (List UInt8) → β → Prop) (legible : List (List UInt8) → Prop)
    (s : Execution β) : Prop :=
  (∃ taken, s.Follows J taken) ∧ (s.ended = true → legible s.sent)

theorem step_tracked (hJ : c.Reads J) (hkeeps : c.Keeps legible s a) (h : c.step s a = some t)
    (hs : Tracked J legible s) : Tracked J legible t := by
  obtain ⟨⟨taken, hs⟩, hlegible⟩ := hs
  cases a with
  | read chunk =>
    obtain ⟨hpoint, r, hr, hroom⟩ := hkeeps
    obtain ⟨⟨hended, -⟩, h⟩ := ite_none_right_eq_some.mp h
    obtain rfl := some.inj h
    refine ⟨⟨taken, hs.got, fun hnone => ?_, ?_, fun hend => absurd hend hpoint⟩, fun hend => ?_⟩
    · simp [hr] at hnone
    · intro r' hr'
      simp only [hr, map_some, some.injEq] at hr'
      obtain rfl := hr'
      exact (hs.current r hr).send hroom
    · rw [hended] at hend
      exact absurd hend Bool.false_ne_true
  | endOfFile =>
    obtain ⟨-, h⟩ := ite_none_left_eq_some.mp h
    obtain rfl := some.inj h
    exact ⟨⟨taken, hs.got, hs.unsubscribed, hs.current, hs.finished⟩, fun _ => hkeeps⟩
  | remove =>
    obtain rfl := some.inj h
    exact ⟨⟨taken, hs.got, hs.unsubscribed, hs.current, hs.finished⟩, hlegible⟩
  | exit code =>
    obtain ⟨-, h⟩ := ite_none_left_eq_some.mp h
    obtain rfl := some.inj h
    exact ⟨⟨taken, hs.got, hs.unsubscribed, hs.current, hs.finished⟩, hlegible⟩
  | subscribe =>
    obtain ⟨hnone, h⟩ := ite_none_left_eq_some.mp h
    obtain rfl := some.inj h
    have hfresh := hs.unsubscribed (not_isSome_iff_eq_none.mp hnone)
    refine ⟨⟨taken, hs.got, nofun, ?_, hs.finished⟩, hlegible⟩
    intro r hr
    obtain rfl := some.inj hr
    rw [hfresh.2]
    exact ⟨rfl, hfresh.1.symm⟩
  | turn late =>
    obtain ⟨r, hr, hturn⟩ := bind_eq_some_iff.mp h
    obtain ⟨hsent, hended, hfollows⟩ :=
      turn_follows hJ hturn hr (fun hleaves => hkeeps hleaves r hr) hs
    refine ⟨hfollows, ?_⟩
    rw [hsent, hended]
    exact hlegible

theorem begin_tracked (hJ : c.Reads J) : Tracked J legible c.begin :=
  ⟨⟨[], hJ.start, fun _ => ⟨rfl, rfl⟩, nofun, fun _ => rfl⟩, nofun⟩

theorem complete_of_tracked
    (hwhole : ∀ sent b, legible sent → J sent b → shown b = whole sent.flatten)
    (hs : Tracked J legible s) : Complete shown whole s := by
  intro hended hsettled
  obtain ⟨⟨taken, hs⟩, hlegible⟩ := hs
  have hall : taken = s.sent := by
    rcases hsettled with hfinished | ⟨r, hr, hidle⟩
    · exact hs.finished hfinished
    · exact (hs.current r hr).all_taken hidle.1
  rw [hall] at hs
  exact hwhole s.sent s.got (hlegible hended) hs.got

/-- The rule for one loop: `J` says what it makes of the chunks, and `legible` when that is the
whole output. -/
theorem complete_throughout (hJ : c.Reads J)
    (hwhole : ∀ sent b, legible sent → J sent b → shown b = whole sent.flatten)
    (h : Steps c.step (c.Keeps legible) c.begin as s) :
    Throughout c.step (Complete shown whole) c.begin as :=
  h.throughout (fun _ _ _ hkeeps hstep hs => step_tracked hJ hkeeps hstep hs)
    (fun _ hs => complete_of_tracked hwhole hs) (begin_tracked hJ)

end ColossalCode.Output
