import ColossalCode.Pty.Sequences

/-! What stripping removes, and the sequences that the parser recognises. -/
namespace ColossalCode.Pty
open List Stretch

variable {s : ParserState} {b c : UInt8} {data rest body : List UInt8}

/-- The parser's state after a byte. -/
def nextState : ParserState → UInt8 → ParserState
  | .ground, byte => if byte = esc then .esc else .ground
  | .esc, byte => if byte = rightBracket then .oscParam else .ground
  | .oscParam, byte => if byte = bel then .ground else if byte = esc then .oscEsc else .oscParam
  | .oscEsc, _ => .ground

theorem pushByte_state (p : Parser) (byte : UInt8) :
    (p.pushByte byte).1.state = nextState p.state byte := by
  unfold Parser.pushByte nextState Parser.moveTo
  split
  · rename_i hstate
    rw [hstate]
    dsimp only
    split_ifs
    · rfl
    · exact hstate
  · rename_i hstate
    rw [hstate]
    dsimp only
    split_ifs <;> rfl
  · rename_i hstate
    rw [hstate]
    dsimp only
    split_ifs
    · rfl
    · rfl
    · rfl
    · exact hstate
  · rename_i hstate
    rw [hstate]
    dsimp only
    split_ifs <;> rfl

def Stretch.isOsc133 : Stretch → Bool
  | .command bytes => osc133.isPrefixOf (commandParams bytes)
  | .other _ => false

/-- The bytes of a stretch, where it is no OSC 133 sequence. -/
def Stretch.kept (stretch : Stretch) : List UInt8 :=
  if stretch.isOsc133 then [] else stretch.bytes

/-- The input without the OSC 133 sequences that the parser recognises in it. -/
def unmarked (input : List UInt8) : List UInt8 := (stretches .new [] input).flatMap kept

/-- What is kept from a state on, with the bytes held back so far. -/
def keptFrom (s : ParserState) (held data : List UInt8) : List UInt8 :=
  (stretches ⟨s, .unknown, []⟩ held data).flatMap kept

theorem stretches_state (p q : Parser) (h : p.state = q.state) (held data : List UInt8) :
    stretches p held data = stretches q held data := by
  induction data generalizing p q held with
  | nil => rfl
  | cons byte data ih =>
    have hnext : (p.pushByte byte).1.state = (q.pushByte byte).1.state := by
      rw [pushByte_state, pushByte_state, h]
    have hends : p.ends byte = q.ends byte := by
      unfold Parser.ends
      rw [h]
    rw [stretches, stretches, hnext, hends, ih _ _ hnext, ih _ _ hnext]

theorem keptFrom_cons (s : ParserState) (held : List UInt8) (byte : UInt8) (data : List UInt8) :
    keptFrom s held (byte :: data) =
      if nextState s byte = .ground then
        (if Parser.ends ⟨s, .unknown, []⟩ byte then command (held ++ [byte])
          else other (held ++ [byte])).kept ++ keptFrom .ground [] data
      else keptFrom (nextState s byte) (held ++ [byte]) data := by
  have hstate := pushByte_state ⟨s, .unknown, []⟩ byte
  rw [keptFrom, stretches]
  dsimp only at hstate ⊢
  rw [hstate]
  split
  · rename_i hground
    rw [flatMap_cons, stretches_state _ ⟨.ground, .unknown, []⟩ (hstate.trans hground)]
    rfl
  · rw [stretches_state _ ⟨nextState s byte, .unknown, []⟩ hstate]
    rfl

theorem next_esc : nextState .oscParam esc = .oscEsc := rfl

theorem next_bel : nextState .oscParam bel = .ground := rfl

theorem kept_plain (hb : b ≠ esc) : keptFrom .ground [] (b :: data) = b :: keptFrom .ground [] data := by
  rw [keptFrom_cons, nextState, if_neg hb, if_pos rfl]
  rfl

theorem kept_escape (hc : c ≠ rightBracket) :
    keptFrom .ground [] (esc :: c :: data) = esc :: c :: keptFrom .ground [] data := by
  rw [keptFrom_cons, nextState, if_pos rfl, if_neg (by simp), keptFrom_cons, nextState, if_neg hc,
    if_pos rfl]
  rfl

/-- Neither of the bytes that may end a command. -/
def Unended (body : List UInt8) : Prop := ∀ b ∈ body, b ≠ esc ∧ b ≠ bel

theorem kept_body (h : Unended body) (held : List UInt8) :
    keptFrom .oscParam held (body ++ data) = keptFrom .oscParam (held ++ body) data := by
  induction body generalizing held with
  | nil => rw [append_nil]; rfl
  | cons b body ih =>
    obtain ⟨hesc, hbel⟩ := h b mem_cons_self
    have hnext : nextState .oscParam b = .oscParam := by
      rw [nextState, if_neg hbel, if_neg hesc]
    rw [cons_append, keptFrom_cons, hnext, if_neg (by simp),
      ih fun x hx => h x (mem_cons_of_mem b hx)]
    simp

theorem kept_open (h : Unended body) :
    keptFrom .ground [] (esc :: rightBracket :: (body ++ data)) =
      keptFrom .oscParam (esc :: rightBracket :: body) data := by
  have hstart : keptFrom .ground [] (esc :: rightBracket :: (body ++ data)) =
      keptFrom .oscParam [esc, rightBracket] (body ++ data) := by
    rw [keptFrom_cons, nextState, if_pos rfl, if_neg (by simp), keptFrom_cons, nextState,
      if_pos rfl, if_neg (by simp)]
    rfl
  rw [hstart, kept_body h]
  rfl

theorem kept_bel (h : Unended body) :
    keptFrom .ground [] (esc :: rightBracket :: (body ++ bel :: rest)) =
      (if osc133 <+: body then [] else esc :: rightBracket :: (body ++ [bel])) ++
        keptFrom .ground [] rest := by
  rw [kept_open h, keptFrom_cons, next_bel, if_pos rfl]
  congr 1
  rw [if_pos (by simp [Parser.ends]), kept, isOsc133, cons_append,
    cons_append, commandParams_bel h]
  simp [bytes]

theorem kept_st (h : Unended body) :
    keptFrom .ground [] (esc :: rightBracket :: (body ++ esc :: backslash :: rest)) =
      (if osc133 <+: body then []
        else esc :: rightBracket :: (body ++ [esc] ++ [backslash])) ++ keptFrom .ground [] rest := by
  rw [kept_open h, keptFrom_cons, next_esc, if_neg (by simp), keptFrom_cons, nextState,
    if_pos rfl]
  congr 1
  rw [if_pos (by simp [Parser.ends]), kept, isOsc133, cons_append,
    cons_append, cons_append, cons_append, commandParams_st h]
  simp [bytes]

theorem kept_aborted (h : Unended body) (hc : c ≠ backslash) :
    keptFrom .ground [] (esc :: rightBracket :: (body ++ esc :: c :: rest)) =
      esc :: rightBracket :: (body ++ [esc] ++ [c]) ++ keptFrom .ground [] rest := by
  rw [kept_open h, keptFrom_cons, next_esc, if_neg (by simp), keptFrom_cons, nextState,
    if_pos rfl]
  congr 1
  rw [if_neg (by simp [Parser.ends, hc])]
  rfl

theorem kept_unended (h : Unended body) :
    keptFrom .ground [] (esc :: rightBracket :: body) = esc :: rightBracket :: body := by
  have hopen : keptFrom .ground [] (esc :: rightBracket :: (body ++ [])) =
      keptFrom .oscParam (esc :: rightBracket :: body) [] := kept_open h
  rw [append_nil] at hopen
  rw [hopen]
  simp [keptFrom, stretches, kept, isOsc133, bytes]

theorem kept_unended_esc (h : Unended body) :
    keptFrom .ground [] (esc :: rightBracket :: (body ++ [esc])) =
      esc :: rightBracket :: (body ++ [esc]) := by
  rw [kept_open h, keptFrom_cons, next_esc, if_neg (by simp)]
  simp [keptFrom, stretches, kept, isOsc133, bytes]

/-- The bytes that a marker begins with. -/
def introducer : List UInt8 := esc :: rightBracket :: osc133

theorem strip_outside (b : UInt8) (rest : List UInt8) :
    stripFrom .outside (b :: rest) =
      if introducer <+: b :: rest then stripFrom .inside rest
      else b :: stripFrom .outside rest := by
  rw [stripFrom]
  congr 1
  rw [introducer, cons_prefix_cons, isPrefixOf_iff_prefix]
  exact propext (and_congr_left' eq_comm)

theorem strip_plain (hb : b ≠ esc) :
    stripFrom .outside (b :: rest) = b :: stripFrom .outside rest := by
  rw [strip_outside, if_neg]
  rw [introducer, cons_prefix_cons]
  exact fun h => hb h.1.symm

theorem strip_plains (h : ∀ b ∈ body, b ≠ esc) :
    stripFrom .outside (body ++ rest) = body ++ stripFrom .outside rest := by
  induction body with
  | nil => rfl
  | cons b body ih =>
    rw [cons_append, strip_plain (h b mem_cons_self),
      ih fun x hx => h x (mem_cons_of_mem b hx)]
    rfl

theorem strip_inside_body (h : Unended body) :
    stripFrom .inside (body ++ rest) = stripFrom .inside rest := by
  induction body with
  | nil => rfl
  | cons b body ih =>
    obtain ⟨hesc, hbel⟩ := h b mem_cons_self
    rw [cons_append, stripFrom, if_neg hbel, if_neg (fun hend => hesc hend.1),
      ih fun x hx => h x (mem_cons_of_mem b hx)]

theorem strip_inside_bel : stripFrom .inside (bel :: rest) = stripFrom .outside rest := by
  rw [stripFrom, if_pos rfl]

theorem strip_inside_st :
    stripFrom .inside (esc :: backslash :: rest) = stripFrom .outside rest := by
  rw [stripFrom, if_neg (by decide), if_pos ⟨rfl, by simp⟩, stripFrom]

theorem strip_inside_esc (hc : c ≠ backslash) :
    stripFrom .inside (esc :: c :: rest) = stripFrom .inside (c :: rest) := by
  rw [stripFrom, if_neg (by decide), if_neg]
  rintro ⟨-, h⟩
  rw [List.isPrefixOf_iff_prefix, cons_prefix_cons] at h
  exact hc h.1.symm

theorem strip_length (mode : Stripping) (data : List UInt8) :
    (stripFrom mode data).length ≤ data.length := by
  induction data generalizing mode with
  | nil => cases mode <;> exact Nat.le_refl 0
  | cons b rest ih =>
    cases mode with
    | outside =>
      rw [strip_outside]
      split
      · exact Nat.le_succ_of_le (ih .inside)
      · exact Nat.succ_le_succ (ih .outside)
    | inside =>
      rw [stripFrom]
      split
      · exact Nat.le_succ_of_le (ih .outside)
      · split
        · exact Nat.le_succ_of_le (ih .closing)
        · exact Nat.le_succ_of_le (ih .inside)
    | closing => exact Nat.le_succ_of_le (ih .outside)

/-- How a text goes on with its escapes; every text goes on so. -/
inductive Framed : List UInt8 → Prop where
  | nil : Framed []
  | plain {b : UInt8} {rest : List UInt8} (hb : b ≠ esc) (h : Framed rest) : Framed (b :: rest)
  | lone : Framed [esc]
  | escape {c : UInt8} {rest : List UInt8} (hc : c ≠ rightBracket) (h : Framed rest) :
      Framed (esc :: c :: rest)
  | unended {body : List UInt8} (hbody : Unended body) : Framed (esc :: rightBracket :: body)
  | unendedEsc {body : List UInt8} (hbody : Unended body) :
      Framed (esc :: rightBracket :: (body ++ [esc]))
  | bel {body rest : List UInt8} (hbody : Unended body) (h : Framed rest) :
      Framed (esc :: rightBracket :: (body ++ bel :: rest))
  | escaped {body rest : List UInt8} {c : UInt8} (hbody : Unended body) (h : Framed rest) :
      Framed (esc :: rightBracket :: (body ++ esc :: c :: rest))

theorem exists_body (data : List UInt8) : ∃ body, Unended body ∧
    (data = body ∨ ∃ t rest, (t = esc ∨ t = bel) ∧ data = body ++ t :: rest) := by
  induction data with
  | nil => exact ⟨[], fun b hb => (by cases hb), .inl rfl⟩
  | cons b data ih =>
    by_cases hb : b ≠ esc ∧ b ≠ bel
    · obtain ⟨body, hbody, hdata⟩ := ih
      refine ⟨b :: body, forall_mem_cons.mpr ⟨hb, hbody⟩, ?_⟩
      rcases hdata with rfl | ⟨t, rest, ht, rfl⟩
      · exact .inl rfl
      · exact .inr ⟨t, rest, ht, rfl⟩
    · refine ⟨[], fun x hx => (by cases hx), .inr ⟨b, data, ?_, rfl⟩⟩
      rw [not_and_or, not_not, not_not] at hb
      exact hb

theorem framed (data : List UInt8) : Framed data := by
  induction hn : data.length using Nat.strongRecOn generalizing data with
  | ind n ih =>
    have hshorter (rest : List UInt8) (h : rest.length < data.length) : Framed rest :=
      ih rest.length (hn ▸ h) rest rfl
    match data with
    | [] => exact .nil
    | b :: rest =>
      by_cases hb : b = esc
      · subst hb
        match rest with
        | [] => exact .lone
        | c :: rest =>
          by_cases hc : c = rightBracket
          · subst hc
            obtain ⟨body, hbody, rfl | ⟨t, rest, rfl | rfl, rfl⟩⟩ := exists_body rest
            · exact .unended hbody
            · match rest with
              | [] => exact .unendedEsc hbody
              | c :: rest =>
                exact .escaped hbody
                  (hshorter rest (by simp only [length_cons, length_append]; omega))
            · exact .bel hbody
                (hshorter rest (by simp only [length_cons, length_append]; omega))
          · exact .escape hc (hshorter rest (by simp only [length_cons]; omega))
      · exact .plain hb (hshorter rest (by simp))

variable {t : UInt8}

/-- Whether a marker begins is decided before its end. -/
theorem osc133_prefix_iff (ht : t = esc ∨ t = bel) :
    osc133 <+: body ++ t :: rest ↔ osc133 <+: body := by
  rw [osc133]
  rcases body with _ | ⟨_, _ | ⟨_, _ | ⟨_, _ | ⟨_, _⟩⟩⟩⟩ <;>
    rcases ht with rfl | rfl <;> simp [cons_prefix_cons, esc, bel]

theorem introducer_prefix_iff (ht : t = esc ∨ t = bel) :
    introducer <+: esc :: rightBracket :: (body ++ t :: rest) ↔ osc133 <+: body := by
  rw [introducer, cons_prefix_cons, cons_prefix_cons, osc133_prefix_iff ht]
  simp

theorem unended_right (h : Unended body) : Unended (rightBracket :: body) :=
  forall_mem_cons.mpr ⟨by decide, h⟩

/-- Stripping leaves no more than so much of a text, from outside of a marker, from inside of one, or
after an escape inside of one. -/
structure Covered (data : List UInt8) (n : Nat) : Prop where
  outside : (stripFrom .outside data).length ≤ n
  inside : (stripFrom .inside data).length ≤ n
  escaped : (stripFrom .inside (esc :: data)).length ≤ n

variable {n : Nat}

theorem Covered.inside_cons (h : Covered data n) (b : UInt8) :
    (stripFrom .inside (b :: data)).length ≤ n := by
  by_cases hbel : b = bel
  · rw [hbel, strip_inside_bel]
    exact h.outside
  · by_cases hesc : b = esc
    · rw [hesc]
      exact h.escaped
    · rw [stripFrom, if_neg hbel, if_neg fun hend => hesc hend.1]
      exact h.inside

theorem Covered.outside_cons (h : Covered data n) (b : UInt8) :
    (stripFrom .outside (b :: data)).length ≤ n + 1 := by
  rw [strip_outside]
  split
  · exact Nat.le_succ_of_le h.inside
  · exact Nat.succ_le_succ h.outside

theorem Covered.inside_esc (h : Covered data n) (c : UInt8) :
    (stripFrom .inside (esc :: c :: data)).length ≤ n := by
  by_cases hc : c = backslash
  · rw [hc, strip_inside_st]
    exact h.outside
  · rw [strip_inside_esc hc]
    exact h.inside_cons c

theorem Covered.outside_esc (h : Covered data n) (c : UInt8) :
    (stripFrom .outside (esc :: c :: data)).length ≤ n + 2 := by
  rw [strip_outside]
  split
  · exact Nat.le_add_right_of_le (h.inside_cons c)
  · exact Nat.succ_le_succ (h.outside_cons c)

/-- One escape inside of a marker is as good as two. -/
theorem Covered.of_esc (houtside : (stripFrom .outside (esc :: data)).length ≤ n)
    (hinside : (stripFrom .inside (esc :: data)).length ≤ n) : Covered (esc :: data) n := by
  refine ⟨houtside, hinside, ?_⟩
  rw [strip_inside_esc (by decide)]
  exact hinside

theorem strip_open (h : Unended body) (hmarker : ¬ introducer <+: esc :: rightBracket :: (body ++ data)) :
    stripFrom .outside (esc :: rightBracket :: (body ++ data)) =
      esc :: rightBracket :: (body ++ stripFrom .outside data) := by
  rw [strip_outside, if_neg hmarker, ← cons_append,
    strip_plains fun b hb => ((unended_right h) b hb).1]
  rfl

theorem strip_marker (h : Unended body) (hmarker : introducer <+: esc :: rightBracket :: (body ++ data)) :
    stripFrom .outside (esc :: rightBracket :: (body ++ data)) = stripFrom .inside data := by
  rw [strip_outside, if_pos hmarker, ← cons_append, strip_inside_body (unended_right h)]

/-- Stripping leaves no more than what is not recognised, wherever it goes on from. -/
theorem strip_covered (h : Framed data) : Covered data (keptFrom .ground [] data).length := by
  induction h with
  | nil => exact ⟨by decide, by decide, by decide⟩
  | @plain b rest hb h ih =>
    rw [kept_plain hb]
    refine ⟨?_, Nat.le_succ_of_le (ih.inside_cons b), Nat.le_succ_of_le (ih.inside_esc b)⟩
    rw [strip_plain hb]
    exact Nat.succ_le_succ ih.outside
  | lone => exact ⟨by decide, by decide, by decide⟩
  | @escape c rest hc h ih =>
    rw [kept_escape hc]
    apply Covered.of_esc
    · rw [strip_outside, if_neg]
      · exact Nat.succ_le_succ (ih.outside_cons c)
      · rw [introducer, cons_prefix_cons, cons_prefix_cons]
        exact fun h => hc h.2.1.symm
    · exact Nat.le_succ_of_le (Nat.le_succ_of_le (ih.inside_esc c))
  | unended hbody =>
    rw [kept_unended hbody]
    exact .of_esc (strip_length _ _) (strip_length _ _)
  | unendedEsc hbody =>
    rw [kept_unended_esc hbody]
    exact .of_esc (strip_length _ _) (strip_length _ _)
  | @bel body rest hbody h ih =>
    rw [kept_bel hbody]
    have hinside : stripFrom .inside (esc :: rightBracket :: (body ++ Pty.bel :: rest)) =
        stripFrom .outside rest := by
      rw [strip_inside_esc (by decide), ← cons_append, strip_inside_body (unended_right hbody),
        strip_inside_bel]
    have hle := ih.outside
    apply Covered.of_esc
    · by_cases hmarker : osc133 <+: body
      · rw [strip_marker hbody ((introducer_prefix_iff (.inr rfl)).mpr hmarker), strip_inside_bel,
          length_append]
        omega
      · rw [strip_open hbody (fun h => hmarker ((introducer_prefix_iff (.inr rfl)).mp h)),
          strip_plain (by decide), if_neg hmarker]
        simp only [length_cons, length_append, length_nil]
        omega
    · rw [hinside, length_append]
      omega
  | @escaped body rest c hbody h ih =>
    have hinside : stripFrom .inside (esc :: rightBracket :: (body ++ esc :: c :: rest)) =
        stripFrom .inside (esc :: c :: rest) := by
      rw [strip_inside_esc (by decide), ← cons_append, strip_inside_body (unended_right hbody)]
    have hkept : ∃ u, keptFrom .ground [] (esc :: rightBracket :: (body ++ esc :: c :: rest)) =
        u ++ keptFrom .ground [] rest ∧ (osc133 <+: body ∨ u.length = body.length + 4) := by
      by_cases hc : c = backslash
      · subst hc
        refine ⟨_, kept_st hbody, ?_⟩
        by_cases hmarker : osc133 <+: body
        · exact .inl hmarker
        · rw [if_neg hmarker]
          exact .inr (by simp)
      · exact ⟨_, kept_aborted hbody hc, .inr (by simp)⟩
    obtain ⟨u, hu, hlength⟩ := hkept
    rw [hu, length_append]
    have hle := ih.inside_esc c
    apply Covered.of_esc
    · by_cases hmarker : osc133 <+: body
      · rw [strip_marker hbody ((introducer_prefix_iff (.inl rfl)).mpr hmarker)]
        omega
      · rw [strip_open hbody (fun h => hmarker ((introducer_prefix_iff (.inl rfl)).mp h))]
        have houtside := ih.outside_esc c
        have hfull := hlength.resolve_left hmarker
        simp only [length_cons, length_append]
        omega
    · rw [hinside]
      omega

/-- The text ends a command before its next escape, or with it. -/
def Ended (text : List UInt8) : Prop :=
  ∃ body rest, Unended body ∧ (text = body ++ bel :: rest ∨ text = body ++ esc :: backslash :: rest)

/-- Wherever a marker begins, no other sequence is open, and it is ended before the next escape. -/
def Neat (s : ParserState) (text : List UInt8) : Prop :=
  ∀ before rest, text = before ++ introducer ++ rest →
    before.foldl nextState s = .ground ∧ Ended rest

theorem neat_nil : Neat s [] := by
  intro before rest h
  simp [introducer] at h

theorem neat_cons : Neat s (b :: data) ↔
    (∀ rest, b :: data = introducer ++ rest → s = .ground ∧ Ended rest) ∧
      Neat (nextState s b) data := by
  constructor
  · intro h
    refine ⟨fun rest hrest => h [] rest hrest, ?_⟩
    rintro before rest rfl
    exact h (b :: before) rest rfl
  · rintro ⟨hhere, hlater⟩ before rest htext
    match before with
    | [] => exact hhere rest htext
    | x :: before =>
      obtain ⟨rfl, hdata⟩ := List.cons.inj htext
      exact hlater before rest hdata

theorem neat_plain (hb : b ≠ esc) : Neat s (b :: data) ↔ Neat (nextState s b) data := by
  rw [neat_cons, and_iff_right]
  intro rest hrest
  exact absurd (List.cons.inj hrest).1 hb

theorem neat_body (h : Unended body) : Neat .oscParam (body ++ data) ↔ Neat .oscParam data := by
  induction body with
  | nil => rfl
  | cons b body ih =>
    obtain ⟨hesc, hbel⟩ := h b mem_cons_self
    rw [cons_append, neat_plain hesc, nextState, if_neg hbel, if_neg hesc,
      ih fun x hx => h x (mem_cons_of_mem b hx)]

/-- A command that is open is tidy where what it is followed by is, and if it is a marker, where it is
ended. -/
theorem neat_open (h : Unended body) : Neat .ground (esc :: rightBracket :: (body ++ data)) ↔
    (∀ rest, body ++ data = osc133 ++ rest → Ended rest) ∧ Neat .oscParam data := by
  have hbracket : nextState (nextState .ground esc) rightBracket = .oscParam := rfl
  rw [neat_cons, neat_plain (by decide), hbracket, neat_body h]
  constructor
  · rintro ⟨hhere, hlater⟩
    refine ⟨?_, hlater⟩
    intro rest hrest
    exact (hhere rest (by rw [hrest]; rfl)).2
  · rintro ⟨hhere, hlater⟩
    refine ⟨?_, hlater⟩
    intro rest hrest
    obtain ⟨-, hrest⟩ := List.cons.inj hrest
    exact ⟨rfl, hhere rest (List.cons.inj hrest).2⟩

theorem neat_never (hs : s ≠ .ground) : Neat s (b :: data) ↔
    ¬ introducer <+: b :: data ∧ Neat (nextState s b) data := by
  rw [neat_cons]
  apply and_congr_left'
  constructor
  · rintro h ⟨rest, hrest⟩
    exact hs (h rest hrest.symm).1
  · intro h rest hrest
    exact absurd ⟨rest, hrest.symm⟩ h

theorem neat_escape (hc : c ≠ rightBracket) : Neat .ground (esc :: c :: rest) ↔
    ¬ introducer <+: c :: rest ∧ Neat .ground rest := by
  have hnext : nextState .esc c = .ground := by rw [nextState, if_neg hc]
  have hesc : nextState .ground esc = .esc := rfl
  rw [neat_cons, and_iff_right, hesc, neat_never (by simp), hnext]
  intro after hafter
  exact absurd (List.cons.inj (List.cons.inj hafter).2).1 hc

theorem neat_escaped : Neat .oscParam (esc :: c :: rest) ↔
    ¬ introducer <+: esc :: c :: rest ∧ ¬ introducer <+: c :: rest ∧ Neat .ground rest := by
  have hnext : nextState .oscEsc c = .ground := rfl
  rw [neat_never (by simp), next_esc, neat_never (by simp), hnext]

/-- An escape and a byte are left just where no marker begins at one of them. -/
theorem strip_escape_iff {kept : List UInt8} (h : Covered rest kept.length) :
    stripFrom .outside (esc :: c :: rest) = esc :: c :: kept ↔
      ¬ introducer <+: esc :: c :: rest ∧ ¬ introducer <+: c :: rest ∧
        stripFrom .outside rest = kept := by
  rw [strip_outside]
  by_cases hfirst : introducer <+: esc :: c :: rest
  · rw [if_pos hfirst]
    refine iff_of_false ?_ fun hall => hall.1 hfirst
    intro heq
    have hle := h.inside_cons c
    rw [heq, length_cons, length_cons] at hle
    omega
  · rw [if_neg hfirst, strip_outside]
    by_cases hsecond : introducer <+: c :: rest
    · rw [if_pos hsecond]
      refine iff_of_false ?_ fun hall => hall.2.1 hsecond
      intro heq
      have hle := h.inside
      rw [(List.cons.inj heq).2, length_cons] at hle
      omega
    · rw [if_neg hsecond]
      simp [hfirst, hsecond]

theorem body_unique {body' : List UInt8} (h : Unended body) (h' : Unended body') {t' : UInt8}
    (ht : t = esc ∨ t = bel) (ht' : t' = esc ∨ t' = bel) {rest' : List UInt8}
    (heq : body ++ t :: rest = body' ++ t' :: rest') : body = body' ∧ t = t' ∧ rest = rest' := by
  induction body generalizing body' with
  | nil =>
    match body' with
    | [] => exact ⟨rfl, List.cons.inj heq⟩
    | b :: body' =>
      obtain ⟨hesc, hbel⟩ := h' b mem_cons_self
      have hb := (List.cons.inj heq).1
      rcases ht with rfl | rfl
      · exact absurd hb.symm hesc
      · exact absurd hb.symm hbel
  | cons b body ih =>
    obtain ⟨hesc, hbel⟩ := h b mem_cons_self
    match body' with
    | [] =>
      have hb := (List.cons.inj heq).1
      rcases ht' with rfl | rfl
      · exact absurd hb hesc
      · exact absurd hb hbel
    | x :: body' =>
      obtain ⟨rfl, hrest⟩ := List.cons.inj heq
      obtain ⟨rfl, hlast⟩ := ih (fun y hy => h y (mem_cons_of_mem b hy))
        (fun y hy => h' y (mem_cons_of_mem b hy)) hrest
      exact ⟨rfl, hlast⟩

theorem not_ended_body (h : Unended body) : ¬ Ended body := by
  rintro ⟨body', rest, -, rfl | rfl⟩
  · exact (h bel (by simp)).2 rfl
  · exact (h esc (by simp)).1 rfl

/-- How a command ends decides whether it is ended. -/
theorem ended_iff (h : Unended body) (ht : t = esc ∨ t = bel) :
    Ended (body ++ t :: rest) ↔ t = bel ∨ [backslash] <+: rest := by
  constructor
  · rintro ⟨body', rest', hbody', heq | heq⟩
    · exact .inl (body_unique h hbody' ht (.inr rfl) heq).2.1
    · obtain ⟨-, -, hrest⟩ := body_unique h hbody' ht (.inl rfl) heq
      exact .inr ⟨rest', hrest.symm⟩
  · rintro (rfl | ⟨rest', rfl⟩)
    · exact ⟨body, rest, h, .inl rfl⟩
    · rcases ht with rfl | rfl
      · exact ⟨body, rest', h, .inr rfl⟩
      · exact ⟨body, backslash :: rest', h, .inl rfl⟩

/-- The marker's condition on a command that is open. -/
theorem marker_ended_iff (h : Unended body) (ht : t = esc ∨ t = bel) :
    (∀ after, body ++ t :: rest = osc133 ++ after → Ended after) ↔
      (osc133 <+: body → t = bel ∨ [backslash] <+: rest) := by
  constructor
  · rintro hall ⟨params, rfl⟩
    have hparams : Unended params := fun b hb => h b (mem_append_right osc133 hb)
    rw [← ended_iff hparams ht]
    exact hall _ (append_assoc _ _ _)
  · intro hmarker after hafter
    obtain ⟨params, rfl⟩ := (osc133_prefix_iff ht).mp ⟨after, hafter.symm⟩
    have hparams : Unended params := fun b hb => h b (mem_append_right osc133 hb)
    rw [append_assoc] at hafter
    rw [← append_cancel_left hafter, ended_iff hparams ht]
    exact hmarker (prefix_append osc133 params)

theorem strip_eq_kept_iff (h : Framed data) :
    stripFrom .outside data = keptFrom .ground [] data ↔ Neat .ground data := by
  induction h with
  | nil => exact iff_of_true rfl neat_nil
  | @plain b rest hb h ih =>
    have hnext : nextState .ground b = .ground := by rw [nextState, if_neg hb]
    rw [strip_plain hb, kept_plain hb, neat_plain hb, hnext, ← ih]
    simp
  | lone =>
    refine iff_of_true rfl ?_
    intro before rest h
    have hlength := congrArg List.length h
    simp [introducer, osc133] at hlength
    omega
  | @escape c rest hc h ih =>
    have hfirst : ¬ introducer <+: esc :: c :: rest := by
      rw [introducer, cons_prefix_cons, cons_prefix_cons]
      exact fun h => hc h.2.1.symm
    rw [kept_escape hc, strip_escape_iff (strip_covered h), neat_escape hc, ih,
      and_iff_right hfirst]
  | @unended body hbody =>
    have hneat : Neat .ground (esc :: rightBracket :: (body ++ [])) ↔ _ := neat_open hbody
    rw [kept_unended hbody]
    rw [append_nil] at hneat
    rw [hneat]
    by_cases hmarker : osc133 <+: body
    · refine iff_of_false ?_ ?_
      · have hopened : introducer <+: esc :: rightBracket :: (body ++ []) := by
          rw [introducer, append_nil, cons_prefix_cons, cons_prefix_cons]
          exact ⟨rfl, rfl, hmarker⟩
        have hstrip := strip_marker hbody hopened
        rw [append_nil] at hstrip
        rw [hstrip]
        intro heq
        cases heq
      · obtain ⟨params, rfl⟩ := hmarker
        rintro ⟨hended, -⟩
        exact not_ended_body (fun b hb => hbody b (mem_append_right osc133 hb))
          (hended params rfl)
    · refine iff_of_true ?_ ⟨fun rest hrest => absurd ⟨rest, hrest.symm⟩ hmarker, neat_nil⟩
      have hclosed : ¬ introducer <+: esc :: rightBracket :: (body ++ []) := by
        rw [introducer, append_nil, cons_prefix_cons, cons_prefix_cons]
        exact fun h => hmarker h.2.2
      have hstrip := strip_open hbody hclosed
      rw [append_nil] at hstrip
      rw [hstrip]
      exact congrArg _ (congrArg _ (append_nil body))
  | @unendedEsc body hbody =>
    rw [kept_unended_esc hbody, neat_open hbody, marker_ended_iff hbody (.inl rfl)]
    by_cases hmarker : osc133 <+: body
    · rw [strip_marker hbody ((introducer_prefix_iff (.inl rfl)).mpr hmarker)]
      refine iff_of_false (fun heq => by cases heq) ?_
      rintro ⟨hended, -⟩
      rcases hended hmarker with hbel | hslash
      · cases hbel
      · exact absurd (prefix_nil.mp hslash) (by simp)
    · rw [strip_open hbody fun h => hmarker ((introducer_prefix_iff (.inl rfl)).mp h)]
      refine iff_of_true rfl ⟨fun h => absurd h hmarker, ?_⟩
      rw [neat_never (by simp)]
      exact ⟨by decide, neat_nil⟩
  | @bel body rest hbody h ih =>
    have hnext : nextState .oscParam Pty.bel = .ground := rfl
    rw [neat_open hbody, marker_ended_iff hbody (.inr rfl), and_iff_right fun _ => .inl rfl,
      neat_plain (by decide), hnext, ← ih, kept_bel hbody]
    by_cases hmarker : osc133 <+: body
    · rw [strip_marker hbody ((introducer_prefix_iff (.inr rfl)).mpr hmarker), strip_inside_bel,
        if_pos hmarker]
      rfl
    · rw [strip_open hbody (fun h => hmarker ((introducer_prefix_iff (.inr rfl)).mp h)),
        strip_plain (by decide), if_neg hmarker]
      simp
  | @escaped body rest c hbody h ih =>
    rw [neat_open hbody, marker_ended_iff hbody (.inl rfl), neat_escaped]
    by_cases hmarker : osc133 <+: body
    · rw [strip_marker hbody ((introducer_prefix_iff (.inl rfl)).mpr hmarker)]
      by_cases hc : c = backslash
      · have hended : esc = Pty.bel ∨ [backslash] <+: c :: rest := .inr ⟨rest, by rw [hc]; rfl⟩
        have hfirst : ¬ introducer <+: esc :: backslash :: rest := by
          rw [introducer, cons_prefix_cons, cons_prefix_cons]
          exact fun h => absurd h.2.1 (by decide)
        have hsecond : ¬ introducer <+: backslash :: rest := by
          rw [introducer, cons_prefix_cons]
          exact fun h => absurd h.1 (by decide)
        rw [and_iff_right fun _ => hended, hc, strip_inside_st, kept_st hbody, if_pos hmarker,
          and_iff_right hfirst, and_iff_right hsecond]
        exact ih
      · refine iff_of_false ?_ ?_
        · intro heq
          have hle := (strip_covered h).inside_esc c
          rw [heq, kept_aborted hbody hc, length_append, length_cons] at hle
          omega
        · rintro ⟨hended, -⟩
          rcases hended hmarker with hbel | hslash
          · cases hbel
          · exact hc (cons_prefix_cons.mp hslash).1.symm
    · have hkept : keptFrom .ground [] (esc :: rightBracket :: (body ++ esc :: c :: rest)) =
          esc :: rightBracket :: (body ++ esc :: c :: keptFrom .ground [] rest) := by
        by_cases hc : c = backslash
        · rw [hc, kept_st hbody, if_neg hmarker]
          simp
        · rw [kept_aborted hbody hc]
          simp
      rw [strip_open hbody fun h => hmarker ((introducer_prefix_iff (.inl rfl)).mp h), hkept,
        and_iff_right fun h => absurd h hmarker, ← ih, ← strip_escape_iff (strip_covered h)]
      simp

/-- Stripping removes exactly the OSC 133 sequences that the parser recognises just where each marker
begins with no other sequence open, and is ended before the next escape. -/
theorem strip_recognised_iff (input : List UInt8) :
    stripOsc133 input = unmarked input ↔ Neat .ground input :=
  strip_eq_kept_iff (framed input)

/-- A marker after an escape of its own is stripped, and is not recognised. -/
theorem doubled_escape_stripped : ¬ ∀ input : List UInt8, stripOsc133 input = unmarked input := by
  intro hall
  have heq := hall (esc :: introducer ++ [0x41, bel])
  revert heq
  decide

end ColossalCode.Pty
