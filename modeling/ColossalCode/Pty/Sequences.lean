import ColossalCode.Pty.Osc133

/-! The operating system commands that the parser reads to their end, with all of their bytes, and
the bytes around them. -/
namespace ColossalCode.Pty
open List

/-- What is read between two moments at which the parser is on the ground. -/
inductive Stretch where
  | other (bytes : List UInt8)
  | command (bytes : List UInt8)
  deriving DecidableEq

def Stretch.bytes : Stretch → List UInt8
  | .other bytes => bytes
  | .command bytes => bytes

/-- The parameters between the introducer and the end of a command. -/
def commandParams (bytes : List UInt8) : List UInt8 :=
  (bytes.drop 2).takeWhile fun b => b ≠ esc ∧ b ≠ bel

/-- Whether a byte ends the command that the parser is in. -/
def Parser.ends (p : Parser) (byte : UInt8) : Bool :=
  match p.state with
  | .oscParam => byte = bel
  | .oscEsc => byte = backslash
  | _ => false

/-- The stretches of the bytes `held` back so far and those still to be read. -/
def stretches (p : Parser) (held : List UInt8) : List UInt8 → List Stretch
  | [] => [.other held]
  | byte :: data =>
    let q := (p.pushByte byte).1
    if q.state = .ground then
      (if p.ends byte then .command (held ++ [byte]) else .other (held ++ [byte])) ::
        stretches q [] data
    else stretches q (held ++ [byte]) data

/-- What is held back while the parser is off the ground. -/
inductive Holds : Parser → List UInt8 → Prop where
  | ground {p : Parser} (h : p.state = .ground) : Holds p []
  | esc {p : Parser} (h : p.state = .esc) : Holds p [esc]
  | param {p : Parser} {body : List UInt8} (h : p.state = .oscParam)
      (hbody : ∀ b ∈ body, b ≠ esc ∧ b ≠ bel) (hparams : p.params = body.take paramBufCap) :
      Holds p (Pty.esc :: rightBracket :: body)
  | paramEsc {p : Parser} {body : List UInt8} (h : p.state = .oscEsc)
      (hbody : ∀ b ∈ body, b ≠ Pty.esc ∧ b ≠ bel) (hparams : p.params = body.take paramBufCap) :
      Holds p (Pty.esc :: rightBracket :: (body ++ [Pty.esc]))

/-- The event of the parameters of a command. -/
def eventOf : List UInt8 → Option Event
  | a :: b :: c :: d :: command :: rest =>
    if [a, b, c, d] = osc133 then (marker command rest).map Prod.snd else none
  | _ => none

theorem dispatch_eq (p : Parser) : p.dispatch.2 = (eventOf p.params).toList ∧
    p.dispatch.1.params = p.params := by
  unfold Parser.dispatch
  rcases hparams : p.params with _ | ⟨a, _ | ⟨b, _ | ⟨c, _ | ⟨d, _ | ⟨command, rest⟩⟩⟩⟩⟩
  · exact ⟨rfl, hparams⟩
  · exact ⟨rfl, hparams⟩
  · exact ⟨rfl, hparams⟩
  · exact ⟨rfl, hparams⟩
  · exact ⟨rfl, hparams⟩
  · dsimp only [eventOf]
    by_cases hosc : [a, b, c, d] = osc133
    · rw [if_pos hosc, if_pos hosc]
      cases marker command rest with
      | none => exact ⟨rfl, hparams⟩
      | some found => exact ⟨rfl, rfl⟩
    · rw [if_neg hosc, if_neg hosc]
      exact ⟨rfl, hparams⟩

variable {body : List UInt8}

theorem take_snoc_full {byte : UInt8} (h : ¬ (body.take paramBufCap).length < paramBufCap) :
    (body ++ [byte]).take paramBufCap = body.take paramBufCap := by
  rw [length_take] at h
  rw [take_append_of_le_length (by omega)]

theorem take_snoc {byte : UInt8} (h : (body.take paramBufCap).length < paramBufCap) :
    (body ++ [byte]).take paramBufCap = body.take paramBufCap ++ [byte] := by
  rw [length_take] at h
  have hbody : body.length < paramBufCap := by omega
  rw [take_of_length_le (by simp; omega), take_of_length_le (by omega)]

theorem commandParams_bel (h : ∀ b ∈ body, b ≠ esc ∧ b ≠ bel) :
    commandParams (esc :: rightBracket :: (body ++ [bel])) = body := by
  have htake : (body ++ [bel]).takeWhile (fun b => b ≠ esc ∧ b ≠ bel) = body := by
    rw [takeWhile_append_of_pos fun b hb => decide_eq_true (h b hb)]
    simp
  exact htake

theorem commandParams_st (h : ∀ b ∈ body, b ≠ esc ∧ b ≠ bel) :
    commandParams (esc :: rightBracket :: (body ++ [esc] ++ [backslash])) = body := by
  have htake : (body ++ ([esc] ++ [backslash])).takeWhile (fun b => b ≠ esc ∧ b ≠ bel) = body := by
    rw [takeWhile_append_of_pos fun b hb => decide_eq_true (h b hb)]
    simp
  rw [append_assoc]
  exact htake

/-- A byte that does not end a stretch is held back; one that ends a command makes its event of the
parameters that were kept. -/
theorem holds_pushByte {p : Parser} {held : List UInt8} (h : Holds p held) (byte : UInt8) :
    ((p.pushByte byte).1.state ≠ .ground → Holds (p.pushByte byte).1 (held ++ [byte])) ∧
      (p.pushByte byte).2 =
        if p.ends byte then
          (eventOf ((commandParams (held ++ [byte])).take paramBufCap)).toList
        else [] := by
  cases h with
  | ground h =>
    rw [Parser.pushByte, Parser.ends, h]
    refine ⟨?_, rfl⟩
    dsimp only
    split
    · rename_i hesc
      intro _
      rw [hesc]
      exact .esc rfl
    · intro hne
      exact absurd h hne
  | esc h =>
    rw [Parser.pushByte, Parser.ends, h]
    refine ⟨?_, rfl⟩
    dsimp only
    split
    · rename_i hbracket
      intro _
      have hempty : ∀ b ∈ ([] : List UInt8), b ≠ Pty.esc ∧ b ≠ bel := fun b hb => by cases hb
      rw [hbracket]
      exact .param rfl hempty rfl
    · intro hne
      exact absurd rfl hne
  | @param body h hbody hparams =>
    rw [Parser.pushByte, Parser.ends, h]
    dsimp only
    by_cases hbel : byte = bel
    · rw [if_pos hbel, hbel, cons_append, cons_append, commandParams_bel hbody,
        ← hparams]
      exact ⟨fun hne => absurd rfl hne, by simp [(dispatch_eq p).1]⟩
    · rw [if_neg hbel]
      by_cases hesc : byte = esc
      · rw [if_pos hesc, hesc]
        exact ⟨fun _ => .paramEsc rfl hbody hparams, by simp [esc, bel]⟩
      · have hmore : ∀ b ∈ body ++ [byte], b ≠ esc ∧ b ≠ bel := by
          intro b hb
          rcases mem_append.mp hb with hb | hb
          · exact hbody b hb
          · rw [mem_singleton.mp hb]
            exact ⟨hesc, hbel⟩
        rw [if_neg hesc]
        split
        · rename_i hroom
          have hkept : p.params ++ [byte] = (body ++ [byte]).take paramBufCap := by
            rw [hparams] at hroom ⊢
            exact (take_snoc hroom).symm
          exact ⟨fun _ => .param rfl hmore hkept, by simp [hbel]⟩
        · rename_i hfull
          have hkept : p.params = (body ++ [byte]).take paramBufCap := by
            rw [hparams] at hfull ⊢
            exact (take_snoc_full hfull).symm
          exact ⟨fun _ => .param h hmore hkept, by simp [hbel]⟩
  | @paramEsc body h hbody hparams =>
    rw [Parser.pushByte, Parser.ends, h]
    dsimp only
    by_cases hslash : byte = backslash
    · rw [if_pos hslash, hslash, cons_append, cons_append, commandParams_st hbody,
        ← hparams]
      exact ⟨fun hne => absurd rfl hne, by simp [(dispatch_eq p).1]⟩
    · rw [if_neg hslash]
      exact ⟨fun hne => absurd rfl hne, by simp [hslash]⟩

/-- The events of the commands in a list of stretches, of so many bytes of their parameters. -/
def eventsOf (cap : List UInt8 → List UInt8) (read : List Stretch) : List Event :=
  read.filterMap fun
    | .command bytes => eventOf (cap (commandParams bytes))
    | .other _ => none

/-- The events of the parser are those of the commands it reads, each from the first bytes of its
parameters. -/
theorem push_events {p : Parser} {held : List UInt8} (h : Holds p held) (data : List UInt8) :
    (p.push data).2 = eventsOf (·.take paramBufCap) (stretches p held data) := by
  induction data generalizing p held with
  | nil => rfl
  | cons byte data ih =>
    obtain ⟨hholds, hevents⟩ := holds_pushByte h byte
    rw [push_cons, stretches]
    dsimp only
    by_cases hground : (p.pushByte byte).1.state = .ground
    · rw [if_pos hground, ih (.ground hground), hevents]
      split
      · rw [eventsOf, eventsOf, filterMap_cons]
        dsimp only
        cases eventOf ((commandParams (held ++ [byte])).take paramBufCap) <;> rfl
      · rfl
    · rw [if_neg hground, ih (hholds hground), hevents]
      rw [if_neg, nil_append]
      intro hends
      apply hground
      unfold Parser.ends at hends
      unfold Parser.pushByte
      split at hends
      · rename_i hstate
        rw [hstate, of_decide_eq_true hends]
        rfl
      · rename_i hstate
        rw [hstate, of_decide_eq_true hends]
        rfl
      · cases hends

end ColossalCode.Pty

/-! Markers in chunks, and the exit codes of the commands they end. -/
namespace ColossalCode.Pty
open List

/-- Successive calls of `push`. -/
def Parser.pushAll (p : Parser) : List (List UInt8) → Parser × List (List Event)
  | [] => (p, [])
  | chunk :: chunks =>
    let (q, events) := p.push chunk
    let (r, later) := q.pushAll chunks
    (r, events :: later)

theorem pushAll_flatten (p : Parser) (chunks : List (List UInt8)) :
    (p.pushAll chunks).2.flatten = (p.push chunks.flatten).2 := by
  induction chunks generalizing p with
  | nil => rfl
  | cons chunk chunks ih =>
    have hcons : (p.pushAll (chunk :: chunks)).2 =
        (p.push chunk).2 :: ((p.push chunk).1.pushAll chunks).2 := rfl
    rw [hcons, flatten_cons, ih, flatten_cons, push_append]

/-- The bytes before the exit code of a marker of a finished command. -/
def finished : List UInt8 := osc133 ++ [0x44, 0x3B]

/-- How many bytes of an exit code are kept. -/
def exitCodeCap : Nat := 58

theorem take_finished (code : List UInt8) :
    (finished ++ code).take paramBufCap = finished ++ code.take exitCodeCap := rfl

theorem eventOf_finished (code : List UInt8) :
    eventOf (finished ++ code) = some (.commandFinished (parseI32 code)) := by
  cases code <;> rfl

/-- An exit code apart, the first bytes of the parameters decide on the event. -/
theorem eventOf_unfinished {params : List UInt8} (h : ¬ finished <+: params) :
    eventOf (params.take paramBufCap) = eventOf params := by
  match params with
  | [] | [_] | [_, _] | [_, _, _] | [_, _, _, _] => rfl
  | a :: b :: c :: d :: command :: rest =>
    have htake : (a :: b :: c :: d :: command :: rest).take paramBufCap =
        a :: b :: c :: d :: command :: rest.take 59 := rfl
    rw [htake, eventOf, eventOf]
    split
    · rename_i hosc
      have hmarker : marker command (rest.take 59) = marker command rest := by
        unfold marker
        split_ifs with ha hb hc hd
        · rfl
        · rfl
        · rfl
        · match rest with
          | [] => rfl
          | [_] => rfl
          | e :: f :: more =>
            have he : e ≠ 0x3B := by
              rintro rfl
              apply h
              refine ⟨f :: more, ?_⟩
              rw [hd]
              simp only [List.cons.injEq, and_true, osc133] at hosc
              obtain ⟨rfl, rfl, rfl, rfl⟩ := hosc
              rfl
            simp [he]
        · rfl
      rw [hmarker]
    · rfl

theorem eventOf_exact_iff (params : List UInt8) :
    eventOf (params.take paramBufCap) = eventOf params ↔
      ∀ code, params = finished ++ code → parseI32 (code.take exitCodeCap) = parseI32 code := by
  by_cases h : finished <+: params
  · obtain ⟨code, rfl⟩ := h
    rw [take_finished, eventOf_finished, eventOf_finished]
    constructor
    · intro heq other hother
      rw [← append_cancel_left hother]
      injection heq with hevent
      injection hevent
    · intro hall
      rw [hall code rfl]
  · refine iff_of_true (eventOf_unfinished h) ?_
    rintro code rfl
    exact absurd (prefix_append finished code) h

theorem eventOf_take_isSome (params : List UInt8) :
    (eventOf (params.take paramBufCap)).isSome = (eventOf params).isSome := by
  by_cases h : finished <+: params
  · obtain ⟨code, rfl⟩ := h
    rw [take_finished, eventOf_finished, eventOf_finished]
    rfl
  · rw [eventOf_unfinished h]

/-- Two selections that take the same elements agree where they do on each. -/
theorem filterMap_eq_iff {α β : Type} {f g : α → Option β} (h : ∀ x, (f x).isSome = (g x).isSome)
    (xs : List α) : xs.filterMap f = xs.filterMap g ↔ ∀ x ∈ xs, f x = g x := by
  induction xs with
  | nil => simp
  | cons x xs ih =>
    have hx := h x
    rw [forall_mem_cons, filterMap_cons, filterMap_cons]
    cases hf : f x with
    | none =>
      rw [hf] at hx
      cases hg : g x with
      | none => simp [ih]
      | some y => simp [hg] at hx
    | some y =>
      rw [hf] at hx
      cases hg : g x with
      | none => simp [hg] at hx
      | some z => simp [ih]

/-- Chunks give the events of the bytes in one. The exit codes are those of the whole parameters
just where the first bytes of each denote the same as all of it. -/
theorem exit_codes_exact_iff (chunks : List (List UInt8)) :
    ((Parser.new.pushAll chunks).2.flatten = (Parser.new.push chunks.flatten).2 ∧
      (Parser.new.pushAll chunks).2.flatten =
        eventsOf id (stretches .new [] chunks.flatten)) ↔
    ∀ bytes code, .command bytes ∈ stretches .new [] chunks.flatten →
      commandParams bytes = finished ++ code →
      parseI32 (code.take exitCodeCap) = parseI32 code := by
  have hground : Holds .new [] := .ground rfl
  have hone := pushAll_flatten .new chunks
  rw [and_iff_right hone, hone, push_events hground, eventsOf, eventsOf, filterMap_eq_iff]
  · constructor
    · intro hall bytes code hmem hparams
      exact (eventOf_exact_iff _).mp (hall _ hmem) code hparams
    · intro hall stretch hmem
      cases stretch with
      | other bytes => rfl
      | command bytes =>
        exact (eventOf_exact_iff _).mpr fun code hparams => hall bytes code hmem hparams
  · intro stretch
    cases stretch with
    | other bytes => rfl
    | command bytes => exact eventOf_take_isSome _

/-- A code of 59 digits, of which the last one is not kept. -/
theorem exit_code_truncated : ¬ ∀ chunks : List (List UInt8),
    (Parser.new.pushAll chunks).2.flatten = (Parser.new.push chunks.flatten).2 ∧
      (Parser.new.pushAll chunks).2.flatten =
        eventsOf id (stretches .new [] chunks.flatten) := by
  intro hall
  have hexact := (hall [[esc, rightBracket] ++ finished ++ List.replicate 58 0x30 ++ [0x31, bel]]).2
  revert hexact
  decide

end ColossalCode.Pty
