import ColossalCode.Pty.Reading
import ColossalCode.Pty.SingleBytes

/-! A word and what ends it, cut into pieces: leaving out the pieces without a letter of the word
costs no letter. -/
namespace Pieces
open List Option

variable {α : Type*} {blank : α → Bool} {word ending : List α} {pieces : List (List α)}

/-- A piece that is left out. -/
def isBlank (blank : α → Bool) (piece : List α) : Bool := piece.all blank

theorem isBlank_of_ending (h : ∀ x ∈ ending, blank x = true) {piece : List α}
    (hsub : ∀ x ∈ piece, x ∈ ending) : isBlank blank piece = true := by
  apply all_eq_true.mpr
  intro x hx
  exact h x (hsub x hx)

theorem not_isBlank {piece : List α} {x : α} (hx : x ∈ piece) (hblank : blank x = false) :
    isBlank blank piece = false := by
  apply all_eq_false.mpr
  exact ⟨x, hx, by simp [hblank]⟩

/-- Pieces of the ending alone all go. -/
theorem keep_ending (h : ∀ x ∈ pieces.flatten, blank x = true) :
    (pieces.filter fun p => !isBlank blank p) = [] := by
  apply filter_eq_nil_iff.mpr
  intro piece hpiece
  have hblank : isBlank blank piece = true := isBlank_of_ending h fun x hx =>
    mem_flatten.mpr ⟨piece, hpiece, hx⟩
  simp [hblank]

/-- What is kept of the pieces is the word and a beginning of the ending. -/
theorem keep_word (hword : ∀ x ∈ word, blank x = false) (hending : ∀ x ∈ ending, blank x = true)
    (h : pieces.flatten = word ++ ending) :
    ∃ rest, rest <+: ending ∧ (pieces.filter fun p => !isBlank blank p).flatten = word ++ rest := by
  induction pieces generalizing word with
  | nil =>
    have hnil : word = [] := (append_eq_nil_iff.mp h.symm).1
    subst hnil
    exact ⟨[], nil_prefix, rfl⟩
  | cons piece pieces ih =>
    rw [flatten_cons] at h
    rcases append_eq_append_iff.mp h with ⟨left, hleft, hrest⟩ | ⟨surplus, hsurplus, hrest⟩
    · -- the piece ends inside the word
      subst hleft
      have hpieces : ∀ x ∈ left, blank x = false := by
        intro x hx
        exact hword x (mem_append_right piece hx)
      obtain ⟨rest, hpre, hkeep⟩ := ih hpieces hrest
      refine ⟨rest, hpre, ?_⟩
      cases piece with
      | nil =>
        rw [filter_cons_of_neg (by simp [isBlank]), hkeep]
        rfl
      | cons x piece =>
        have hkept : isBlank blank (x :: piece) = false :=
          not_isBlank mem_cons_self (hword x (by simp))
        rw [filter_cons_of_pos (by simp [hkept]), flatten_cons, hkeep, append_assoc]
    · -- the piece ends in the ending, and nothing of the word is left
      have hnone : (pieces.filter fun p => !isBlank blank p) = [] := by
        apply keep_ending
        intro x hx
        apply hending x
        rw [hrest]
        exact mem_append_right surplus hx
      have hpre : surplus <+: ending := ⟨pieces.flatten, hrest.symm⟩
      cases word with
      | nil =>
        refine ⟨[], nil_prefix, ?_⟩
        have hblank : isBlank blank piece = true := by
          rw [hsurplus]
          exact isBlank_of_ending hending fun x hx => hpre.subset hx
        rw [filter_cons_of_neg (by simp [hblank]), hnone]
        rfl
      | cons x word =>
        refine ⟨surplus, hpre, ?_⟩
        have hkept : isBlank blank piece = false := by
          apply not_isBlank (x := x) _ (hword x mem_cons_self)
          rw [hsurplus]
          simp
        rw [filter_cons_of_pos (by simp [hkept]), hnone, hsurplus]
        simp

end Pieces

/-! Reads that hold no marker: a byte at a time, and the pieces of a word. -/
namespace ColossalCode.Pty
open List Option

open Text

variable {r : Reading} {chunk bytes : List UInt8} {output : List Char} {chunks : List (List UInt8)}
  {b : UInt8} {c : Char}

/-- Neither a digit nor white space. -/
def isSolid (c : Char) : Bool := !c.isDigit && !isWhitespace c

def escChar : Char := Char.ofNat 0x1B

variable {text part : List Char} {code : UInt8} {p : Parser}

theorem holds_of_not_mem (hc : c ∈ part) (h : c ∉ text) :
    holds text part = false := by
  by_contra hholds
  rw [Bool.not_eq_false] at hholds
  exact h ((infix_of_holds hholds).subset hc)

theorem holds_of_length (h : text.length < part.length) :
    holds text part = false := by
  by_contra hholds
  rw [Bool.not_eq_false] at hholds
  have hlength := (infix_of_holds hholds).length_le
  omega

/-- What is no debug message is told from noise by its digits and its white space. -/
theorem isNoise_of_not_debug (h : holds text "bytes from pty".toList = false)
    (h' : holds text " bytes from pty".toList = false) :
    isNoise text = (trimmed text).all fun c => c.isDigit || isWhitespace c := by
  unfold isNoise
  rw [h, h']
  cases trimmed text with
  | nil => simp
  | cons c rest => simp

theorem isNoise_char (c : Char) : isNoise [c] = !isSolid c := by
  rw [isNoise_of_not_debug (holds_of_length (by simp)) (holds_of_length (by simp))]
  by_cases hc : isWhitespace c = true
  · simp [trimmed, isSolid, hc]
  · simp [trimmed, isSolid, hc]

/-- Where there is no blank and no digit, only white space is noise. -/
theorem isNoise_of_wordlike (hblank : ' ' ∉ text) (hdigit : ∀ c ∈ text, c.isDigit = false) :
    isNoise text = Pieces.isBlank isWhitespace text := by
  rw [isNoise_of_not_debug (holds_of_not_mem (c := ' ') (by decide) hblank)
    (holds_of_not_mem (c := ' ') (by decide) hblank)]
  apply Bool.eq_iff_iff.mpr
  rw [Pieces.isBlank, List.all_eq_true, List.all_eq_true]
  constructor
  · intro h c hc
    by_contra hsolid
    have hmem := mem_trimmed hc (Bool.eq_false_iff.mpr hsolid)
    have hnoise := h c hmem
    simp [hdigit c hc, hsolid] at hnoise
  · intro h c hc
    have hmem := (trimmed_sublist text).subset hc
    simp [h c hmem]

theorem esc_not_mem_utf8 (h : escChar ∉ text) : esc ∉ utf8 text := by
  intro hmem
  exact h (mem_of_mem_utf8 (by decide) hmem)

/-- Text without an escape is read as it is. -/
theorem receive_plain (hground : r.oscParser.state = .ground) (h : escChar ∉ output) :
    r.receive output = r.addPart output := by
  have hesc := esc_not_mem_utf8 h
  have hpush := push_ground hground hesc
  rw [receive_eq, hpush, stripOsc133_of_no_esc hesc, fromUtf8Lossy_utf8]
  rfl

theorem addPart_fields (r : Reading) (visible : List Char) :
    (r.addPart visible).oscParser = r.oscParser ∧
      (r.addPart visible).commandStarted = r.commandStarted ∧
        (r.addPart visible).commandFinished = r.commandFinished ∧
          (r.addPart visible).exitCode = r.exitCode := by
  unfold Reading.addPart
  split
  · exact ⟨rfl, rfl, rfl, rfl⟩
  · exact ⟨rfl, rfl, rfl, rfl⟩

/-- A read without an escape moves neither the parser nor the state of the command. -/
theorem hear_plain (hground : r.oscParser.state = .ground)
    (h : escChar ∉ fromUtf8Lossy chunk) : (r.hear chunk).oscParser = r.oscParser ∧
      (r.hear chunk).commandFinished = r.commandFinished := by
  cases hnoise : isNoise (fromUtf8Lossy chunk) with
  | true =>
    rw [hear_noise hnoise]
    exact ⟨rfl, rfl⟩
  | false =>
    rw [hear_output hnoise, receive_plain hground h]
    obtain ⟨hparser, -, hfinished, -⟩ := addPart_fields r (fromUtf8Lossy chunk)
    exact ⟨hparser, hfinished⟩

/-- A reading that has seen no event and holds no digit 1. -/
structure Eventless (r : Reading) : Prop where
  params : 0x31 ∉ r.oscParser.params
  started : r.commandStarted = false
  finished : r.commandFinished = false
  exitCode : r.exitCode = none

theorem stripOsc133_char (c : Char) : stripOsc133 (utf8 [c]) = utf8 [c] := by
  by_cases hesc : esc ∈ utf8 [c]
  · have hc : byteChar esc = c := mem_singleton.mp (mem_of_mem_utf8 (by decide) hesc)
    subst hc
    rfl
  · exact stripOsc133_of_no_esc hesc

/-- A solid character on its own adds itself and shows no event. -/
theorem receive_char (hr : Eventless r) (hc : isSolid c = true) :
    Eventless (r.receive [c]) ∧
      (r.receive [c]).stdoutParts.flatten = r.stdoutParts.flatten ++ [c] := by
  have hone : 0x31 ∉ utf8 [c] := by
    intro hmem
    have hdigit : byteChar 0x31 = c := mem_singleton.mp (mem_of_mem_utf8 (by decide) hmem)
    subst hdigit
    exact absurd hc (by decide)
  obtain ⟨hevents, hparams⟩ := push_no_one hr.params hone
  have hreceive : r.receive [c] =
      { r with oscParser := (r.oscParser.push (utf8 [c])).1 }.addPart [c] := by
    rw [receive_eq, stripOsc133_char, fromUtf8Lossy_utf8, hevents]
    rfl
  rw [hreceive]
  obtain ⟨hparser, hstarted, hfinished, hexit⟩ :=
    addPart_fields { r with oscParser := (r.oscParser.push (utf8 [c])).1 } [c]
  refine ⟨⟨?_, ?_, ?_, ?_⟩, addPart_flatten _ _⟩
  · rwa [hparser]
  · rw [hstarted]
    exact hr.started
  · rw [hfinished]
    exact hr.finished
  · rw [hexit]
    exact hr.exitCode

theorem hear_byte (hr : Eventless r) (b : UInt8) :
    Eventless (r.hear [b]) ∧ (r.hear [b]).stdoutParts.flatten =
      r.stdoutParts.flatten ++ if isSolid (byteChar b) then [byteChar b] else [] := by
  have hnoise := isNoise_char (byteChar b)
  rw [← fromUtf8Lossy_byte] at hnoise
  by_cases hsolid : isSolid (byteChar b) = true
  · rw [hsolid] at hnoise
    rw [hear_output hnoise, fromUtf8Lossy_byte, if_pos hsolid]
    exact receive_char hr hsolid
  · rw [Bool.not_eq_true] at hsolid
    rw [hsolid] at hnoise
    rw [hear_noise hnoise, hsolid]
    exact ⟨hr, (append_nil _).symm⟩

/-- What comes through of bytes that are read one by one. -/
def solidText (bytes : List UInt8) : List Char :=
  (bytes.filter fun b => isSolid (byteChar b)).map byteChar

/-- Read a byte at a time, no marker is seen, and no digit and no white space is kept. -/
theorem hearAll_bytes (hr : Eventless r) (bytes : List UInt8) :
    Eventless (r.hearAll (bytes.map fun b => [b])) ∧
      (r.hearAll (bytes.map fun b => [b])).stdoutParts.flatten =
        r.stdoutParts.flatten ++ solidText bytes := by
  induction bytes generalizing r with
  | nil => exact ⟨hr, (append_nil _).symm⟩
  | cons b bytes ih =>
    obtain ⟨hb, hpart⟩ := hear_byte hr b
    obtain ⟨hlast, hparts⟩ := ih hb
    rw [map_cons, hearAll_cons hr.finished]
    refine ⟨hlast, ?_⟩
    rw [hparts, hpart, append_assoc, solidText, solidText, filter_cons]
    split
    · rfl
    · rfl

/-- Reads without an escape, whose noise is their white space, are kept as they are. -/
theorem hearAll_plain (hground : r.oscParser.state = .ground)
    (hfinished : r.commandFinished = false) (hesc : ∀ chunk ∈ chunks, escChar ∉ fromUtf8Lossy chunk)
    (hnoise : ∀ chunk ∈ chunks,
      isNoise (fromUtf8Lossy chunk) = Pieces.isBlank isWhitespace (fromUtf8Lossy chunk)) :
    ∃ parts, r.hearAll chunks = { r with stdoutParts := r.stdoutParts ++ parts } ∧ parts.flatten =
      ((chunks.map fromUtf8Lossy).filter fun p => !Pieces.isBlank isWhitespace p).flatten := by
  induction chunks generalizing r with
  | nil =>
    refine ⟨[], ?_, rfl⟩
    rw [append_nil]
    rfl
  | cons chunk chunks ih =>
    have hescs := fun c hc => hesc c (mem_cons_of_mem chunk hc)
    have hnoises := fun c hc => hnoise c (mem_cons_of_mem chunk hc)
    have hchunk := hnoise chunk mem_cons_self
    rw [hearAll_cons hfinished, map_cons]
    cases hblank : Pieces.isBlank isWhitespace (fromUtf8Lossy chunk) with
    | true =>
      rw [hblank] at hchunk
      rw [hear_noise hchunk, filter_cons_of_neg (by simp [hblank])]
      exact ih hground hfinished hescs hnoises
    | false =>
      rw [hblank] at hchunk
      have hne : (fromUtf8Lossy chunk).isEmpty = false := by
        cases htext : fromUtf8Lossy chunk with
        | nil =>
          rw [htext] at hblank
          exact absurd hblank (by decide)
        | cons c text => rfl
      have hpart : r.hear chunk = { r with stdoutParts := r.stdoutParts ++
        [fromUtf8Lossy chunk] } := by
        rw [hear_output hchunk, receive_plain hground (hesc chunk mem_cons_self)]
        exact if_neg (by simp [hne])
      obtain ⟨parts, hall, hflat⟩ := ih (r := r.hear chunk) (by rwa [hpart]) (by rwa [hpart])
        hescs hnoises
      refine ⟨fromUtf8Lossy chunk :: parts, ?_, ?_⟩
      · rw [hall, hpart]
        simp
      · rw [filter_cons_of_pos (by simp [hblank]), flatten_cons, flatten_cons, hflat]

def digit (n : Nat) : UInt8 := UInt8.ofNat (0x30 + n)

/-- What `printf "%s"` writes of an exit code. -/
def decimal (code : UInt8) : List UInt8 :=
  let n := code.toNat
  if n < 10 then [digit n]
  else if n < 100 then [digit (n / 10), digit (n % 10)]
  else [digit (n / 100), digit (n / 10 % 10), digit (n % 10)]

/-- The marker that the prompt command, or the wrapper, writes when a command has ended. -/
def finishMarker (code : UInt8) : List UInt8 :=
  esc :: rightBracket :: (osc133 ++ [0x44, 0x3B] ++ decimal code) ++ [bel]

theorem digit_toNat {n : Nat} (h : n < 10) : (digit n).toNat = 0x30 + n :=
  toNat_ofNat (by omega)

theorem digitValue_digit {n : Nat} (h : n < 10) : digitValue (digit n) = some n := by
  unfold digitValue
  rw [digit_toNat h, if_pos (by omega)]
  congr 1
  omega

theorem mem_decimal (h : b ∈ decimal code) : 0x30 ≤ b.toNat ∧ b.toNat ≤ 0x39 := by
  have hcode := UInt8.toNat_lt code
  unfold decimal at h
  dsimp only at h
  split_ifs at h <;> simp only [mem_cons, not_mem_nil, or_false] at h <;>
    rcases h with rfl | rfl | rfl <;> rw [digit_toNat (by omega)] <;> omega

theorem parseI32_unsigned {rest : List UInt8} (hb : 0x30 ≤ b.toNat) :
    parseI32 (b :: rest) = (parseNumber (b :: rest)).bind fun n => inI32 n := by
  unfold parseI32
  split
  · rename_i heq
    obtain ⟨rfl, -⟩ := List.cons.inj heq
    exact absurd hb (by decide)
  · rename_i heq
    obtain ⟨rfl, -⟩ := List.cons.inj heq
    exact absurd hb (by decide)
  · rfl

theorem parseI32_decimal (code : UInt8) : parseI32 (decimal code) = some (code.toNat : Int) := by
  have hcode := UInt8.toNat_lt code
  have hsmall : inI32 (code.toNat : Int) = some (code.toNat : Int) := if_pos (by omega)
  have hfirst : ∀ n < 10, 0x30 ≤ (digit n).toNat := by
    intro n hn
    rw [digit_toNat hn]
    omega
  unfold decimal
  dsimp only
  split_ifs with hone htwo
  · rw [parseI32_unsigned (hfirst _ hone)]
    simp [parseNumber, parseDigits, digitValue_digit hone, hsmall]
  · rw [parseI32_unsigned (hfirst _ (by omega))]
    have hvalue : code.toNat / 10 * 10 + code.toNat % 10 = code.toNat := by omega
    have htens := digitValue_digit (show code.toNat / 10 < 10 by omega)
    have hones := digitValue_digit (show code.toNat % 10 < 10 by omega)
    simp only [parseNumber, parseDigits, htens, hones, bind_some, Nat.zero_mul, Nat.zero_add,
      hvalue, hsmall]
  · rw [parseI32_unsigned (hfirst _ (by omega))]
    have hvalue : (code.toNat / 100 * 10 + code.toNat / 10 % 10) * 10 + code.toNat % 10 =
        code.toNat := by omega
    have hhundreds := digitValue_digit (show code.toNat / 100 < 10 by omega)
    have htens := digitValue_digit (show code.toNat / 10 % 10 < 10 by omega)
    have hones := digitValue_digit (show code.toNat % 10 < 10 by omega)
    simp only [parseNumber, parseDigits, hhundreds, htens, hones, bind_some, Nat.zero_mul,
      Nat.zero_add, hvalue, hsmall]

theorem length_decimal (code : UInt8) : 0 < (decimal code).length ∧ (decimal code).length ≤ 3 := by
  unfold decimal
  dsimp only
  split_ifs <;> simp

/-- Inside a marker bytes are collected until one ends it. -/
theorem push_params (hstate : p.state = .oscParam) {data : List UInt8}
    (hdata : ∀ b ∈ data, b ≠ esc ∧ b ≠ bel)
    (hlength : p.params.length + data.length ≤ paramBufCap) :
    p.push data = ({ p with params := p.params ++ data }, []) := by
  induction data generalizing p with
  | nil => simp [Parser.push]
  | cons byte data ih =>
    have hbyte := hdata byte mem_cons_self
    rw [length_cons] at hlength
    have hstep : p.pushByte byte = ({ p with params := p.params ++ [byte] }, []) := by
      rw [Parser.pushByte, hstate]
      dsimp only
      rw [if_neg hbyte.2, if_neg hbyte.1, if_pos (by omega)]
    rw [push_cons, hstep, ih (by exact hstate) (fun b hb => hdata b (mem_cons_of_mem byte hb))]
    · simp
    · simp only [length_append, length_singleton]
      omega

theorem dispatch_finished (hparams : p.params = osc133 ++ [0x44, 0x3B] ++ decimal code) :
    p.dispatch = ({ p with zone := .unknown }, [.commandFinished (some code.toNat)]) := by
  obtain ⟨d, digits, hdigits⟩ : ∃ d digits, decimal code = d :: digits := by
    cases hcode : decimal code with
    | nil => exact absurd (length_decimal code).1 (by simp [hcode])
    | cons d digits => exact ⟨d, digits, rfl⟩
  have hparse := parseI32_decimal code
  rw [hdigits] at hparams hparse
  cases p with
  | mk state zone params =>
    dsimp only at hparams
    subst hparams
    have hdispatch : (Parser.mk state zone (osc133 ++ [0x44, 0x3B] ++ d :: digits)).dispatch =
        (⟨state, .unknown, osc133 ++ [0x44, 0x3B] ++ d :: digits⟩,
          [.commandFinished (parseI32 (d :: digits))]) := rfl
    rw [hdispatch, hparse]

/-- From where no marker is under way, the marker of the end is one event. -/
theorem push_finishMarker (hground : p.state = .ground) (code : UInt8) :
    (p.push (finishMarker code)).2 = [.commandFinished (some code.toNat)] := by
  let q : Parser := { p with state := .oscParam, params := [] }
  let text := osc133 ++ [0x44, 0x3B] ++ decimal code
  have hdata : ∀ b ∈ text, b ≠ esc ∧ b ≠ bel := by
    intro b hb
    have hfixed : ∀ b ∈ osc133 ++ [0x44, 0x3B], b ≠ esc ∧ b ≠ bel :=
      forall_iff_forall_mem.mp (by decide)
    rcases mem_append.mp hb with hb | hb
    · exact hfixed b hb
    · have hrange := mem_decimal hb
      constructor
      · rintro rfl
        exact absurd hrange (by decide)
      · rintro rfl
        exact absurd hrange (by decide)
  have hlength : q.params.length + text.length ≤ paramBufCap := by
    have h := (length_decimal code).2
    have htext : text.length = 6 + (decimal code).length := by
      simp only [text, osc133, length_append, length_cons, length_nil]
    show 0 + text.length ≤ 64
    omega
  have hopen : p.push [esc, rightBracket] = (q, []) := by
    rw [push_cons, Parser.pushByte, hground]
    rfl
  have hcollect := push_params (p := q) rfl hdata hlength
  have hdispatch := dispatch_finished (p := { q with params := q.params ++ text })
    (show q.params ++ text = osc133 ++ [0x44, 0x3B] ++ decimal code from rfl)
  have hclose : (Parser.push { q with params := q.params ++ text } [bel]).2 =
      [.commandFinished (some code.toNat)] := by
    have hbyte : Parser.pushByte { q with params := q.params ++ text } bel =
      (Parser.moveTo (Parser.dispatch { q with params := q.params ++ text }).1 .ground,
        (Parser.dispatch { q with params := q.params ++ text }).2) := rfl
    rw [push_cons, hbyte, hdispatch]
    rfl
  have hmarker : finishMarker code = [esc, rightBracket] ++ (text ++ [bel]) := rfl
  rw [hmarker, push_append, hopen, push_append, hcollect]
  exact hclose

theorem mem_finishMarker (h : b ∈ finishMarker code) :
    b ∈ [esc, rightBracket, 0x31, 0x33, 0x3B, 0x44, bel] ∨ 0x30 ≤ b.toNat ∧ b.toNat ≤ 0x39 := by
  have hfixed : ∀ b ∈ [esc, rightBracket] ++ (osc133 ++ [0x44, 0x3B]),
      b ∈ [esc, rightBracket, 0x31, 0x33, 0x3B, 0x44, bel] :=
    forall_iff_forall_mem.mp (by decide)
  have hmarker : finishMarker code =
      [esc, rightBracket] ++ (osc133 ++ [0x44, 0x3B]) ++ (decimal code ++ [bel]) := rfl
  rw [hmarker] at h
  rcases mem_append.mp h with h | h
  · exact .inl (hfixed b h)
  · rcases mem_append.mp h with h | h
    · exact .inr (mem_decimal h)
    · left
      rw [mem_singleton.mp h]
      decide

/-- The marker of the end, read on its own, is no noise and finishes the command. -/
theorem hear_finishMarker (hground : r.oscParser.state = .ground) (code : UInt8) :
    (r.hear (finishMarker code)).exitCode = some (code.toNat : Int) ∧
      (r.hear (finishMarker code)).commandFinished = true := by
  have hascii : ∀ b ∈ finishMarker code, b.toNat < 0x80 := by
    intro b hb
    have hfixed : ∀ b ∈ [esc, rightBracket, 0x31, 0x33, 0x3B, 0x44, bel], b.toNat < 0x80 :=
      forall_iff_forall_mem.mp (by decide)
    rcases mem_finishMarker hb with hb | hb
    · exact hfixed b hb
    · omega
  have hlossy := fromUtf8Lossy_apart (apart_ascii hascii)
  have hutf8 := utf8_ascii hascii
  have hblank : ' ' ∉ fromUtf8Lossy (finishMarker code) := by
    intro hmem
    have hbyte : (0x20 : UInt8) ∈ finishMarker code := by
      rw [← hutf8, ← hlossy]
      exact mem_flatMap.mpr ⟨' ', hmem, by decide⟩
    rcases mem_finishMarker hbyte with hb | hb
    · exact absurd hb (by decide)
    · exact absurd hb (by decide)
  have hesc : escChar ∈ fromUtf8Lossy (finishMarker code) :=
    mem_fromUtf8Lossy (b := esc) (by decide) mem_cons_self
  have hnoise : isNoise (fromUtf8Lossy (finishMarker code)) = false := by
    rw [isNoise_of_not_debug (holds_of_not_mem (c := ' ') (by decide) hblank)
      (holds_of_not_mem (c := ' ') (by decide) hblank)]
    apply all_eq_false.mpr
    exact ⟨escChar, mem_trimmed hesc (by decide), by decide⟩
  have hevents := push_finishMarker hground code
  rw [hear_output hnoise, receive_eq, hlossy, hutf8, hevents]
  obtain ⟨-, -, hfinished, hexit⟩ := addPart_fields
    ({ r with oscParser := (r.oscParser.push (finishMarker code)).1 }.applyOsc133Events
      [.commandFinished (some code.toNat)]) (fromUtf8Lossy (stripOsc133 (finishMarker code)))
  rw [hfinished, hexit]
  exact ⟨rfl, rfl⟩

end ColossalCode.Pty
