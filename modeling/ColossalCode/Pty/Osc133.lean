import ColossalCode.Backend.Utf8

/-! The parser of the shell's OSC 133 markers. -/
namespace ColossalCode.Pty

def esc : UInt8 := 0x1B
def bel : UInt8 := 0x07
def backslash : UInt8 := 0x5C
def rightBracket : UInt8 := 0x5D
def paramBufCap : Nat := 64

inductive ParserState where
  | ground
  | esc
  | oscParam
  | oscEsc
  deriving DecidableEq, Repr

inductive Event where
  | promptStart
  | commandStart
  | commandExecuted
  | commandFinished (exitCode : Option Int)
  deriving DecidableEq, Repr

inductive Zone where
  | unknown
  | prompt
  | input
  | output
  deriving DecidableEq, Repr

structure Parser where
  state : ParserState
  zone : Zone
  params : List UInt8
  deriving DecidableEq, Repr

def Parser.new : Parser := ⟨.ground, .unknown, []⟩

/-- The bytes of `133;`. -/
def osc133 : List UInt8 := [0x31, 0x33, 0x33, 0x3B]

def digitValue (b : UInt8) : Option Nat :=
  if 0x30 ≤ b.toNat ∧ b.toNat ≤ 0x39 then some (b.toNat - 0x30) else none

def parseDigits (value : Nat) : List UInt8 → Option Nat
  | [] => some value
  | b :: rest => (digitValue b).bind fun d => parseDigits (value * 10 + d) rest

/-- Digits, at least one. -/
def parseNumber : List UInt8 → Option Nat
  | [] => none
  | bytes => parseDigits 0 bytes

def inI32 (n : Int) : Option Int :=
  if -2147483648 ≤ n ∧ n ≤ 2147483647 then some n else none

/-- `str::parse::<i32>`. -/
def parseI32 : List UInt8 → Option Int
  | 0x2B :: digits => (parseNumber digits).bind fun n => inI32 n
  | 0x2D :: digits => (parseNumber digits).bind fun n => inI32 (-n)
  | digits => (parseNumber digits).bind fun n => inI32 n

/-- The marker whose bytes after `133;` are `command` and `rest`. -/
def marker (command : UInt8) (rest : List UInt8) : Option (Zone × Event) :=
  if command = 0x41 then some (.prompt, .promptStart)
  else if command = 0x42 then some (.input, .commandStart)
  else if command = 0x43 then some (.output, .commandExecuted)
  else if command = 0x44 then
    let exitCode := match rest with
      | 0x3B :: code :: more => parseI32 (code :: more)
      | _ => none
    some (.unknown, .commandFinished exitCode)
  else none

def Parser.dispatch (p : Parser) : Parser × List Event :=
  match p.params with
  | a :: b :: c :: d :: command :: rest =>
    if [a, b, c, d] = osc133 then
      match marker command rest with
      | some (zone, event) => ({ p with zone }, [event])
      | none => (p, [])
    else (p, [])
  | _ => (p, [])

def Parser.moveTo (p : Parser) (state : ParserState) : Parser := { p with state }

def Parser.pushByte (p : Parser) (byte : UInt8) : Parser × List Event :=
  match p.state with
  | .ground => (if byte = esc then p.moveTo .esc else p, [])
  | .esc =>
    (if byte = rightBracket then { p with state := .oscParam, params := [] }
      else p.moveTo .ground, [])
  | .oscParam =>
    if byte = bel then (p.dispatch.1.moveTo .ground, p.dispatch.2)
    else if byte = esc then (p.moveTo .oscEsc, [])
    else if p.params.length < paramBufCap then ({ p with params := p.params ++ [byte] }, [])
    else (p, [])
  | .oscEsc =>
    if byte = backslash then (p.dispatch.1.moveTo .ground, p.dispatch.2)
    else (p.moveTo .ground, [])

def Parser.push (p : Parser) : List UInt8 → Parser × List Event
  | [] => (p, [])
  | byte :: data =>
    let (q, events) := p.pushByte byte
    let (r, later) := q.push data
    (r, events ++ later)

/-- Whether the bytes at hand belong to a marker that is being left out. -/
inductive Stripping where
  | outside
  | inside
  /-- Before the backslash that ends a marker. -/
  | closing

def stripFrom : Stripping → List UInt8 → List UInt8
  | _, [] => []
  | .outside, b :: rest =>
    if b = esc ∧ (rightBracket :: osc133).isPrefixOf rest then stripFrom .inside rest
    else b :: stripFrom .outside rest
  | .inside, b :: rest =>
    if b = bel then stripFrom .outside rest
    else if b = esc ∧ [backslash].isPrefixOf rest then stripFrom .closing rest
    else stripFrom .inside rest
  | .closing, _ :: rest => stripFrom .outside rest

def stripOsc133 (input : List UInt8) : List UInt8 := stripFrom .outside input

example : Parser.new.push [0x1B, 0x5D, 0x31, 0x33, 0x33, 0x3B, 0x44, 0x3B, 0x31, 0x32, 0x37, 0x07] =
    (⟨.ground, .unknown, [0x31, 0x33, 0x33, 0x3B, 0x44, 0x3B, 0x31, 0x32, 0x37]⟩,
      [.commandFinished (some 127)]) := by decide

theorem push_cons (p : Parser) (byte : UInt8) (data : List UInt8) :
    p.push (byte :: data) = (((p.pushByte byte).1.push data).1,
      (p.pushByte byte).2 ++ ((p.pushByte byte).1.push data).2) := rfl

theorem push_append (p : Parser) (a b : List UInt8) :
    p.push (a ++ b) = (((p.push a).1.push b).1, (p.push a).2 ++ ((p.push a).1.push b).2) := by
  induction a generalizing p with
  | nil => rfl
  | cons byte a ih =>
    rw [List.cons_append, push_cons, ih, push_cons, List.append_assoc]

variable {data : List UInt8} {p : Parser}

/-- Without an escape the parser stays where it is. -/
theorem push_ground (hp : p.state = .ground) (h : esc ∉ data) :
    p.push data = (p, []) := by
  induction data with
  | nil => rfl
  | cons byte data ih =>
    rw [List.mem_cons, not_or] at h
    have hbyte : p.pushByte byte = (p, []) := by
      rw [Parser.pushByte, hp]
      exact Prod.ext (if_neg (Ne.symm h.1)) rfl
    rw [push_cons, hbyte, ih h.2]
    rfl

/-- A marker begins with the digit 1. -/
theorem dispatch_events (h : 0x31 ∉ p.params) : p.dispatch = (p, []) := by
  unfold Parser.dispatch
  split
  · rename_i a b c d command rest heq
    rw [if_neg]
    intro hosc
    have ha : a = 0x31 := (List.cons.inj hosc).1
    apply h
    rw [heq, ha]
    exact List.mem_cons_self
  · rfl

theorem pushByte_no_one (hp : 0x31 ∉ p.params) {byte : UInt8} (hb : byte ≠ 0x31) :
    (p.pushByte byte).2 = [] ∧ 0x31 ∉ (p.pushByte byte).1.params := by
  have hd := dispatch_events hp
  unfold Parser.pushByte
  split
  · refine ⟨rfl, ?_⟩
    split
    · exact hp
    · exact hp
  · refine ⟨rfl, ?_⟩
    split
    · exact List.not_mem_nil
    · exact hp
  · rw [hd]
    split_ifs
    · exact ⟨rfl, hp⟩
    · exact ⟨rfl, hp⟩
    · refine ⟨rfl, ?_⟩
      intro hmem
      rcases List.mem_append.mp hmem with hmem | hmem
      · exact hp hmem
      · exact hb (List.mem_singleton.mp hmem).symm
    · exact ⟨rfl, hp⟩
  · rw [hd]
    split_ifs
    · exact ⟨rfl, hp⟩
    · exact ⟨rfl, hp⟩

/-- Where no digit 1 is read there is no marker. -/
theorem push_no_one (hp : 0x31 ∉ p.params) (h : 0x31 ∉ data) :
    (p.push data).2 = [] ∧ 0x31 ∉ (p.push data).1.params := by
  induction data generalizing p with
  | nil => exact ⟨rfl, hp⟩
  | cons byte data ih =>
    rw [List.mem_cons, not_or] at h
    obtain ⟨hevents, hparams⟩ := pushByte_no_one hp (Ne.symm h.1)
    obtain ⟨hlater, hlast⟩ := ih hparams h.2
    rw [push_cons]
    refine ⟨?_, hlast⟩
    rw [hevents, hlater]
    rfl

theorem stripOsc133_of_no_esc {input : List UInt8}
    (h : esc ∉ input) : stripOsc133 input = input := by
  unfold stripOsc133
  induction input with
  | nil => rfl
  | cons b rest ih =>
    rw [List.mem_cons, not_or] at h
    rw [stripFrom, if_neg, ih h.2]
    intro hb
    exact h.1 hb.1.symm

end ColossalCode.Pty
