import ColossalCode.Protocol.Spec

/-! JSON values as `serde_json` prints them; how it prints a number is left open. -/
namespace ColossalCode.Protocol
open String

/-- A character within the quotes of a string. -/
def escaped (c : Char) : List Char :=
  let backslash := Char.ofNat 0x5C
  match c.toNat with
  | 0x22 | 0x5C => [backslash, c]
  | 0x08 => [backslash, 'b']
  | 0x09 => [backslash, 't']
  | 0x0A => [backslash, 'n']
  | 0x0C => [backslash, 'f']
  | 0x0D => [backslash, 'r']
  | n => if n < 0x20 then [backslash, 'u', '0', '0', (n / 16).digitChar, (n % 16).digitChar] else [c]

def quoted (s : String) : String :=
  let quote := ofList [Char.ofNat 0x22]
  quote ++ ofList (s.toList.flatMap escaped) ++ quote

section Printed

variable (printNumber : String → String)

mutual

def printed : Value → String
  | .null => "null"
  | .bool b => toString b
  | .number literal => printNumber literal
  | .string s => quoted s
  | .array items => "[" ++ Text.join "," (printedItems items) ++ "]"
  | .object fields => "\x7b" ++ Text.join "," (printedFields fields) ++ "\x7d"

def printedItems : List Value → List String
  | [] => []
  | item :: items => printed item :: printedItems items

def printedFields : List (String × Value) → List String
  | [] => []
  | (key, value) :: fields => (quoted key ++ ":" ++ printed value) :: printedFields fields

end

/-- `serde_json::to_string` of a list of values. -/
def printedArray (items : List Value) : String := printed printNumber (.array items)

end Printed

theorem escaped_length (c : Char) : 1 ≤ (escaped c).length := by
  unfold escaped
  dsimp only
  split <;> try split
  all_goals exact Nat.le_add_left 1 _

theorem quoted_length (s : String) : s.length + 2 ≤ (quoted s).length := by
  have hchars : ∀ cs : List Char, cs.length ≤ (cs.flatMap escaped).length := by
    intro cs
    induction cs with
    | nil => exact Nat.le_refl 0
    | cons c cs ih =>
      have hc := escaped_length c
      rw [List.flatMap_cons, List.length_append, List.length_cons]
      omega
  have hs := hchars s.toList
  rw [quoted, length_append, length_append, length_ofList, length_ofList]
  rw [length_toList] at hs
  change s.length + 2 ≤ 1 + (s.toList.flatMap escaped).length + 1
  omega

theorem join_length {sep text : String} {texts : List String} (h : text ∈ texts) :
    text.length ≤ (Text.join sep texts).length := by
  induction texts with
  | nil => cases h
  | cons first texts ih =>
    cases texts with
    | nil => exact (List.mem_singleton.mp h) ▸ Nat.le_refl _
    | cons second texts =>
      rw [Text.join, length_append, length_append]
      · rcases List.mem_cons.mp h with rfl | h
        · omega
        · have hrest := ih h
          omega
      · intro hnil
        cases hnil

section Length

variable {printNumber : String → String} {items : List Value} {s : String}

theorem printed_mem (h : .string s ∈ items) : quoted s ∈ printedItems printNumber items := by
  induction items with
  | nil => cases h
  | cons item items ih =>
    rw [printedItems]
    rcases List.mem_cons.mp h with rfl | h
    · rw [printed]
      exact List.mem_cons_self
    · exact List.mem_cons_of_mem _ (ih h)

theorem length_lt_printedArray (h : .string s ∈ items) :
    s.length < (printedArray printNumber items).length := by
  have hquoted := quoted_length s
  have hjoin : (quoted s).length ≤ (Text.join "," (printedItems printNumber items)).length :=
    join_length (printed_mem h)
  rw [printedArray, printed, length_append, length_append]
  omega

end Length

end ColossalCode.Protocol
