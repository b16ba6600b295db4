import ColossalCode.Escaping.Codes
import ColossalCode.Ui.ToolCalls
import ColossalCode.ToolsBinary.CommandLine

/-! The events of the transcript as lines of text, and the lines read again. -/
namespace ColossalCode.Ui
open List

open Escaping
open Text (startsWith)

/-- How the floating point numbers of a line are printed, with six decimals, and read. -/
structure Floats (φ : Type) where
  print : φ → String
  parse : String → Option φ

/-- A number is printed without delimiters, and so that some number is read again. -/
structure Floats.Lawful {φ : Type} (floats : Floats φ) : Prop where
  bar : ∀ x, '|' ∉ (floats.print x).toList
  bracket : ∀ x, '[' ∉ (floats.print x).toList
  read : ∀ x, (floats.parse (floats.print x)).isSome

inductive UiMessageEvent (φ : Type) where
  | thinkingAnimation
  | command (content : String)
  | generationStats (tokensPerSec : φ) (completionTokens promptTokens : UInt64)
      (timeToFirstTokenSec : φ) (stopReason : String)
  | toolCallStarted (toolName args : String)
  | toolCallCompleted (toolName args result : String) (rawArguments : Option String)
  deriving DecidableEq

variable {φ : Type}

namespace UiMessageEvent

/-- The event without its floating point fields. -/
def withoutFloats : UiMessageEvent φ → UiMessageEvent Unit
  | thinkingAnimation => .thinkingAnimation
  | command content => .command content
  | generationStats _ completionTokens promptTokens _ stopReason =>
    .generationStats () completionTokens promptTokens () stopReason
  | toolCallStarted toolName args => .toolCallStarted toolName args
  | toolCallCompleted toolName args result rawArguments =>
    .toolCallCompleted toolName args result rawArguments

end UiMessageEvent

def printGenerationStats (floats : Floats φ) (tokensPerSec : φ)
    (completionTokens promptTokens : UInt64) (timeToFirstTokenSec : φ) (stopReason : String) :
    String :=
  "[GEN_STATS:" ++ floats.print tokensPerSec ++ "|" ++ toString completionTokens.toNat ++ "|" ++
    toString promptTokens.toNat ++ "|" ++ floats.print timeToFirstTokenSec ++ "|" ++
    escapeField stopReason ++ "]"

def UiMessageEvent.toMessage (floats : Floats φ) : UiMessageEvent φ → String
  | .thinkingAnimation => Ui.thinkingAnimation
  | .command content => commandEvent content
  | .generationStats tokensPerSec completionTokens promptTokens timeToFirstTokenSec stopReason =>
    printGenerationStats floats tokensPerSec completionTokens promptTokens timeToFirstTokenSec
      stopReason
  | .toolCallStarted toolName args => Ui.toolCallStarted toolName args
  | .toolCallCompleted toolName args result rawArguments =>
    Ui.toolCallCompleted toolName args result (rawArguments.getD "")

/-- `trim_start_matches`, then `trim_end_matches(']')`. -/
def payload (head message : String) : List Char :=
  ((trimStartMatches head.toList message.length message.toList).reverse.dropWhile
    (· == ']')).reverse

def parseTokens (part : List Char) : Option UInt64 :=
  (ToolsBinary.parseUsize (String.ofList part)).map UInt64.ofNat

def parseGenerationStats (floats : Floats φ) (message : String) : Option (UiMessageEvent φ) :=
  match splitn '|' 5 (payload "[GEN_STATS:" message) with
  | [tps, comp, prompt, ttft, reason] => do
    let tokensPerSec ← floats.parse (String.ofList tps)
    let completionTokens ← parseTokens comp
    let promptTokens ← parseTokens prompt
    let timeToFirstTokenSec ← floats.parse (String.ofList ttft)
    return .generationStats tokensPerSec completionTokens promptTokens timeToFirstTokenSec
      (unescapeField (String.ofList reason))
  | _ => none

def ToolRow.event : ToolRow → UiMessageEvent φ
  | .started toolName args => .toolCallStarted toolName args
  | .completed toolName args result rawArguments =>
    .toolCallCompleted toolName args result rawArguments

/-- A line that starts like statistics is not tried as a tool call. -/
def UiMessageEvent.parse (floats : Floats φ) (message : String) : Option (UiMessageEvent φ) :=
  if message = Ui.thinkingAnimation then some .thinkingAnimation
  else if startsWith message "[COMMAND:" then
    some (.command (Text.trim (String.ofList (payload "[COMMAND:" message))))
  else if startsWith message "[GEN_STATS:" then parseGenerationStats floats message
  else (readToolCall message).map ToolRow.event

theorem replaceChars_pass (part new : List Char) (xs rest : List Char) :
    replaceChars part new xs.length (xs ++ rest) = replaceChars part new 0 rest := by
  induction xs with
  | nil => rfl
  | cons c xs ih => exact ih

theorem replaceChars_replaces : Replaces fun part new text => replaceChars part new 0 text where
  nil _ _ := rfl
  hit part new rest hpart := by
    cases part with
    | nil => exact absurd rfl hpart
    | cons c part =>
      have hstart : (c :: part).isPrefixOf (c :: (part ++ rest)) = true :=
        isPrefixOf_iff_prefix.mpr (prefix_append (c :: part) rest)
      rw [cons_append, replaceChars, if_pos hstart, length_cons, Nat.add_sub_cancel,
        replaceChars_pass]
  miss part new c rest hstart := by
    rw [replaceChars, if_neg]
    intro hyes
    exact hstart (List.isPrefixOf_iff_prefix.mp hyes)

theorem replaceChars_single (c : Char) (new text : List Char) :
    replaceChars [c] new 0 text = text.flatMap fun d => if d = c then new else [d] := by
  induction text with
  | nil => rfl
  | cons d text ih =>
    rw [flatMap_cons, ← ih]
    by_cases hd : d = c
    · subst hd
      rw [if_pos rfl]
      exact replaceChars_replaces.hit [d] new text (cons_ne_nil d [])
    · rw [if_neg hd]
      refine replaceChars_replaces.miss [c] new d text ?_
      intro hstart
      exact hd (cons_prefix_cons.mp hstart).1.symm

def bracketCode : Code Char := ⟨']', "u\x7b005D\x7d".toList⟩

def barCode : Code Char := ⟨'|', "u\x7b007C\x7d".toList⟩

/-- In the order in which they are taken back. -/
def fieldCodes : List (Code Char) := [bracketCode, barCode]

theorem fieldCodes_readable : Escaping.Readable '\\' fieldCodes where
  body := by decide
  unmarked := by decide
  symbol_ne := by decide
  free := by decide
  apart := by decide
  unique := by decide

theorem escapeField_eq (value : String) :
    (escapeField value).toList = escape '\\' fieldCodes value.toList := by
  simp only [escapeField, replace, String.toList_ofList, escape]
  change replaceChars [']'] _ 0 (replaceChars ['|'] _ 0 (replaceChars ['\\'] _ 0 _)) = _
  rw [replaceChars_single, replaceChars_single, replaceChars_single, flatMap_assoc,
    flatMap_assoc]
  congr 1
  funext c
  by_cases hmark : c = '\\'
  · subst hmark
    decide
  · by_cases hbar : c = '|'
    · subst hbar
      decide
    · by_cases hbracket : c = ']'
      · subst hbracket
        decide
      · have hcodes : ∀ code ∈ fieldCodes, code.symbol ≠ c := by
          intro code hcode
          rcases mem_cons.mp hcode with rfl | hcode
          · exact Ne.symm hbracket
          · obtain rfl := mem_singleton.mp hcode
            exact Ne.symm hbar
        rw [escapeSymbol_plain hmark hcodes, if_neg hmark, flatMap_singleton, if_neg hbar,
          flatMap_singleton, if_neg hbracket]

theorem unescapeField_eq (text : List Char) :
    (unescapeField (String.ofList text)).toList =
      unescape (fun part new text => replaceChars part new 0 text) '\\' fieldCodes text := by
  simp only [unescapeField, replace, String.toList_ofList]
  rfl

/-- The field holds no text that is read as an escaped delimiter. -/
def Literal (value : String) : Prop := ∀ code ∈ fieldCodes, ¬ code.text '\\' <:+: value.toList

theorem unescape_field_iff (value : String) :
    unescapeField (escapeField value) = value ↔ Literal value := by
  have hround : _ ↔ Literal value :=
    unescape_escape_iff replaceChars_replaces fieldCodes_readable (by decide) value.toList
  rw [← hround, ← escapeField_eq, ← unescapeField_eq, String.ofList_toList, String.toList_inj]

theorem unescape_field_length (text : List Char) :
    (unescapeField (String.ofList (escape '\\' fieldCodes text))).length ≤ text.length := by
  rw [← String.length_toList, unescapeField_eq]
  exact unescape_escape_length replaceChars_replaces fieldCodes_readable (by decide) text

/-- No delimiter is left in an escaped field. -/
theorem field_plain (text : List Char) :
    '|' ∉ escape '\\' fieldCodes text ∧ ']' ∉ escape '\\' fieldCodes text := by
  have hsymbol : ∀ c, '|' ∉ escapeSymbol '\\' fieldCodes c ∧
      ']' ∉ escapeSymbol '\\' fieldCodes c := by
    intro c
    rcases escapeSymbol_cases '\\' fieldCodes c with ⟨_, hc⟩ | ⟨_, hcodes, hc⟩ |
      ⟨code, hcode, _, _, hc⟩
    · rw [hc]
      decide
    · have hbar : '|' ≠ c := hcodes barCode (by decide)
      have hbracket : ']' ≠ c := hcodes bracketCode (by decide)
      rw [hc]
      exact ⟨by simpa using hbar, by simpa using hbracket⟩
    · have htext : ∀ code ∈ fieldCodes, '|' ∉ code.text '\\' ∧ ']' ∉ code.text '\\' := by
        decide
      rw [hc]
      exact htext code hcode
  constructor
  · intro hmem
    obtain ⟨c, _, hc⟩ := mem_flatMap.mp hmem
    exact (hsymbol c).1 hc
  · intro hmem
    obtain ⟨c, _, hc⟩ := mem_flatMap.mp hmem
    exact (hsymbol c).2 hc

end ColossalCode.Ui
