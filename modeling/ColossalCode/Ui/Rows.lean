import ColossalCode.Protocol.Text

/-! The rows of the transcript, each with its text, its type and whose responses it is made of. -/
namespace ColossalCode.Ui

open Text (startsWith)

inductive MessageType where
  | user
  | agent
  deriving DecidableEq

/-- The writers of a row are the turns that its pieces are responses of; a piece that is not the
response of a turn has none. -/
structure Row where
  text : String
  type : MessageType
  writers : List (Option Nat)
  deriving DecidableEq

/-- A row that no response has a part in. -/
def Row.agent (text : String) : Row := ⟨text, .agent, [none]⟩

def Row.user (text : String) : Row := ⟨text, .user, [none]⟩

/-- `str::replace`; so many characters of a match are still to be passed. -/
def replaceChars (part new : List Char) : Nat → List Char → List Char
  | _, [] => []
  | n + 1, _ :: rest => replaceChars part new n rest
  | 0, c :: rest =>
    if part.isPrefixOf (c :: rest) then new ++ replaceChars part new (part.length - 1) rest
    else c :: replaceChars part new 0 rest

def replace (text part new : String) : String :=
  String.ofList (replaceChars part.toList new.toList 0 text.toList)

def escapeField (value : String) : String :=
  replace (replace (replace value "\\" "\\\\") "|" "\\u\x7b007C\x7d") "]" "\\u\x7b005D\x7d"

def unescapeField (value : String) : String :=
  replace (replace (replace value "\\u\x7b005D\x7d" "]") "\\u\x7b007C\x7d" "|") "\\\\" "\\"

/-- `str::trim_start_matches`, with enough steps for the length of the text. -/
def trimStartMatches (part : List Char) : Nat → List Char → List Char
  | 0, chars => chars
  | n + 1, chars =>
    if part.isPrefixOf chars then trimStartMatches part n (chars.drop part.length) else chars

def thinkingAnimation : String := "[THINKING_ANIMATION]"

def toolCallStarted (toolName args : String) : String :=
  "[TOOL_CALL_STARTED:" ++ escapeField toolName ++ "|" ++ escapeField args ++ "]"

def toolCallCompleted (toolName args result rawArguments : String) : String :=
  "[TOOL_CALL_COMPLETED:" ++ escapeField toolName ++ "|" ++ escapeField args ++ "|" ++
    escapeField result ++ "|" ++ escapeField rawArguments ++ "]"

def commandEvent (content : String) : String := "[COMMAND: " ++ content ++ "]"

/-- `UiMessageEvent::parse` where it reads a started tool call. -/
def parseToolCallStarted (message : String) : Option (String × String) :=
  if startsWith message "[TOOL_CALL_STARTED:" then
    let chars := trimStartMatches "[TOOL_CALL_STARTED:".toList message.length message.toList
    let inner := (chars.reverse.dropWhile (· == ']')).reverse
    match inner.dropWhile (· != '|') with
    | [] => none
    | _ :: args =>
      some (unescapeField (String.ofList (inner.takeWhile (· != '|'))),
        unescapeField (String.ofList args))
  else none

def formatThinkingTreeLine (summary : String) (isFinal : Bool) : String :=
  (if isFinal then "└──" else "├──") ++ " " ++ summary

def isTreeLine (message : String) : Bool := startsWith message "├── " || startsWith message "└── "

/-- A row that a response is not appended to. -/
def isEventLine (message : String) : Bool :=
  startsWith message "[" || startsWith message " ⎿ " || message == "● Interrupted" ||
    isTreeLine message

/-- A row that a compaction takes for its summary. -/
def Row.plain (row : Row) : Bool :=
  row.type == .agent && !startsWith row.text "[" && !startsWith row.text " ⎿" &&
    !startsWith row.text "●"

def findLatestCompactionSummary (rows : List Row) : Option Row := rows.reverse.find? Row.plain

theorem startsWith_self (text : String) : startsWith text text = true := by
  rw [startsWith, List.isPrefixOf_iff_prefix]

theorem startsWith_append {text start : String} (more : String) (h : startsWith text start = true) :
    startsWith (text ++ more) start = true := by
  rw [startsWith, List.isPrefixOf_iff_prefix] at h ⊢
  rw [String.toList_append]
  exact h.trans (List.prefix_append _ _)

def Row.isPlaceholder (row : Row) : Bool := row.text == thinkingAnimation

def placeholder : Row := .agent thinkingAnimation

/-- The last element with the property is taken out. -/
def removeLast {α : Type*} (p : α → Bool) (xs : List α) : List α := (xs.reverse.eraseP p).reverse

def removeThinkingAnimationPlaceholder (rows : List Row) : List Row :=
  removeLast Row.isPlaceholder rows

def endsWithPlaceholder (rows : List Row) : Bool := rows.getLast?.any Row.isPlaceholder

def ensureThinkingAnimationPlaceholder (rows : List Row) (thinkingIndicatorActive : Bool) :
    List Row :=
  if thinkingIndicatorActive && !endsWithPlaceholder rows then rows ++ [placeholder] else rows

/-- The placeholder goes when it is the last row. -/
def popPlaceholder (rows : List Row) : List Row :=
  if endsWithPlaceholder rows then rows.dropLast else rows

/-- A row with a new text is no response's any more. -/
def Row.rewrite (row : Row) (text : String) : Row :=
  if text = row.text then row else { row with text, writers := [none] }

/-- The last row that reads as wanted gets another text. -/
def rewriteLast (reads : String → Option String) : List Row → List Row
  | [] => []
  | row :: rows =>
    if rows.any fun row => (reads row.text).isSome then row :: rewriteLast reads rows
    else ((reads row.text).elim row row.rewrite) :: rows

/-- A response goes into a new row, or to the end of the last one. -/
def appendResponse (rows : List Row) (turn : Option Nat) (text : String) : List Row :=
  match rows.getLast? with
  | none => [⟨text, .agent, [turn]⟩]
  | some row => rows.dropLast ++
      [{ row with text := row.text ++ text, writers := row.writers ++ [turn] }]

end ColossalCode.Ui
