import ColossalCode.Protocol.Spec
import ColossalCode.Pty.Lines

/-! Slices of texts at bytes, which panic within a character and past the end. -/
namespace Text
open List Option

def byteLength : List Char → Nat
  | [] => 0
  | c :: text => c.utf8Size + byteLength text

/-- A text cut at a byte that begins a character or ends the text. -/
def cutAt : List Char → Nat → Option (List Char × List Char)
  | text, 0 => some ([], text)
  | [], _ + 1 => none
  | c :: text, bytes + 1 =>
    if c.utf8Size ≤ bytes + 1 then
      (cutAt text (bytes + 1 - c.utf8Size)).map fun cut => (c :: cut.1, cut.2)
    else none

/-- `&text[..bytes]` -/
def sliceTo (text : List Char) (bytes : Nat) : Option (List Char) := (cutAt text bytes).map Prod.fst

/-- `&text[bytes..]` -/
def sliceFrom (text : List Char) (bytes : Nat) : Option (List Char) :=
  (cutAt text bytes).map Prod.snd

/-- The bytes at which a part begins. -/
def finds (part : List Char) : List Char → List Nat
  | [] => if part.isEmpty then [0] else []
  | c :: text =>
    (if part.isPrefixOf (c :: text) then [0] else []) ++ (finds part text).map (c.utf8Size + ·)

/-- `str::find` -/
def find (part text : List Char) : Option Nat := (finds part text).head?

/-- `str::rfind` -/
def rfind (part text : List Char) : Option Nat := (finds part text).getLast?

variable {part text front back : List Char} {i : Nat}

theorem byteLength_append (front back : List Char) :
    byteLength (front ++ back) = byteLength front + byteLength back := by
  induction front with
  | nil => simp [byteLength]
  | cons c front ih => simp [byteLength, ih, Nat.add_assoc]

theorem cutAt_append (front back : List Char) :
    cutAt (front ++ back) (byteLength front) = some (front, back) := by
  induction front with
  | nil => rw [nil_append, byteLength, cutAt]
  | cons c front ih =>
    have hsize := c.utf8Size_pos
    obtain ⟨n, hn⟩ := Nat.exists_eq_add_of_lt (Nat.add_pos_left hsize (byteLength front))
    rw [cons_append, byteLength, hn, cutAt, if_pos (by omega),
      show 0 + n + 1 - c.utf8Size = byteLength front by omega, ih, Option.map_some]

/-- A text can be cut after its parts only. -/
theorem cutAt_eq_some_iff {bytes : Nat} :
    cutAt text bytes = some (front, back) ↔ text = front ++ back ∧ byteLength front = bytes := by
  constructor
  · intro h
    fun_induction cutAt text bytes generalizing front back with
    | case1 text =>
      cases h
      exact ⟨rfl, rfl⟩
    | case2 bytes => cases h
    | case3 c text bytes hsize ih =>
      obtain ⟨⟨cut, rest⟩, hcut, heq⟩ := Option.map_eq_some_iff.mp h
      cases heq
      obtain ⟨rfl, hlength⟩ := ih hcut
      refine ⟨rfl, ?_⟩
      change c.utf8Size + byteLength cut = bytes + 1
      change byteLength cut = _ at hlength
      omega
    | case4 => cases h
  · rintro ⟨rfl, rfl⟩
    exact cutAt_append front back

theorem sliceTo_eq_some_iff {bytes : Nat} :
    sliceTo text bytes = some front ↔ ∃ back, text = front ++ back ∧ byteLength front = bytes := by
  simp [sliceTo, ← cutAt_eq_some_iff]

/-- A part that is found begins between two characters. -/
theorem mem_finds (h : i ∈ finds part text) :
    ∃ front back, text = front ++ part ++ back ∧ i = byteLength front := by
  induction text generalizing i with
  | nil =>
    cases part <;> simp [finds] at h
    exact ⟨[], [], rfl, h⟩
  | cons c text ih =>
    rcases mem_append.mp h with h | h
    · split at h
      · rename_i hstart
        obtain ⟨back, hback⟩ := List.isPrefixOf_iff_prefix.mp hstart
        exact ⟨[], back, hback.symm, mem_singleton.mp h⟩
      · cases h
    · obtain ⟨j, hj, rfl⟩ := mem_map.mp h
      obtain ⟨front, back, rfl, rfl⟩ := ih hj
      exact ⟨c :: front, back, rfl, rfl⟩

theorem sliceTo_found (h : find part text = some i ∨ rfind part text = some i) :
    (sliceTo text i).isSome = true := by
  obtain ⟨front, back, rfl, rfl⟩ := mem_finds (h.elim mem_of_mem_head? mem_of_getLast?)
  simp [sliceTo, cutAt_append]

theorem sliceFrom_found (h : find part text = some i) :
    (sliceFrom text (i + byteLength part)).isSome = true := by
  obtain ⟨front, back, rfl, rfl⟩ := mem_finds (mem_of_mem_head? h)
  rw [← byteLength_append, sliceFrom, cutAt_append]
  rfl

theorem sliceTo_take (text : List Char) (n : Nat) :
    sliceTo text (byteLength (text.take n)) = some (text.take n) :=
  sliceTo_eq_some_iff.mpr ⟨text.drop n, (take_append_drop n text).symm, rfl⟩

end Text

/-! How tool calls and their results are put into words. A text that is `none` here is a panic. -/
namespace ColossalCode.Ui
open List Option Text

open Protocol (Value)

/-- The parsers of JSON and YAML, and the printer of JSON. -/
structure Formats where
  json : String → Option Value
  yaml : String → Option Value
  print : Value → String

def quote : Char := Char.ofNat 0x22

def quoted (text : List Char) : List Char := quote :: text ++ [quote]

def words (text : List Char) : List String :=
  (text.splitBy fun c d => isWhitespace c == isWhitespace d).filterMap fun word =>
    if word.any isWhitespace then none else some (String.ofList word)

def shouldSkipToken (token : String) : Bool :=
  ["&&", "||", "|", ";"].contains token || startsWith token ">" || startsWith token "<"

def skipped (token : String) : Bool := shouldSkipToken token || startsWith token "-"

def searchLabel : List String → Option String
  | [] => none
  | token :: tokens =>
    let label :=
      if ["rg", "ripgrep", "grep"].contains (toAsciiLowercase token) then
        match tokens.filter fun token => !skipped token with
        | [] => none
        | [pattern] => some ("Searched " ++ pattern)
        | pattern :: target :: _ => some ("Searched " ++ pattern ++ " in " ++ target)
      else none
    label.or (searchLabel tokens)

def inferSearchLabel (command : String) : Option String :=
  searchLabel (words (command.toList.map fun c =>
    if [quote, Char.ofNat 0x27, Char.ofNat 0x60, '(', ')'].contains c then ' ' else c))

def describeExecCommand (command : String) : String :=
  (inferSearchLabel command).getD ("Ran " ++ command)

inductive TodoItem where
  | mk (content status activeForm : String) (children : List TodoItem)

theorem get_size {json value : Value} {key : String} (h : json.get key = some value) :
    sizeOf value < sizeOf json := by
  cases json <;> simp [Value.get] at h
  rename_i fields
  induction fields with
  | nil => cases h
  | cons field fields ih =>
    obtain ⟨name, found⟩ := field
    rw [lookup_cons] at h
    split at h
    · cases h
      simp
      omega
    · have hlater := ih h
      simp at hlater ⊢
      omega

def parseTodoItem (json : Value) : Option TodoItem := do
  let content ← (json.get "content").bind Value.asStr
  let status ← (json.get "status").bind Value.asStr
  let activeForm :=
    (((json.get "activeForm").or (json.get "active_form")).bind Value.asStr).getD ""
  let children :=
    match h : json.get "children" with
    | some (.array items) => items.attach.filterMap fun item =>
        have := sizeOf_lt_of_mem item.2
        have := get_size h
        parseTodoItem item.1
    | _ => []
  some (.mk content status activeForm children)
termination_by sizeOf json
decreasing_by
  simp at *
  omega

def extractTodosFromValue (f : Formats) (parsed : Value) : Option (List TodoItem) := do
  let items ←
    match ← (parsed.get "todos").or (parsed.get "structured_todos") with
    | .array items => some items
    | .string text => (f.json text).bind Value.asArray
    | _ => none
  some (items.filterMap parseTodoItem)

def extractTodosFromJsonPayload (f : Formats) (payload : String) : Option (List TodoItem) :=
  (f.json payload).bind (extractTodosFromValue f)

def TodoItem.withStatus (status : String) : TodoItem → List TodoItem
  | .mk content own activeForm children =>
    (if own = status then [.mk content own activeForm children] else []) ++
      children.flatMap (withStatus status)

def TodoItem.content : TodoItem → String
  | .mk content _ _ _ => content

def truncateTodoContent (todo : TodoItem) : String :=
  if 40 < todo.content.length then String.ofList (todo.content.toList.take 40) ++ "..."
  else todo.content

def firstTodoWithStatus (todos : List TodoItem) (status : String) : Option TodoItem :=
  (todos.flatMap (TodoItem.withStatus status)).head?

def describeTodoWriteAction (todos : List TodoItem) (initialGoal : Option Value) : String :=
  let marked (status words : String) := (firstTodoWithStatus todos status).map fun todo =>
    "Marked \x60" ++ truncateTodoContent todo ++ "\x60 as " ++ words
  let goal := (initialGoal.bind Value.asStr).filter fun goal => !goal.isEmpty
  let created := todos.head?.map fun todo => "Created \x60" ++ truncateTodoContent todo ++ "\x60"
  ((((marked "in_progress" "in progress").or (marked "completed" "completed")).or goal).or
    created).getD "Updated todos"

def describeTodoWriteCallFromPayload (f : Formats) (parsed : Option Value) : String :=
  match parsed with
  | some value =>
    match extractTodosFromValue f value with
    | some todos => describeTodoWriteAction todos (value.get "initial_goal")
    | none => "Updated todos"
  | none => "Updated todos"

def todoCount (status : String) (todos : List TodoItem) : Nat :=
  (todos.flatMap (TodoItem.withStatus status)).length

mutual
def TodoItem.total : TodoItem → Nat
  | .mk _ _ _ children => 1 + totalOf children

def totalOf : List TodoItem → Nat
  | [] => 0
  | todo :: todos => todo.total + totalOf todos
end

def formatTodoCounts (todos : List TodoItem) : String :=
  toString (totalOf todos) ++ " tasks • " ++ toString (todoCount "pending" todos) ++ " pending • " ++
    toString (todoCount "in_progress" todos) ++ " active • " ++
    toString (todoCount "completed" todos) ++ " completed"

structure EditFileArgs where
  path : String
  oldString : String
  newString : String

def decodeJsonishString : List Char → List Char
  | '\\' :: c :: text =>
    (if c = 'n' then ['\n'] else if c = 'r' then ['\r'] else if c = 't' then ['\t']
      else if [quote, '\\', '/'].contains c then [c] else ['\\', c]) ++ decodeJsonishString text
  | c :: text => c :: decodeJsonishString text
  | [] => []

/-- What stands before the first of the next keys that is found. -/
def beforeNextKey (value : List Char) : List String → Option (Option (List Char))
  | [] => some none
  | next :: nextKeys =>
    let marker := quoted next.toList
    match (find (quote :: ',' :: marker) value).or (find (quote :: ',' :: ' ' :: marker) value) with
    | some stop => (sliceTo value stop).map some
    | none => beforeNextKey value nextKeys

/-- What `value` begins with, up to its end or to the next key. -/
def valueText (value : List Char) (nextKeys : List String) : Option (Option (List Char)) :=
  if nextKeys.isEmpty then
    if [quote, '}'].isSuffixOf value then some (some (value.take (value.length - 2)))
    else
      match rfind [quote] value with
      | some stop => (sliceTo value stop).map some
      | none => some (some value)
  else do
    match ← beforeNextKey value nextKeys with
    | some found => some (some found)
    | none =>
      match find [quote] value with
      | some stop => (sliceTo value stop).map some
      | none => some none

def extractJsonishField (input : List Char) (key : String) (nextKeys : List String) :
    Option (Option (List Char)) :=
  let marker := quoted key.toList
  match find marker input with
  | none => some none
  | some keyStart => do
    let afterKey ← sliceFrom input (keyStart + byteLength marker)
    match find [':'] afterKey with
    | none => some none
    | some colonIdx =>
      match (← sliceFrom afterKey (colonIdx + 1)).dropWhile isWhitespace with
      | [] => some none
      | c :: rest =>
        if c ≠ quote then some none
        else do
          let found ← valueText (← sliceFrom (c :: rest) 1) nextKeys
          some (found.map decodeJsonishString)

def extractEditFileInputs (f : Formats) (argumentsJson : String) : Option (Option EditFileArgs) :=
  match f.json argumentsJson with
  | some parsed =>
    let field (key : String) := ((parsed.get key).bind Value.asStr).getD ""
    some (((parsed.get "path").bind Value.asStr).map fun path =>
      ⟨path, field "old_string", field "new_string"⟩)
  | none => do
    let input := argumentsJson.toList
    match ← extractJsonishField input "path" ["old_string", "new_string"] with
    | none => some none
    | some path =>
      let oldString ← extractJsonishField input "old_string" ["new_string"]
      let newString ← extractJsonishField input "new_string" []
      some (some ⟨String.ofList path, String.ofList (oldString.getD []),
        String.ofList (newString.getD [])⟩)

def shortened (most kept : Nat) (text : String) : String :=
  if most < text.length then String.ofList (text.toList.take kept) ++ "..." else text

def inQuotes (text : String) : String := String.ofList (quoted text.toList)

def formatArgument (f : Formats) : Value → String
  | .string s => inQuotes (shortened 100 97 s)
  | .array items => "[" ++ join ", " ((items.take 3).map fun item =>
      match item with
      | .string s => inQuotes s
      | item => f.print item) ++ "]"
  | .object _ => "\x7b...\x7d"
  | value => f.print value

def formatToolArguments (f : Formats) (toolName argumentsJson : String) : Option String := do
  let inputs ←
    if toolName = "edit_file" then extractEditFileInputs f argumentsJson else some none
  let parsed := f.json argumentsJson
  some <|
    if toolName = "todo_write" && parsed.isSome then
      inQuotes (describeTodoWriteCallFromPayload f parsed)
    else
      match inputs, parsed with
      | some args, _ => inQuotes args.path
      | none, some (.object fields) =>
        join ", " (fields.map fun field => field.1 ++ ": " ++ formatArgument f field.2)
      | none, some value => shortened 140 137 (f.print value)
      | none, none => shortened 140 137 (trim argumentsJson)

def countChangedLines (content : String) : Nat :=
  if content.isEmpty then 0 else max (lines content.toList).length 1

def strAt (obj : Value) (key : String) : Option String := (obj.get key).bind Value.asStr

def formatEditFileSuccess (f : Formats) (obj : Value) (argumentsJson : Option String) :
    Option String := do
  let resultPath := (strAt obj "path").getD ""
  let message := (strAt obj "message").getD ""
  let parsedArgs ←
    match argumentsJson with
    | some argumentsJson => extractEditFileInputs f argumentsJson
    | none => some none
  let path :=
    if resultPath.isEmpty then (parsedArgs.map EditFileArgs.path).getD "<path>" else resultPath
  some <|
    if toAsciiLowercase message = "file created" then
      "Created " ++ path ++ " • +" ++
        toString ((parsedArgs.map fun args => countChangedLines args.newString).getD 0) ++ " -0"
    else
      match parsedArgs with
      | some args =>
        let added := countChangedLines args.newString
        let removed := countChangedLines args.oldString
        if args.oldString = args.newString || (added = 0 && removed = 0) then "No changes"
        else "Updated " ++ path ++ " • +" ++ toString added ++ " -" ++ toString removed ++
          " • 1 hunk"
      | none => "Updated " ++ path

/-- The first line of an output, cut after 47 characters if it is long. -/
def preview (line : List Char) : Option String :=
  if 50 < line.length then
    (sliceTo line (byteLength (line.take 47))).map fun cut => String.ofList cut ++ "..."
  else some (String.ofList line)

def formatSuccessToolResult (f : Formats) (toolName : String) (obj : Value)
    (argumentsJson : Option String) : Option (Option String) :=
  if toolName = "read_file" then
    some ((strAt obj "content").map fun content => "Read " ++
      toString (lines content.toList).length ++ " lines (" ++ toString content.length ++ " chars)")
  else if ["get_files", "get_files_recursive"].contains toolName then
    some (((obj.get "files").bind Value.asArray).map fun files =>
      let names := join ", " ((files.take 3).filterMap Value.asStr)
      if files.isEmpty then "No files found"
      else if 3 < files.length then "Found " ++ toString files.length ++ " files (" ++ names ++
        "... +" ++ toString (files.length - 3) ++ ")"
      else "Found " ++ toString files.length ++ " files (" ++ names ++ ")")
  else if ["search_files_with_regex", "grep"].contains toolName then
    some (((obj.get "results").bind Value.asArray).map fun results =>
      if results.isEmpty then "No matches found"
      else "Found " ++ toString results.length ++ " matches in " ++
        toString (max (results.filterMap (Value.get "file")).length 1) ++ " files")
  else if toolName = "exec_command" then
    match strAt obj "cmd_out" with
    | none => some none
    | some output =>
      match lines output.toList with
      | [] => some (some "0 lines of output")
      | line :: more => (preview line).map fun shown =>
          some (toString (more.length + 1) ++ " lines: " ++ shown)
  else if toolName = "edit_file" then (formatEditFileSuccess f obj argumentsJson).map some
  else if toolName = "write_file" then some (some "File written successfully")
  else some none

def formatBackgroundToolResult (obj : Value) : String :=
  match strAt obj "session_id" with
  | some sessionId => "Started in background (session " ++ sessionId ++ ")"
  | none => "Started in background"

def formatFailedToolResult (toolName : String) (obj : Value) : String :=
  match (strAt obj "message").filter fun msg => !(["", "|+", "|-", "|"].contains msg) with
  | some msg => (if toolName = "edit_file" then "Failed: " else "Error: ") ++ msg
  | none => "Failed"

/-- The line that is shown of a result that could not be read: the first one with text in it after
the start of a block. -/
def shownLine (skipYamlKeys : Bool) : List (List Char) → Option (List Char)
  | [] => none
  | line :: rest =>
    let trimmed := trimmed line
    if trimmed.isEmpty || ["---", "status:", "path:", "message:"].any fun start =>
        start.toList.isPrefixOf trimmed then
      shownLine skipYamlKeys rest
    else if ["|+", "|-", "|", ">"].contains (String.ofList trimmed) then shownLine false rest
    else if skipYamlKeys then shownLine true rest
    else some trimmed

def formatToolResultFallback (resultYaml : String) : Option String :=
  match shownLine true (lines resultYaml.toList) with
  | some trimmed =>
    if 60 < byteLength trimmed then
      (sliceTo trimmed 57).map fun cut => String.ofList cut ++ "..."
    else some (String.ofList trimmed)
  | none => some "Completed"

/-- The todos of a result, or else of the arguments. -/
def resultTodos (f : Formats) (toolName resultYaml : String) (argumentsJson : Option String) :
    Option (List TodoItem) :=
  if toolName = "todo_write" then
    (extractTodosFromJsonPayload f resultYaml).or
      (argumentsJson.bind (extractTodosFromJsonPayload f))
  else none

/-- A result with a status. -/
def readResult (f : Formats) (resultYaml : String) : Option (Value × String) :=
  match f.yaml resultYaml with
  | some obj => (strAt obj "status").map fun status => (obj, status)
  | none => none

def formatToolResult (f : Formats) (toolName resultYaml : String) (argumentsJson : Option String) :
    Option String :=
  match resultTodos f toolName resultYaml argumentsJson with
  | some todos => some (formatTodoCounts todos)
  | none =>
    match readResult f resultYaml with
    | some (obj, status) =>
      if status = "Success" then
        (formatSuccessToolResult f toolName obj argumentsJson).map fun text => text.getD "Success"
      else if status = "Background" then some (formatBackgroundToolResult obj)
      else if status = "orchestration_requested" then some ""
      else some (formatFailedToolResult toolName obj)
    | none => formatToolResultFallback resultYaml

def describeToolCallFromParsed (f : Formats) (toolName : String) (parsed : Option Value) :
    Option String :=
  let field (key : String) := parsed.bind fun value => strAt value key
  match toolName with
  | "exec_command" => (field "command").map describeExecCommand
  | "read_file" => (field "path").map ("Read " ++ ·)
  | "edit_file" => (field "path").map ("Edited " ++ ·)
  | "delete_path" => (field "path").map ("Deleted " ++ ·)
  | "delete_many" => ((((parsed.bind (Value.get "paths")).bind Value.asArray).bind
      List.head?).bind Value.asStr).map fun path => "Deleted " ++ path ++ " and more"
  | "get_files" | "get_files_recursive" => (field "path").map ("Listed " ++ ·)
  | "search_files_with_regex" => (field "pattern").map fun pattern =>
      "Searched files for '" ++ pattern ++ "'"
  | "semantic_search" => (field "query").map fun query => "Searched '" ++ query ++ "'"
  | "web_search" => (field "query").map fun query => "Searched web for '" ++ query ++ "'"
  | "html_to_text" => (field "url").map ("Fetched " ++ ·)
  | "todo_write" | "TodoWrite" => some (describeTodoWriteCallFromPayload f parsed)
  | _ => none

def describeToolCall (f : Formats) (toolName argumentsJson : String) : Option String :=
  match describeToolCallFromParsed f toolName (f.json argumentsJson) with
  | some label => some label
  | none => do
    let friendly := String.ofList (toolName.toList.map fun c => if c = '_' then ' ' else c)
    let formatted ← formatToolArguments f toolName argumentsJson
    some (if formatted.isEmpty then friendly else friendly ++ " (" ++ formatted ++ ")")

variable (f : Formats)

theorem beforeNextKey_isSome (value : List Char) (nextKeys : List String) :
    (beforeNextKey value nextKeys).isSome = true := by
  induction nextKeys with
  | nil => rfl
  | cons next nextKeys ih =>
    rw [beforeNextKey]
    split
    · rename_i stop hstop
      have hfound : (sliceTo value stop).isSome = true := by
        obtain h | ⟨-, h⟩ := or_eq_some_iff.mp hstop <;> exact sliceTo_found (.inl h)
      simpa using hfound
    · exact ih

theorem valueText_isSome (value : List Char) (nextKeys : List String) :
    (valueText value nextKeys).isSome = true := by
  obtain ⟨next, hnext⟩ := isSome_iff_exists.mp (beforeNextKey_isSome value nextKeys)
  simp only [valueText, hnext, bind_eq_bind, bind_some]
  have hslice {stop : Nat} (h : find [quote] value = some stop ∨ rfind [quote] value = some stop) :
      ((sliceTo value stop).map some).isSome = true := by
    simpa using sliceTo_found h
  split <;> split
  · rfl
  · split
    · exact hslice (.inr ‹_›)
    · rfl
  · rfl
  · split
    · exact hslice (.inl ‹_›)
    · rfl

/-- Every slice begins or ends where a part was found. -/
theorem extractJsonishField_isSome (input : List Char) (key : String) (nextKeys : List String) :
    (extractJsonishField input key nextKeys).isSome = true := by
  unfold extractJsonishField
  cases hkey : find (quoted key.toList) input with
  | none => simp only [hkey, isSome_some]
  | some keyStart =>
    obtain ⟨afterKey, hafter⟩ := isSome_iff_exists.mp (sliceFrom_found hkey)
    simp only [hkey, hafter, bind_eq_bind, bind_some]
    cases hcolon : find [':'] afterKey with
    | none => rfl
    | some colonIdx =>
      obtain ⟨rest, hrest⟩ := isSome_iff_exists.mp (sliceFrom_found hcolon)
      rw [show colonIdx + byteLength [':'] = colonIdx + 1 from rfl] at hrest
      simp only [hrest, bind_some]
      cases rest.dropWhile isWhitespace with
      | nil => rfl
      | cons c value =>
        by_cases hc : c = quote
        · subst hc
          have hvalue : sliceFrom (quote :: value) 1 = some value :=
            congrArg (·.map Prod.snd) (cutAt_append [quote] value)
          obtain ⟨found, hfound⟩ := isSome_iff_exists.mp (valueText_isSome value nextKeys)
          simp only [ne_eq, not_true_eq_false, if_false, hvalue, hfound, bind_some,
            isSome_some]
        · simp [hc]

theorem extractEditFileInputs_isSome (argumentsJson : String) :
    (extractEditFileInputs f argumentsJson).isSome = true := by
  have hfield (key : String) (nextKeys : List String) := isSome_iff_exists.mp
    (extractJsonishField_isSome argumentsJson.toList key nextKeys)
  unfold extractEditFileInputs
  cases f.json argumentsJson with
  | some parsed => rfl
  | none =>
    obtain ⟨path, hpath⟩ := hfield "path" ["old_string", "new_string"]
    obtain ⟨oldString, hold⟩ := hfield "old_string" ["new_string"]
    obtain ⟨newString, hnew⟩ := hfield "new_string" []
    cases path <;> simp [hpath, hold, hnew]

theorem formatToolArguments_isSome (toolName argumentsJson : String) :
    (formatToolArguments f toolName argumentsJson).isSome = true := by
  obtain ⟨inputs, hinputs⟩ :=
    isSome_iff_exists.mp (extractEditFileInputs_isSome f argumentsJson)
  unfold formatToolArguments
  split <;> simp [hinputs]

theorem describeToolCall_isSome (toolName argumentsJson : String) :
    (describeToolCall f toolName argumentsJson).isSome = true := by
  obtain ⟨formatted, hformatted⟩ :=
    isSome_iff_exists.mp (formatToolArguments_isSome f toolName argumentsJson)
  unfold describeToolCall
  split <;> simp [hformatted]

theorem formatSuccessToolResult_isSome (toolName : String) (obj : Value)
    (argumentsJson : Option String) :
    (formatSuccessToolResult f toolName obj argumentsJson).isSome = true := by
  have hpreview (line : List Char) : (preview line).isSome = true := by
    unfold preview
    split <;> simp [sliceTo_take]
  have hedit : (formatEditFileSuccess f obj argumentsJson).isSome = true := by
    unfold formatEditFileSuccess
    cases argumentsJson with
    | none => rfl
    | some argumentsJson =>
      obtain ⟨inputs, hinputs⟩ :=
        isSome_iff_exists.mp (extractEditFileInputs_isSome f argumentsJson)
      simp [hinputs]
  unfold formatSuccessToolResult
  repeat' split
  all_goals simp_all

/-- The results that are shown by a line whose 57th byte is not the last one of a character. -/
def CutsCharacter (toolName resultYaml : String) (argumentsJson : Option String) : Prop :=
  resultTodos f toolName resultYaml argumentsJson = none ∧ readResult f resultYaml = none ∧
    ∃ line, shownLine true (lines resultYaml.toList) = some line ∧ 60 < byteLength line ∧
      ∀ front back, line = front ++ back → byteLength front ≠ 57

theorem formatToolResult_isSome_iff (toolName resultYaml : String)
    (argumentsJson : Option String) :
    (formatToolResult f toolName resultYaml argumentsJson).isSome = true ↔
      ¬ CutsCharacter f toolName resultYaml argumentsJson := by
  unfold formatToolResult CutsCharacter
  cases resultTodos f toolName resultYaml argumentsJson with
  | some todos => simp
  | none =>
    cases readResult f resultYaml with
    | some read =>
      obtain ⟨obj, status⟩ := read
      have hsuccess := formatSuccessToolResult_isSome f toolName obj argumentsJson
      dsimp only
      repeat' split
      all_goals simp [hsuccess]
    | none =>
      unfold formatToolResultFallback
      cases hline : shownLine true (lines resultYaml.toList) with
      | none => simp
      | some line =>
        by_cases hlong : 60 < byteLength line
        · simp [hlong, isSome_iff_exists, sliceTo_eq_some_iff]
        · simp [hlong]

/-- Only a line of a result that could not be read is cut within a character. -/
theorem formatting_returns_iff (toolName arguments resultYaml : String)
    (argumentsJson : Option String) :
    ((formatToolArguments f toolName arguments).isSome = true ∧
        (describeToolCall f toolName arguments).isSome = true ∧
        (formatToolResult f toolName resultYaml argumentsJson).isSome = true) ↔
      ¬ CutsCharacter f toolName resultYaml argumentsJson := by
  rw [formatToolResult_isSome_iff]
  simp [formatToolArguments_isSome, describeToolCall_isSome]

/-- The text is neither JSON nor YAML. -/
theorem accented_result_panics :
    ¬ ∀ (f : Formats) (toolName resultYaml : String) (argumentsJson : Option String),
      (formatToolResult f toolName resultYaml argumentsJson).isSome = true := by
  intro hall
  have h := hall ⟨fun _ => none, fun _ => none, fun _ => ""⟩ "exec_command"
    (String.ofList ("a: b: c\n|\n".toList ++ List.replicate 56 'x' ++ List.replicate 3 'é')) none
  revert h
  decide

end ColossalCode.Ui
