import ColossalCode.Protocol.Text
import Mathlib.Data.List.Basic

/-! The command line of the tools binary: what its arguments make it do, up to the first path it
looks at, and which part of a text a read of a file returns. -/
namespace ColossalCode.ToolsBinary

/-- The number of a text of digits, at least one of them. -/
def digits (cs : List Char) : Option Nat :=
  if cs.all Char.isDigit && cs.length ≠ 0 then some (Nat.ofDigitChars 10 cs 0) else none

def below (bound : Nat) (n : Nat) : Option Nat := if n < bound then some n else none

/-- `s.parse::<usize>().ok()` -/
def parseUsize (s : String) : Option Nat :=
  (match s.toList with
  | '+' :: cs => digits cs
  | cs => digits cs).bind (below 0x10000000000000000)

/-- `s.parse::<i64>().ok()` -/
def parseI64 (s : String) : Option Int :=
  match s.toList with
  | '-' :: cs => ((digits cs).bind (below 0x8000000000000001)).map fun n : Nat => -(n : Int)
  | '+' :: cs => ((digits cs).bind (below 0x8000000000000000)).map Int.ofNat
  | cs => ((digits cs).bind (below 0x8000000000000000)).map Int.ofNat

theorem digits_repr (n : Nat) : digits n.repr.toList = some n := by
  have hdigits : (Nat.toDigits 10 n).all Char.isDigit = true := by
    rw [List.all_eq_true]
    intro c hc
    exact Nat.isDigit_of_mem_toDigits (by decide) (by decide) hc
  have hlength : (Nat.toDigits 10 n).length ≠ 0 := by
    intro hnil
    exact Nat.toDigits_ne_nil (List.length_eq_zero_iff.mp hnil)
  rw [Nat.toList_repr, digits, hdigits, Nat.ofDigitChars_ten_toDigits]
  simp [hlength]

theorem repr_first {c : Char} {cs : List Char} {n : Nat} (h : n.repr.toList = c :: cs) :
    c.isDigit = true := by
  rw [Nat.toList_repr] at h
  exact Nat.isDigit_of_mem_toDigits (by decide) (by decide) (h ▸ List.mem_cons_self)

theorem parseUsize_toString {n : Nat} (h : n < 0x10000000000000000) :
    parseUsize (toString n) = some n := by
  have hdigits := digits_repr n
  rw [Nat.toString_eq_repr, parseUsize]
  split
  · rename_i cs hcs
    have hplus := repr_first hcs
    cases hplus
  · rw [hdigits, Option.bind_some, below, if_pos h]

theorem parseI64_ofNat {n : Nat} (h : n < 0x8000000000000000) :
    parseI64 (toString n) = some (n : Int) := by
  have hdigits := digits_repr n
  rw [Nat.toString_eq_repr, parseI64]
  split
  · rename_i cs hcs
    have hminus := repr_first hcs
    cases hminus
  · rename_i cs hcs
    have hplus := repr_first hcs
    cases hplus
  · rw [hdigits, Option.bind_some, below, if_pos h]
    rfl

theorem parseI64_toString {n : Int} (hlow : -0x8000000000000000 ≤ n) (hhigh : n < 0x8000000000000000) :
    parseI64 (toString n) = some n := by
  cases n with
  | ofNat n =>
    exact parseI64_ofNat (Int.ofNat_lt.mp hhigh)
  | negSucc n =>
    have htext : (toString (Int.negSucc n)).toList = '-' :: (n + 1).repr.toList := by
      rw [Int.toString_eq_repr, Int.repr_eq_if, if_neg (by omega), String.toList_append]
      rfl
    rw [parseI64, htext]
    change ((digits (n + 1).repr.toList).bind _).map _ = _
    rw [digits_repr, Option.bind_some, below, if_pos (by omega)]
    rfl

inductive ReadSpan where
  | entire
  | bytes (startByteOneIndexed endByteOneIndexed : Option Nat)
  | lines (offset : Int) (limit : Option Nat)
  deriving DecidableEq

/-- What `main` is to do, with its operands. -/
inductive Operation where
  | getFiles (path : String) (limit : Option Nat)
  | getFilesRecursive (path : String) (includePatterns excludePatterns : List String)
      (limit offset : Nat)
  | readFile (path : String) (span : ReadSpan)
  | deletePath (path : String)
  | deleteMany (paths : List String)
  | searchFilesWithRegex (path regexPattern : String)
      (includePatterns excludePatterns : List String) (limit : Option Nat) (caseSensitive : Bool)
  | editFile (path oldString newString : String)
  | semanticSearch (query : String)
  deriving DecidableEq

structure Patterns where
  includePatterns : List String
  excludePatterns : List String
  seenExclude : Bool

def Patterns.read (patterns : Patterns) (arg : String) : Patterns :=
  if arg = "--exclude" then { patterns with seenExclude := true }
  else if patterns.seenExclude then
    { patterns with excludePatterns := patterns.excludePatterns ++ [arg] }
  else { patterns with includePatterns := patterns.includePatterns ++ [arg] }

def readPatterns (args : List String) : Patterns := args.foldl Patterns.read ⟨[], [], false⟩

/-- The first argument where it is a number, and the arguments after it. -/
def takeNumber (args : List String) : Option Nat × List String :=
  match args.head?.bind parseUsize with
  | some n => (some n, args.tail)
  | none => (none, args)

def recursiveListing (path : String) (args : List String) : Operation :=
  let (limit, args) := takeNumber args
  let (offset, args) := takeNumber args
  let patterns := readPatterns args
  .getFilesRecursive path patterns.includePatterns patterns.excludePatterns
    (min (limit.getD 200) 200) (offset.getD 0)

def readSpan (args : List String) : ReadSpan :=
  let number (i : Nat) : Option Nat := (args[i]?).bind parseUsize
  let signed (i : Nat) (default : Int) : Int := ((args[i]?).bind parseI64).getD default
  match args.head? with
  | none => .entire
  | some mode =>
    if mode = "entire" then .entire
    else if mode = "lines" then
      let rawLimit := signed 2 (-1)
      .lines (signed 1 0) (if rawLimit ≤ 0 then none else some rawLimit.toNat)
    else if mode = "bytes" then .bytes (number 1) (number 2)
    else if (number 0).isSome || (number 1).isSome then .bytes (number 0) (number 1)
    else .entire

/-- The arguments of `main` after the name of the program; without an operation it exits with its
usage. -/
def parseArgs : List String → Option Operation
  | [] => none
  | command :: args =>
    match command, args with
    | "get_files", path :: args => some (.getFiles path (args.head?.bind parseUsize))
    | "get_files_recursive", path :: args => some (recursiveListing path args)
    | "read_file", path :: args => some (.readFile path (readSpan args))
    | "delete_path", path :: _ => some (.deletePath path)
    | "delete_many", path :: paths => some (.deleteMany (path :: paths))
    | "search_files_with_regex", path :: pattern :: args =>
      some (.searchFilesWithRegex path pattern [] [] (args.head?.bind parseUsize)
        ((args[1]?).elim false (· == "true")))
    | "edit_file", path :: oldString :: newString :: _ => some (.editFile path oldString newString)
    | "semantic_search", query :: _ => some (.semanticSearch query)
    | _, _ => none

/-- `content.split_inclusive('\n')` -/
def splitInclusive : List Char → List (List Char)
  | [] => []
  | c :: cs =>
    if c = '\n' then [c] :: splitInclusive cs
    else match splitInclusive cs with
      | [] => [[c]]
      | line :: lines => (c :: line) :: lines

def sliceLines (content : List Char) (offset : Int) (limit : Option Nat) : List Char :=
  let segments := splitInclusive content
  let totalLines := segments.length
  let start :=
    if 0 ≤ offset then min offset.toNat totalLines
    -- the least number has no `abs`
    else totalLines - min (min offset.natAbs 0x7FFFFFFFFFFFFFFF) totalLines
  match limit with
  | none => (segments.drop start).flatten
  | some limit =>
    if limit = 0 then []
    else ((segments.take (min (start + limit) totalLines)).drop start).flatten

theorem flatten_splitInclusive (content : List Char) : (splitInclusive content).flatten = content := by
  induction content with
  | nil => rfl
  | cons c cs ih =>
    rw [splitInclusive]
    split
    · rw [List.flatten_cons, ih]
      rfl
    · cases hlines : splitInclusive cs with
      | nil =>
        rw [hlines] at ih
        rw [← ih]
        rfl
      | cons line lines =>
        rw [hlines] at ih
        rw [← ih]
        rfl

/-- A span in the form in which spans are compared: the entire text is all of its lines, and no text
has as many lines as an address space has bytes. -/
def ReadSpan.normal : ReadSpan → ReadSpan
  | .entire => .lines 0 none
  | .bytes first last => .bytes first last
  | .lines offset limit => .lines offset (limit.bind (below 0x7FFFFFFFFFFFFFFF))

/-- What a read of some lines returns of a text. -/
def ReadSpan.text (content : List Char) : ReadSpan → Option (List Char)
  | .entire => some content
  | .lines offset limit => some (sliceLines content offset limit)
  | .bytes .. => none

end ColossalCode.ToolsBinary
