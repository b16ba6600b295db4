import ColossalCode.Dispatch.Calls
import ColossalCode.Protocol.Printing
import ColossalCode.ToolsBinary.CommandLine

/-! The arguments of a tool call through the command line of the tools binary. -/
namespace ColossalCode.ToolsBinary
open List Option Operation

open Protocol (Value printedArray length_lt_printedArray)
open Dispatch (boolAt asI64 i64At stringsAt wrapI64 readFileArgs buildToolsBinaryArgs)
open Backend.Responses (asU64 strAt u64At)

/-- The lines up to the last one, both counted from one. -/
def lineRange (first : Nat) (last : Option Nat) : ReadSpan :=
  .lines (first - 1 : Nat) (last.map fun last => last + 1 - max first 1)

/-- Bytes go before a range of lines, and that before an offset and a limit; a limit below zero is
none. -/
def requestedSpan (arguments : Value) : ReadSpan :=
  let startByte := u64At "start_byte_one_indexed" arguments
  let endByte := u64At "end_byte_one_indexed" arguments
  if startByte.isSome || endByte.isSome then .bytes startByte endByte
  else
    match u64At "start_line_one_indexed" arguments, u64At "end_line_one_indexed" arguments with
    | none, none =>
      .lines ((i64At "offset" arguments).getD 0) ((i64At "limit" arguments).bind Int.toNat?)
    | first, last => lineRange (first.getD 1) last

def requested (name : String) (arguments : Value) : Option Operation :=
  let text (key default : String) : String := (strAt key arguments).getD default
  match name with
  | "read_file" => some (.readFile (text "path" "") (requestedSpan arguments))
  | "delete_path" => some (.deletePath (text "path" ""))
  | "get_files" => some (.getFiles (text "path" ".") (some ((u64At "limit" arguments).getD 100)))
  | "get_files_recursive" =>
    some (.getFilesRecursive (text "path" ".") (stringsAt "include_patterns" arguments)
      (stringsAt "exclude_patterns" arguments) (min ((u64At "limit" arguments).getD 200) 200)
      ((u64At "offset" arguments).getD 0))
  | "edit_file" => some (.editFile (text "path" "") (text "old_string" "") (text "new_string" ""))
  | "semantic_search" => some (.semanticSearch (text "query" ""))
  | "search_files_with_regex" =>
    some (.searchFilesWithRegex (text "path" ".") (text "regex_pattern" "")
      (stringsAt "include_patterns" arguments) (stringsAt "exclude_patterns" arguments)
      (some ((u64At "limit" arguments).getD 1000)) ((boolAt "case_sensitive" arguments).getD false))
  | "delete_many" =>
    ((arguments.get "paths").bind Value.asArray).map fun paths => .deleteMany (paths.filterMap Value.asStr)
  | _ => none

def Operation.normal : Operation → Operation
  | .readFile path span => .readFile path span.normal
  | operation => operation

/-- The command line that a call is turned into asks for what the call asks for. -/
def Carried (printNumber : String → String) (name : String) (arguments : Value) : Prop :=
  (parseArgs (buildToolsBinaryArgs (printedArray printNumber) name arguments)).map normal =
    (requested name arguments).map normal

instance (printNumber : String → String) (name : String) (arguments : Value) :
    Decidable (Carried printNumber name arguments) := inferInstanceAs (Decidable (_ = _))

/-- Of an end without a start only the offset and the limit beside it reach the command line. -/
def SpanFits (arguments : Value) : Prop :=
  (u64At "start_byte_one_indexed" arguments).isSome ∨
  (u64At "end_byte_one_indexed" arguments).isSome ∨
  match u64At "start_line_one_indexed" arguments, u64At "end_line_one_indexed" arguments with
  | none, none => i64At "limit" arguments ≠ some 0
  | none, some last => (i64At "offset" arguments).getD 0 = 0 ∧
      (((i64At "limit" arguments).bind Int.toNat?).filter (0 < ·)).bind (below 0x7FFFFFFFFFFFFFFF) =
        below 0x7FFFFFFFFFFFFFFF last
  | some first, none => first ≤ 0x8000000000000000
  | some first, some last => first ≤ 0x8000000000000000 ∧ first ≤ last ∧
      (first = 0 → 0x7FFFFFFFFFFFFFFF ≤ last)

def Fits (name : String) (arguments : Value) : Prop :=
  match name with
  | "read_file" => SpanFits arguments
  | "get_files_recursive" =>
    (u64At "offset" arguments = none →
      ∀ pattern ∈ (stringsAt "include_patterns" arguments).head?, parseUsize pattern = none) ∧
    "--exclude" ∉ stringsAt "include_patterns" arguments ∧
    "--exclude" ∉ stringsAt "exclude_patterns" arguments
  | "search_files_with_regex" =>
    stringsAt "include_patterns" arguments = [] ∧ stringsAt "exclude_patterns" arguments = []
  | "delete_many" => (arguments.get "paths").bind Value.asArray = none
  | _ => True

section Spans

variable {arguments value : Value} {key : String} {n : Nat}

theorem asU64_lt (h : asU64 value = some n) : n < 0x10000000000000000 := by
  cases value with
  | number literal =>
    rw [asU64] at h
    split at h
    · dsimp only at h
      split at h
      · cases h
        assumption
      · cases h
    · cases h
  | null | bool | string | array | object => cases h

theorem u64At_lt (h : u64At key arguments = some n) : n < 0x10000000000000000 := by
  obtain ⟨value, -, hvalue⟩ := bind_eq_some_iff.mp h
  exact asU64_lt hvalue

theorem asI64_range {n : Int} (h : asI64 value = some n) :
    -0x8000000000000000 ≤ n ∧ n < 0x8000000000000000 := by
  cases value with
  | number literal =>
    rw [asI64] at h
    split at h
    · split at h
      · split at h
        · cases h
          omega
        · cases h
      · cases h
    · split at h
      · split at h
        · cases h
          omega
        · cases h
      · cases h
  | null | bool | string | array | object => cases h

theorem i64At_range {n : Int} (h : i64At key arguments = some n) :
    -0x8000000000000000 ≤ n ∧ n < 0x8000000000000000 := by
  obtain ⟨value, -, hvalue⟩ := bind_eq_some_iff.mp h
  exact asI64_range hvalue

theorem readSpan_bytes {first last : Option Nat} (hfirst : ∀ n, first = some n → n < 0x10000000000000000)
    (hlast : ∀ n, last = some n → n < 0x10000000000000000) :
    readSpan ["bytes", (first.map toString).getD "", (last.map toString).getD ""] =
      .bytes first last := by
  have hparse : ∀ bound : Option Nat, (∀ n, bound = some n → n < 0x10000000000000000) →
      parseUsize ((bound.map toString).getD "") = bound := by
    intro bound hbound
    cases bound with
    | none => decide
    | some n => exact parseUsize_toString (hbound n rfl)
  change ReadSpan.bytes (parseUsize _) (parseUsize _) = _
  rw [hparse first hfirst, hparse last hlast]

theorem readSpan_lines {offset limit : Int}
    (hoffset : -0x8000000000000000 ≤ offset ∧ offset < 0x8000000000000000)
    (hlimit : -0x8000000000000000 ≤ limit ∧ limit < 0x8000000000000000) :
    readSpan ["lines", toString offset, toString limit] =
      .lines offset (limit.toNat?.filter (0 < ·)) := by
  change ReadSpan.lines ((parseI64 (toString offset)).getD 0)
    (if (parseI64 (toString limit)).getD (-1) ≤ 0 then none
      else some ((parseI64 (toString limit)).getD (-1)).toNat) = _
  rw [parseI64_toString hoffset.1 hoffset.2, parseI64_toString hlimit.1 hlimit.2]
  cases limit with
  | ofNat n =>
    cases n with
    | zero => rfl
    | succ n => rfl
  | negSucc n => rfl

theorem normal_lines_iff {offset offset' : Int} {limit limit' : Option Nat} :
    (ReadSpan.lines offset limit).normal = (ReadSpan.lines offset' limit').normal ↔
      offset = offset' ∧ limit.bind (below 0x7FFFFFFFFFFFFFFF) =
        limit'.bind (below 0x7FFFFFFFFFFFFFFF) := by
  rw [ReadSpan.normal, ReadSpan.normal, ReadSpan.lines.injEq]

theorem wrapI64_eq_iff (h : n < 0x10000000000000000) :
    wrapI64 n = n ↔ n < 0x8000000000000000 := by
  rw [wrapI64]
  by_cases hlow : n < 0x8000000000000000
  · rw [if_pos hlow]
    exact iff_of_true rfl hlow
  · rw [if_neg hlow, if_pos h]
    refine iff_of_false (fun heq => ?_) hlow
    omega

/-- A count of lines that is printed as it wraps is no limit. -/
theorem wrapI64_limit {count : Nat} (hpos : 0 < count) (h : count ≤ 0x10000000000000000) :
    ((wrapI64 count).toNat?.filter (0 < ·)).bind (below 0x7FFFFFFFFFFFFFFF) =
      below 0x7FFFFFFFFFFFFFFF count := by
  rw [wrapI64]
  by_cases hlow : count < 0x8000000000000000
  · rw [if_pos hlow]
    change ((some count).filter (0 < ·)).bind _ = _
    rw [filter_some, if_pos (decide_eq_true hpos), bind_some]
  · have hmany : below 0x7FFFFFFFFFFFFFFF count = none := if_neg (by omega)
    rw [if_neg hlow, hmany]
    by_cases hwrap : count < 0x10000000000000000
    · rw [if_pos hwrap]
      cases hneg : ((count : Int) - 0x10000000000000000) with
      | ofNat n =>
        rw [Int.ofNat_eq_natCast] at hneg
        omega
      | negSucc n => rfl
    · rw [if_neg hwrap]
      rfl

theorem wrapI64_range (n : Nat) :
    -0x8000000000000000 ≤ wrapI64 n ∧ wrapI64 n < 0x8000000000000000 := by
  rw [wrapI64]
  split
  · omega
  · split <;> omega

/-- The range from a start is kept where the start is no negative offset in print, and where an end
comes not before it; with a start of zero the range is one line longer. -/
theorem start_fits_iff {first : Nat} {last : Option Nat} (hfirst : first < 0x10000000000000000)
    (hlast : ∀ n, last = some n → n < 0x10000000000000000) :
    (readSpan ["lines", toString (wrapI64 (first - 1)), toString ((last.bind fun last =>
      if first ≤ last then some (wrapI64 (last - first + 1)) else none).getD (-1))]).normal =
      (lineRange first last).normal ↔ first ≤ 0x8000000000000000 ∧
        ∀ n, last = some n → first ≤ n ∧ (first = 0 → 0x7FFFFFFFFFFFFFFF ≤ n) := by
  have hoffset : wrapI64 (first - 1) = (first - 1 : Nat) ↔ first ≤ 0x8000000000000000 := by
    rw [wrapI64_eq_iff (by omega)]
    omega
  cases last with
  | none =>
    rw [bind_none, getD_none, readSpan_lines (wrapI64_range _) (by decide), lineRange,
      normal_lines_iff, hoffset]
    exact and_congr Iff.rfl (iff_of_true rfl fun n hn => by cases hn)
  | some last =>
    have hbound := hlast last rfl
    rw [bind_some]
    split
    · rename_i hle
      rw [getD_some, readSpan_lines (wrapI64_range _) (wrapI64_range _), lineRange,
        normal_lines_iff, hoffset, wrapI64_limit (by omega) (by omega), map_some,
        bind_some]
      refine and_congr Iff.rfl ?_
      rw [below, below]
      constructor
      · intro heq n hn
        obtain rfl := some.inj hn
        refine ⟨hle, fun hzero => ?_⟩
        subst hzero
        by_contra hlow
        rw [if_pos (show last + 1 - max 0 1 < _ by omega)] at heq
        split at heq
        · have := some.inj heq
          omega
        · cases heq
      · intro hall
        obtain ⟨-, hzero⟩ := hall last rfl
        by_cases hfirst : first = 0
        · have hmany := hzero hfirst
          rw [if_neg (by omega), if_neg (by omega)]
        · rw [show last + 1 - max first 1 = last - first + 1 by omega]
    · rename_i hlt
      rw [getD_none, readSpan_lines (wrapI64_range _) (by decide), lineRange,
        normal_lines_iff, hoffset]
      refine and_congr Iff.rfl (iff_of_false (fun heq => ?_) fun hall => hlt (hall last rfl).1)
      rw [map_some, bind_some, show last + 1 - max first 1 = 0 by omega] at heq
      cases heq

/-- Without a start the command line has the offset and the limit. -/
theorem window_normal (entire : Bool) : (readSpan
    (if (i64At "limit" arguments).isSome || (i64At "offset" arguments).isSome then
      ["lines", toString ((i64At "offset" arguments).getD 0),
        toString ((i64At "limit" arguments).getD (-1))]
    else if entire then ["entire"] else ["lines", "0", "-1"])).normal =
    (ReadSpan.lines ((i64At "offset" arguments).getD 0)
      (((i64At "limit" arguments).bind Int.toNat?).filter (0 < ·))).normal := by
  have hrange : ∀ (key : String) (n : Int), -0x8000000000000000 ≤ n ∧ n < 0x8000000000000000 →
      -0x8000000000000000 ≤ (i64At key arguments).getD n ∧
        (i64At key arguments).getD n < 0x8000000000000000 := by
    intro key n hn
    cases hget : i64At key arguments with
    | none => exact hn
    | some m => exact i64At_range hget
  split
  · rw [readSpan_lines (hrange _ _ (by decide)) (hrange _ _ (by decide))]
    cases i64At "limit" arguments <;> rfl
  · rename_i hnone
    rw [Bool.or_eq_true_iff, not_or, not_isSome_iff_eq_none,
      not_isSome_iff_eq_none] at hnone
    rw [hnone.1, hnone.2]
    split
    · rfl
    · rw [show ["lines", "0", "-1"] = ["lines", toString (0 : Int), toString (-1 : Int)] by decide,
        readSpan_lines (by decide) (by decide)]
      rfl

theorem limit_fits_iff (limit : Option Int) :
    ((limit.bind Int.toNat?).filter (0 < ·)).bind (below 0x7FFFFFFFFFFFFFFF) =
      (limit.bind Int.toNat?).bind (below 0x7FFFFFFFFFFFFFFF) ↔ limit ≠ some 0 := by
  cases limit with
  | none => exact iff_of_true rfl fun h => by cases h
  | some n =>
    cases n with
    | ofNat n =>
      cases n with
      | zero => exact iff_of_false (fun h => by cases h) fun h => h rfl
      | succ n => exact iff_of_true rfl fun h => by cases h
    | negSucc n => exact iff_of_true rfl fun h => by cases h

theorem span_fits_iff : (readSpan (readFileArgs arguments)).normal =
    (requestedSpan arguments).normal ↔ SpanFits arguments := by
  rw [readFileArgs, requestedSpan, SpanFits]
  dsimp only
  by_cases hbytes : (u64At "start_byte_one_indexed" arguments).isSome ∨
      (u64At "end_byte_one_indexed" arguments).isSome
  · have hsome := (Bool.or_eq_true_iff).mpr hbytes
    rw [if_pos hsome, if_pos hsome, readSpan_bytes (fun _ => u64At_lt) fun _ => u64At_lt]
    exact iff_of_true rfl (by rcases hbytes with h | h <;> simp [h])
  · obtain ⟨hstart, hend⟩ := not_or.mp hbytes
    have hnone := fun h => hbytes (Bool.or_eq_true_iff.mp h)
    rw [if_neg hnone, if_neg hnone]
    refine Iff.trans ?_ ((or_iff_right hstart).trans (or_iff_right hend)).symm
    cases hfirst : u64At "start_line_one_indexed" arguments with
    | some first =>
      refine Iff.trans (Eq.to_iff (congrArg _ ?_))
        ((start_fits_iff (u64At_lt hfirst) fun _ => u64At_lt).trans ?_)
      · cases u64At "end_line_one_indexed" arguments <;> rfl
      · cases u64At "end_line_one_indexed" arguments with
        | none => exact and_iff_left fun n hn => by cases hn
        | some last =>
          refine and_congr Iff.rfl ⟨fun hall => hall last rfl, fun hlast n hn => ?_⟩
          exact some.inj hn ▸ hlast
    | none =>
      dsimp only
      rw [window_normal]
      cases u64At "end_line_one_indexed" arguments with
      | none =>
        rw [normal_lines_iff, limit_fits_iff]
        exact and_iff_right rfl
      | some last =>
        dsimp only
        rw [lineRange, normal_lines_iff]
        exact Iff.rfl

end Spans

section Patterns

variable {includePatterns excludePatterns tail : List String}

def isPattern (arg : String) : Bool := arg != "--exclude"

theorem foldl_seen (args : List String) (patterns : Patterns) (h : patterns.seenExclude = true) :
    args.foldl Patterns.read patterns = { patterns with
      excludePatterns := patterns.excludePatterns ++ args.filter isPattern } := by
  induction args generalizing patterns with
  | nil => rw [foldl_nil, filter_nil, append_nil]
  | cons arg args ih =>
    rw [foldl_cons]
    by_cases hflag : arg = "--exclude"
    · subst hflag
      have hread : patterns.read "--exclude" = patterns := by
        rw [Patterns.read, if_pos rfl, ← h]
      rw [hread, ih patterns h]
      rfl
    · have hread : patterns.read arg =
          { patterns with excludePatterns := patterns.excludePatterns ++ [arg] } := by
        rw [Patterns.read, if_neg hflag, if_pos h]
      have hpattern : isPattern arg = true := bne_iff_ne.mpr hflag
      rw [hread, ih { patterns with excludePatterns := patterns.excludePatterns ++ [arg] } h,
        filter_cons_of_pos hpattern, append_assoc]
      rfl

theorem foldl_unseen (args : List String) (patterns : Patterns) (h : patterns.seenExclude = false) :
    (args.foldl Patterns.read patterns).includePatterns =
      patterns.includePatterns ++ args.takeWhile isPattern ∧
    (args.foldl Patterns.read patterns).excludePatterns =
      patterns.excludePatterns ++ (args.dropWhile isPattern).filter isPattern := by
  induction args generalizing patterns with
  | nil => exact ⟨(append_nil _).symm, (append_nil _).symm⟩
  | cons arg args ih =>
    rw [foldl_cons]
    by_cases hflag : arg = "--exclude"
    · subst hflag
      rw [foldl_seen args (patterns.read "--exclude") rfl]
      exact ⟨(append_nil _).symm, rfl⟩
    · have hread : patterns.read arg =
          { patterns with includePatterns := patterns.includePatterns ++ [arg] } := by
        rw [Patterns.read, if_neg hflag, if_neg (by rw [h]; exact Bool.false_ne_true)]
      have hpattern : isPattern arg = true := bne_iff_ne.mpr hflag
      obtain ⟨hincluded, hexcluded⟩ := ih (patterns.read arg) (by rw [hread]; exact h)
      rw [hincluded, hexcluded, hread, takeWhile_cons_of_pos hpattern,
        dropWhile_cons_of_pos hpattern]
      exact ⟨append_assoc _ _ _, rfl⟩

theorem takeWhile_append_iff (htail : tail.takeWhile isPattern = []) :
    (includePatterns ++ tail).takeWhile isPattern = includePatterns ↔
      "--exclude" ∉ includePatterns := by
  constructor
  · intro heq hmem
    have hall := List.all_takeWhile (p := isPattern) (l := includePatterns ++ tail)
    rw [heq, List.all_eq_true] at hall
    cases hall _ hmem
  · intro hnot
    rw [List.takeWhile_append_of_pos, htail, List.append_nil]
    intro arg harg
    exact bne_iff_ne.mpr fun heq => hnot (heq ▸ harg)

theorem takeWhile_length_le (htail : tail.takeWhile isPattern = []) :
    ((includePatterns ++ tail).takeWhile isPattern).length ≤ includePatterns.length := by
  induction includePatterns with
  | nil => rw [nil_append, htail]
  | cons arg args ih =>
    rw [cons_append, takeWhile_cons]
    split
    · exact Nat.succ_le_succ ih
    · exact Nat.zero_le _

/-- The exclusions behind their flag. -/
def excluding (flag : Bool) (excludePatterns : List String) : List String :=
  if flag then "--exclude" :: excludePatterns else []

variable {flag : Bool}

theorem patterns_fit_iff (hflag : flag = false → excludePatterns = []) :
    (readPatterns (includePatterns ++ excluding flag excludePatterns)).includePatterns =
      includePatterns ∧
    (readPatterns (includePatterns ++ excluding flag excludePatterns)).excludePatterns =
      excludePatterns ↔
    "--exclude" ∉ includePatterns ∧ "--exclude" ∉ excludePatterns := by
  have htail : (excluding flag excludePatterns).takeWhile isPattern = [] := by
    cases flag <;> rfl
  obtain ⟨hincluded, hexcluded⟩ := foldl_unseen
    (includePatterns ++ excluding flag excludePatterns) ⟨[], [], false⟩ rfl
  rw [readPatterns, hincluded, hexcluded, nil_append, nil_append,
    takeWhile_append_iff htail]
  refine and_congr_right fun hnot => ?_
  have hall : ∀ arg ∈ includePatterns, isPattern arg = true := fun arg harg =>
    bne_iff_ne.mpr fun heq => hnot (heq ▸ harg)
  have hfilter : (excluding flag excludePatterns).filter isPattern =
      excludePatterns.filter isPattern := by
    cases flag with
    | true => rfl
    | false => rw [hflag rfl]; rfl
  have hdrop : (excluding flag excludePatterns).dropWhile isPattern =
      excluding flag excludePatterns := by
    cases flag <;> rfl
  rw [dropWhile_append_of_pos hall, hdrop, hfilter, filter_eq_self]
  constructor
  · intro hkeep hmem
    exact bne_iff_ne.mp (hkeep _ hmem) rfl
  · intro hnot arg harg
    exact bne_iff_ne.mpr fun heq => hnot (heq ▸ harg)

theorem takeNumber_toString {n : Nat} (h : n < 0x10000000000000000) (args : List String) :
    takeNumber (toString n :: args) = (some n, args) := by
  rw [takeNumber, head?_cons, bind_some, parseUsize_toString h]
  rfl

/-- Patterns that are read from fewer arguments are not the same ones. -/
theorem not_patterns_of_tail {first : String} :
    (readPatterns (includePatterns ++ excluding flag excludePatterns)).includePatterns ≠
      first :: includePatterns := by
  have htail : (excluding flag excludePatterns).takeWhile isPattern = [] := by
    cases flag <;> rfl
  obtain ⟨hincluded, -⟩ := foldl_unseen
    (includePatterns ++ excluding flag excludePatterns) ⟨[], [], false⟩ rfl
  have hlength : ((includePatterns ++ excluding flag excludePatterns).takeWhile isPattern).length ≤
      includePatterns.length := takeWhile_length_le htail
  rw [readPatterns, hincluded, nil_append]
  intro heq
  rw [heq, length_cons] at hlength
  omega

theorem takeNumber_none (h : ∀ pattern ∈ includePatterns.head?, parseUsize pattern = none) :
    takeNumber (includePatterns ++ excluding flag excludePatterns) =
      (none, includePatterns ++ excluding flag excludePatterns) := by
  have hnone : (includePatterns ++ excluding flag excludePatterns).head?.bind parseUsize = none := by
    cases includePatterns with
    | cons first rest => exact h first rfl
    | nil =>
      cases flag with
      | true => exact (by decide : parseUsize "--exclude" = none)
      | false => rfl
  rw [takeNumber, hnone]

theorem listing_fits_iff (path : String) {limit : Nat} {offset : Option Nat} (hlimit : limit ≤ 200)
    (hoffset : ∀ n, offset = some n → n < 0x10000000000000000)
    (hflag : flag = false → excludePatterns = []) :
    recursiveListing path (toString limit :: ((offset.map toString).toList ++ includePatterns ++
      excluding flag excludePatterns)) =
      .getFilesRecursive path includePatterns excludePatterns limit (offset.getD 0) ↔
    (offset = none → ∀ pattern ∈ includePatterns.head?, parseUsize pattern = none) ∧
      "--exclude" ∉ includePatterns ∧ "--exclude" ∉ excludePatterns := by
  have hread : ∀ (found : Option Nat) (args : List String),
      getFilesRecursive path (readPatterns args).includePatterns
        (readPatterns args).excludePatterns (min ((some limit).getD 200) 200) (found.getD 0) =
        .getFilesRecursive path includePatterns excludePatterns limit (offset.getD 0) ↔
      ((readPatterns args).includePatterns = includePatterns ∧
        (readPatterns args).excludePatterns = excludePatterns) ∧
        found.getD 0 = offset.getD 0 := by
    intro found args
    rw [getD_some, Nat.min_eq_left hlimit, getFilesRecursive.injEq]
    tauto
  rw [recursiveListing, takeNumber_toString (by omega)]
  dsimp only
  cases offset with
  | some n =>
    rw [map_some, toList_some, singleton_append, cons_append,
      takeNumber_toString (hoffset n rfl)]
    dsimp only
    rw [hread, patterns_fit_iff hflag]
    exact (and_iff_left rfl).trans (and_iff_right fun h => by cases h).symm
  | none =>
    rw [map_none, toList_none, nil_append]
    by_cases hnumber : ∀ pattern ∈ includePatterns.head?, parseUsize pattern = none
    · rw [takeNumber_none hnumber]
      dsimp only
      rw [hread, patterns_fit_iff hflag]
      exact (and_iff_left rfl).trans (and_iff_right fun _ => hnumber).symm
    · refine iff_of_false (fun heq => ?_) fun hfits => hnumber (hfits.1 rfl)
      cases includePatterns with
      | nil => exact hnumber fun pattern hnone => by cases hnone
      | cons first rest =>
        cases hparse : parseUsize first with
        | none => exact hnumber fun pattern hfirst => some.inj hfirst ▸ hparse
        | some n =>
          have htake : takeNumber (first :: rest ++ excluding flag excludePatterns) =
              (some n, rest ++ excluding flag excludePatterns) := by
            rw [takeNumber, cons_append, head?_cons, bind_some, hparse]
            rfl
          rw [htake] at heq
          exact not_patterns_of_tail ((hread _ _).mp heq).1.1

end Patterns

section Calls

variable (printNumber : String → String) (name : String) (arguments : Value)

theorem not_carried_paths {paths : List Value} :
    [printedArray printNumber paths] ≠ paths.filterMap Value.asStr := by
  intro heq
  have hmem : printedArray printNumber paths ∈ paths.filterMap Value.asStr :=
    heq ▸ mem_singleton_self _
  obtain ⟨value, hvalue, hstr⟩ := mem_filterMap.mp hmem
  cases value with
  | string s =>
    obtain rfl := some.inj hstr
    exact Nat.lt_irrefl _ (length_lt_printedArray hvalue)
  | null | bool | number | array | object => cases hstr

theorem carried_read : Carried printNumber "read_file" arguments ↔ SpanFits arguments := by
  rw [← span_fits_iff]
  change some (readFile _ (readSpan (readFileArgs arguments)).normal) =
    some (readFile _ (requestedSpan arguments).normal) ↔ _
  rw [some.injEq, readFile.injEq]
  exact and_iff_right rfl

theorem carried_listing : Carried printNumber "get_files_recursive" arguments ↔
    Fits "get_files_recursive" arguments := by
  have hflag : (!(((arguments.get "exclude_patterns").bind Value.asArray).getD []).isEmpty) = false →
      stringsAt "exclude_patterns" arguments = [] := by
    intro hempty
    rw [Bool.not_eq_false', List.isEmpty_iff] at hempty
    rw [stringsAt, hempty, List.filterMap_nil]
  have hexcluding : (if (((arguments.get "exclude_patterns").bind Value.asArray).getD []).isEmpty
      then [] else "--exclude" :: stringsAt "exclude_patterns" arguments) =
      excluding (!(((arguments.get "exclude_patterns").bind Value.asArray).getD []).isEmpty)
        (stringsAt "exclude_patterns" arguments) := by
    cases (((arguments.get "exclude_patterns").bind Value.asArray).getD []).isEmpty <;> rfl
  have hlimit := Nat.min_le_right ((u64At "limit" arguments).getD 200) 200
  refine Iff.trans ?_ (listing_fits_iff ((strAt "path" arguments).getD ".") hlimit (fun _ => u64At_lt) hflag)
  rw [← hexcluding]
  exact Option.some_inj

theorem carried_number (limit : Nat) (h : limit < 0x10000000000000000) :
    ((u64At "limit" arguments).map toString).getD (toString limit) =
      toString ((u64At "limit" arguments).getD limit) ∧
    (u64At "limit" arguments).getD limit < 0x10000000000000000 := by
  cases hget : u64At "limit" arguments with
  | none => exact ⟨rfl, h⟩
  | some n => exact ⟨rfl, u64At_lt hget⟩

theorem carried_files : Carried printNumber "get_files" arguments := by
  obtain ⟨htext, hlimit⟩ := carried_number arguments 100 (by decide)
  change some (getFiles _
    (parseUsize (((u64At "limit" arguments).map toString).getD (toString 100)))) = _
  rw [htext, parseUsize_toString hlimit]
  rfl

theorem carried_search : Carried printNumber "search_files_with_regex" arguments ↔
    Fits "search_files_with_regex" arguments := by
  obtain ⟨htext, hlimit⟩ := carried_number arguments 1000 (by decide)
  have hcase : ∀ b : Bool, (toString b == "true") = b := by decide
  change some (searchFilesWithRegex _ _ [] []
    (parseUsize (((u64At "limit" arguments).map toString).getD (toString 1000)))
    (toString ((boolAt "case_sensitive" arguments).getD false) == "true")) =
    some (searchFilesWithRegex _ _ (stringsAt "include_patterns" arguments)
      (stringsAt "exclude_patterns" arguments) _ _) ↔
    stringsAt "include_patterns" arguments = [] ∧ stringsAt "exclude_patterns" arguments = []
  rw [htext, parseUsize_toString hlimit, hcase, some.injEq,
    searchFilesWithRegex.injEq]
  constructor
  · rintro ⟨-, -, hinclude, hexclude, -⟩
    exact ⟨hinclude.symm, hexclude.symm⟩
  · rintro ⟨hinclude, hexclude⟩
    exact ⟨rfl, rfl, hinclude.symm, hexclude.symm, rfl, rfl⟩

theorem carried_paths : Carried printNumber "delete_many" arguments ↔
    (arguments.get "paths").bind Value.asArray = none := by
  change (parseArgs ("delete_many" :: (((arguments.get "paths").bind Value.asArray).map
    (printedArray printNumber)).toList)).map normal =
    (((arguments.get "paths").bind Value.asArray).map fun paths =>
      deleteMany (paths.filterMap Value.asStr)).map normal ↔ _
  cases (arguments.get "paths").bind Value.asArray with
  | none => exact iff_of_true rfl rfl
  | some paths =>
    refine iff_of_false (fun heq => ?_) fun h => by cases h
    have hsame : deleteMany [printedArray printNumber paths] =
        .deleteMany (paths.filterMap Value.asStr) := some.inj heq
    rw [deleteMany.injEq] at hsame
    exact not_carried_paths printNumber hsame

theorem arguments_carried_iff : Carried printNumber name arguments ↔ Fits name arguments := by
  by_cases hread : name = "read_file"
  · exact hread ▸ carried_read printNumber arguments
  by_cases hlisting : name = "get_files_recursive"
  · exact hlisting ▸ carried_listing printNumber arguments
  by_cases hsearch : name = "search_files_with_regex"
  · exact hsearch ▸ carried_search printNumber arguments
  by_cases hpaths : name = "delete_many"
  · exact hpaths ▸ carried_paths printNumber arguments
  have hfits : Fits name arguments := by
    rw [Fits] <;> trivial
  refine iff_of_true ?_ hfits
  by_cases hfiles : name = "get_files"
  · exact hfiles ▸ carried_files printNumber arguments
  by_cases hpath : name = "delete_path"
  · exact hpath ▸ rfl
  by_cases hedit : name = "edit_file"
  · exact hedit ▸ rfl
  by_cases hsemantic : name = "semantic_search"
  · exact hsemantic ▸ rfl
  simp [Carried, buildToolsBinaryArgs, requested, parseArgs]

/-- A list of paths arrives as one path, a pattern that is a number as the offset, and an end without
a start not at all. -/
theorem arguments_not_carried :
    ¬ Carried id "delete_many" (.object [("paths", .array [.string "a", .string "b"])]) ∧
    ¬ Carried id "get_files_recursive" (.object [("include_patterns", .array [.string "7"])]) ∧
    ¬ Carried id "read_file" (.object [("end_line_one_indexed", .number "10")]) := by
  decide

end Calls

end ColossalCode.ToolsBinary
