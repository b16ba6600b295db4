import ColossalCode.ToolsBinary.Listing

/-! The regex search of the tools binary, against the lines that match. -/
namespace ColossalCode.ToolsBinary.Files
open List

open FileSystem
open Text (lines stripCr utf8)

structure FileMatch where
  path : String
  startByte : Nat
  line : String
  deriving DecidableEq

/-- The lines of one file, with the bytes passed and the number of matches so far; the search stops
once the limit is reached. -/
def searchLines (isMatch : String → Bool) (limit : Option Nat) (path : String) :
    Nat → Nat → List (List Char) → List FileMatch × Nat
  | _, count, [] => ([], count)
  | byteOffset, count, line :: lines =>
    if isMatch (String.ofList line) then
      let found : FileMatch := ⟨path, byteOffset, String.ofList line⟩
      if limit.any (· ≤ count + 1) then ([found], count + 1)
      else
        let rest := searchLines isMatch limit path (byteOffset + (utf8 line).length + 1) (count + 1)
          lines
        (found :: rest.1, rest.2)
    else searchLines isMatch limit path (byteOffset + (utf8 line).length + 1) count lines

def searchFiles (fs : FileTree) (isMatch : String → Bool) (limit : Option Nat) :
    Nat → List FileEntry → List FileMatch
  | _, [] => []
  | count, file :: files =>
    if file.eType ≠ "regular file" then searchFiles fs isMatch limit count files
    else if limit.any (· ≤ count) then []
    else
      match readToString fs file.path with
      | .error _ => searchFiles fs isMatch limit count files
      | .ok content =>
        let found := searchLines isMatch limit file.name 0 count (lines content.toList)
        found.1 ++ searchFiles fs isMatch limit found.2 files

def usizeMax : Nat := 0xFFFFFFFFFFFFFFFF

/-- The limit goes to the listing as well. -/
def searchFilesWithRegex (env : Surroundings) (newRegex : String → Except String (String → Bool))
    (fs : FileTree) (root : RealPath) (regexPattern : String)
    (includePatterns excludePatterns : Option (List String)) (limit : Option Nat)
    (caseSensitive : Bool) : Except String (List FileMatch) :=
  match newRegex (if caseSensitive then regexPattern else "(?i)" ++ regexPattern) with
  | .error e => .error ("Invalid regex pattern: " ++ e)
  | .ok isMatch =>
    let files := (getFilesRecursive env fs root includePatterns excludePatterns
      (limit.getD usizeMax) 0).1
    .ok (searchFiles fs isMatch limit 0 files)

/-- A line with its end, after the ones before it in its file. -/
structure Match where
  path : String
  earlier : List (List Char)
  segment : List Char
  deriving DecidableEq

/-- A line without its end. -/
def stripEnd (segment : List Char) : List Char :=
  if segment.getLast? = some '\n' then stripCr segment.dropLast else segment

def matchesFrom (isMatch : String → Bool) (path : String) (earlier : List (List Char)) :
    List (List Char) → List Match
  | [] => []
  | segment :: segments =>
    if isMatch (String.ofList (stripEnd segment)) then
      ⟨path, earlier, segment⟩ :: matchesFrom isMatch path (earlier ++ [segment]) segments
    else matchesFrom isMatch path (earlier ++ [segment]) segments

/-- The lines that match of a regular file that is text. -/
def fileMatches (fs : FileTree) (isMatch : String → Bool) (file : FileEntry) : List Match :=
  if file.eType ≠ "regular file" then []
  else
    match readToString fs file.path with
    | .error _ => []
    | .ok content => matchesFrom isMatch file.name [] (splitInclusive content.toList)

/-- How many bytes the search counts for the lines. -/
def countedBytes : List (List Char) → Nat
  | [] => 0
  | segment :: segments => (utf8 (stripEnd segment)).length + 1 + countedBytes segments

def bytes (segments : List (List Char)) : Nat := (utf8 segments.flatten).length

namespace Match

def line (m : Match) : String := String.ofList (stripEnd m.segment)

def reported (m : Match) : FileMatch := ⟨m.path, countedBytes m.earlier, m.line⟩

/-- The match with the offset at which its line begins. -/
def located (m : Match) : FileMatch := ⟨m.path, bytes m.earlier, m.line⟩

end Match

/-- The first matches, all of them without a limit. -/
def firstOf {α : Type*} (limit : Option Nat) (xs : List α) : List α :=
  limit.elim xs fun n => xs.take n

variable {line : List Char} {isMatch : String → Bool} {m : Match}

theorem splitInclusive_line (h : '\n' ∉ line) (text : List Char) :
    splitInclusive (line ++ '\n' :: text) = (line ++ ['\n']) :: splitInclusive text := by
  induction line with
  | nil => rfl
  | cons c line ih =>
    rw [mem_cons, not_or] at h
    rw [cons_append, splitInclusive, if_neg (Ne.symm h.1), ih h.2]
    rfl

theorem splitInclusive_free (h : '\n' ∉ line) (hne : line ≠ []) :
    splitInclusive line = [line] := by
  induction line with
  | nil => exact absurd rfl hne
  | cons c line ih =>
    rw [mem_cons, not_or] at h
    rw [splitInclusive, if_neg (Ne.symm h.1)]
    cases line with
    | nil => rfl
    | cons d line => rw [ih h.2 (cons_ne_nil d line)]

theorem stripEnd_line (line : List Char) : stripEnd (line ++ ['\n']) = stripCr line := by
  rw [stripEnd, List.getLast?_concat, if_pos rfl, dropLast_concat]

theorem stripEnd_free (h : '\n' ∉ line) : stripEnd line = line := by
  rw [stripEnd, if_neg]
  intro hlast
  exact h (mem_of_getLast? hlast)

theorem linesFrom_eq (h : '\n' ∉ line) (text : List Char) :
    Text.linesFrom line text = (splitInclusive (line ++ text)).map stripEnd := by
  induction text generalizing line with
  | nil =>
    rw [append_nil, Text.linesFrom]
    cases line with
    | nil => rfl
    | cons c line =>
      rw [splitInclusive_free h (cons_ne_nil c line), map_singleton, stripEnd_free h]
      rfl
  | cons c text ih =>
    rw [Text.linesFrom]
    by_cases hc : c = '\n'
    · subst hc
      rw [if_pos rfl, splitInclusive_line h, map_cons, stripEnd_line, ih not_mem_nil]
      rfl
    · have hlonger : '\n' ∉ line ++ [c] := by
        intro hmem
        rcases mem_append.mp hmem with hmem | hmem
        · exact h hmem
        · exact hc (mem_singleton.mp hmem).symm
      rw [if_neg hc, ih hlonger, append_assoc, singleton_append]

theorem lines_eq (text : List Char) : lines text = (splitInclusive text).map stripEnd :=
  linesFrom_eq not_mem_nil text

/-- Every segment but the last ends with a newline. -/
theorem terminated_of_splitInclusive {text segment : List Char} {front later : List (List Char)}
    (h : splitInclusive text = front ++ segment :: later) :
    ∀ earlier ∈ front, ∃ line, earlier = line ++ ['\n'] := by
  induction text generalizing front segment later with
  | nil =>
    have hnil := congrArg List.length h
    simp [splitInclusive] at hnil
  | cons c text ih =>
    rw [splitInclusive] at h
    by_cases hc : c = '\n'
    · rw [if_pos hc] at h
      cases front with
      | nil => exact fun _ hmem => absurd hmem not_mem_nil
      | cons first front =>
        obtain ⟨rfl, hrest⟩ := List.cons.inj h
        intro earlier hmem
        rcases mem_cons.mp hmem with rfl | hmem
        · exact ⟨[], by rw [hc]; rfl⟩
        · exact ih hrest earlier hmem
    · rw [if_neg hc] at h
      cases hsegments : splitInclusive text with
      | nil =>
        rw [hsegments] at h
        cases front with
        | nil => exact fun _ hmem => absurd hmem not_mem_nil
        | cons first front =>
          have hlength := congrArg List.length h
          simp at hlength
      | cons next segments =>
        rw [hsegments] at h
        cases front with
        | nil => exact fun _ hmem => absurd hmem not_mem_nil
        | cons first front =>
          obtain ⟨rfl, hrest⟩ := List.cons.inj h
          have hih : ∀ earlier ∈ next :: front, ∃ line, earlier = line ++ ['\n'] :=
            ih (hsegments.trans (by rw [hrest]; rfl))
          intro earlier hmem
          rcases mem_cons.mp hmem with rfl | hmem
          · obtain ⟨line, hline⟩ := hih next mem_cons_self
            exact ⟨c :: line, by rw [hline]; rfl⟩
          · exact hih earlier (mem_cons_of_mem next hmem)

section Results

variable {limit : Option Nat} {path : String} {fs : FileTree}

theorem countedBytes_snoc (earlier : List (List Char)) (segment : List Char) :
    countedBytes (earlier ++ [segment]) =
      countedBytes earlier + (utf8 (stripEnd segment)).length + 1 := by
  induction earlier with
  | nil => simp [countedBytes]
  | cons first earlier ih =>
    rw [cons_append, countedBytes, ih, countedBytes]
    omega

/-- How many matches are still wanted. -/
def left (limit : Option Nat) (count : Nat) : Option Nat := limit.map (· - count)

variable {α : Type*} {count : Nat}

theorem firstOf_append (limit : Option Nat) (count : Nat) (xs ys : List α) :
    firstOf (left limit count) (xs ++ ys) =
      firstOf (left limit count) xs ++ firstOf (left limit (count + xs.length)) ys := by
  cases limit with
  | none => rfl
  | some n =>
    change (xs ++ ys).take (n - count) = xs.take (n - count) ++ ys.take (n - (count + xs.length))
    rw [take_append, Nat.sub_sub]

theorem firstOf_full (h : limit.any (· ≤ count) = true) (xs : List α) :
    firstOf (left limit count) xs = [] := by
  cases limit with
  | none => exact absurd h Bool.false_ne_true
  | some n =>
    have hle : n ≤ count := of_decide_eq_true h
    change xs.take (n - count) = []
    rw [Nat.sub_eq_zero_of_le hle, take_zero]

theorem firstOf_cons (h : limit.any (· ≤ count) = false) (x : α) (xs : List α) :
    firstOf (left limit count) (x :: xs) = x :: firstOf (left limit (count + 1)) xs := by
  cases limit with
  | none => rfl
  | some n =>
    have hlt : ¬ n ≤ count := of_decide_eq_false h
    change (x :: xs).take (n - count) = x :: xs.take (n - (count + 1))
    rw [show n - count = (n - (count + 1)) + 1 by omega, take_succ_cons]

theorem firstOf_after (limit : Option Nat) (count : Nat) (xs ys : List α) :
    firstOf (left limit (count + (firstOf (left limit count) xs).length)) ys =
      firstOf (left limit (count + xs.length)) ys := by
  cases limit with
  | none => rfl
  | some n =>
    change ys.take (n - (count + (xs.take (n - count)).length)) = ys.take (n - (count + xs.length))
    rw [length_take, show n - (count + min (n - count) xs.length) = n - (count + xs.length) by
      omega]

/-- The matches up to the limit, and as many counted. -/
theorem searchLines_eq (earlier segments : List (List Char)) (h : limit.any (· ≤ count) = false) :
    searchLines isMatch limit path (countedBytes earlier) count (segments.map stripEnd) =
      ((firstOf (left limit count) (matchesFrom isMatch path earlier segments)).map Match.reported,
        count +
          (firstOf (left limit count) (matchesFrom isMatch path earlier segments)).length) := by
  induction segments generalizing earlier count with
  | nil =>
    rw [map_nil, searchLines, matchesFrom]
    cases limit <;> simp [left, firstOf]
  | cons segment segments ih =>
    rw [map_cons, searchLines, matchesFrom, ← countedBytes_snoc]
    by_cases hmatch : isMatch (String.ofList (stripEnd segment)) = true
    · rw [if_pos hmatch, if_pos hmatch, firstOf_cons h]
      by_cases hfull : limit.any (· ≤ count + 1) = true
      · rw [if_pos hfull, firstOf_full hfull]
        rfl
      · rw [if_neg hfull, ih (earlier ++ [segment]) (Bool.eq_false_iff.mpr hfull)]
        simp only [map_cons, length_cons]
        rw [Nat.add_right_comm, Nat.add_assoc count]
        rfl
    · rw [if_neg hmatch, if_neg hmatch]
      exact ih (earlier ++ [segment]) h

theorem searchFiles_eq (files : List FileEntry) (count : Nat) :
    searchFiles fs isMatch limit count files =
      (firstOf (left limit count) (files.flatMap (fileMatches fs isMatch))).map Match.reported := by
  induction files generalizing count with
  | nil =>
    rw [searchFiles]
    cases limit <;> simp [left, firstOf]
  | cons file files ih =>
    rw [searchFiles, flatMap_cons, firstOf_append, map_append]
    by_cases htype : file.eType ≠ "regular file"
    · rw [if_pos htype, fileMatches, if_pos htype, ih]
      cases limit <;> simp [left, firstOf]
    · rw [if_neg htype]
      by_cases hfull : limit.any (· ≤ count) = true
      · have hlater : limit.any (· ≤ count + (fileMatches fs isMatch file).length) = true := by
          cases limit with
          | none => exact hfull
          | some n =>
            have hle : n ≤ count := of_decide_eq_true hfull
            exact decide_eq_true (Nat.le_add_right_of_le hle)
        rw [if_pos hfull, firstOf_full hfull, firstOf_full hlater]
        rfl
      · rw [if_neg hfull, fileMatches, if_neg htype]
        cases hread : readToString fs file.path with
        | error e =>
          rw [ih]
          cases limit <;> simp [left, firstOf]
        | ok content =>
          have hsearch : searchLines isMatch limit file.name 0 count
              ((splitInclusive content.toList).map stripEnd) = _ :=
            searchLines_eq [] (splitInclusive content.toList) (Bool.eq_false_iff.mpr hfull)
          dsimp only
          rw [lines_eq, hsearch, ih, firstOf_after]

end Results

theorem utf8_append (xs ys : List Char) : utf8 (xs ++ ys) = utf8 xs ++ utf8 ys :=
  flatMap_append

theorem bytes_cons (segment : List Char) (segments : List (List Char)) :
    bytes (segment :: segments) = (utf8 segment).length + bytes segments := by
  rw [bytes, flatten_cons, utf8_append, length_append, bytes]

def Crlf (segment : List Char) : Prop := ['\r', '\n'] <:+ segment

/-- Of a line end the search counts one byte. -/
theorem stripped_bytes (line : List Char) :
    (utf8 (line ++ ['\n'])).length =
      (utf8 (stripEnd (line ++ ['\n']))).length + 1 +
        if line.getLast? = some '\r' then 1 else 0 := by
  rw [stripEnd_line, utf8_append, length_append]
  have hnewline : (utf8 ['\n']).length = 1 := by decide
  rw [hnewline, stripCr]
  by_cases hcr : line.getLast? = some '\r'
  · have hreturn : (utf8 ['\r']).length = 1 := by decide
    have hline := dropLast_append_getLast? '\r' hcr
    have hlength := congrArg (fun text => (utf8 text).length) hline
    simp only [utf8_append, length_append, hreturn] at hlength
    rw [if_pos hcr, if_pos hcr]
    omega
  · rw [if_neg hcr, if_neg hcr]

theorem crlf_line_iff (line : List Char) : Crlf (line ++ ['\n']) ↔ line.getLast? = some '\r' := by
  constructor
  · rintro ⟨front, hfront⟩
    have hline : front ++ ['\r'] = line := by
      have hsplit : front ++ ['\r'] ++ ['\n'] = line ++ ['\n'] := by
        rw [append_assoc]
        exact hfront
      exact append_cancel_right hsplit
    rw [← hline, List.getLast?_concat]
  · intro hcr
    have hline := dropLast_append_getLast? '\r' hcr
    refine ⟨line.dropLast, ?_⟩
    rw [← hline, append_assoc, hline]
    rfl

theorem countedBytes_iff {segments : List (List Char)}
    (h : ∀ segment ∈ segments, ∃ line, segment = line ++ ['\n']) :
    countedBytes segments ≤ bytes segments ∧
      (countedBytes segments = bytes segments ↔ ∀ segment ∈ segments, ¬ Crlf segment) := by
  induction segments with
  | nil => exact ⟨Nat.zero_le _, iff_of_true rfl fun _ hmem => absurd hmem not_mem_nil⟩
  | cons segment segments ih =>
    obtain ⟨line, rfl⟩ := h segment mem_cons_self
    obtain ⟨hle, hiff⟩ := ih fun s hs => h s (mem_cons_of_mem _ hs)
    have hbytes := stripped_bytes line
    rw [countedBytes, bytes_cons, forall_mem_cons, crlf_line_iff, ← hiff]
    by_cases hcr : line.getLast? = some '\r'
    · rw [if_pos hcr] at hbytes
      refine ⟨by omega, iff_of_false (by omega) fun hno => hno.1 hcr⟩
    · rw [if_neg hcr] at hbytes
      refine ⟨by omega, ?_⟩
      rw [and_iff_right hcr]
      omega

theorem mem_matchesFrom {path : String} {earlier segments : List (List Char)}
    (h : m ∈ matchesFrom isMatch path earlier segments) :
    m.path = path ∧ ∃ front later, segments = front ++ m.segment :: later ∧
      m.earlier = earlier ++ front := by
  induction segments generalizing earlier with
  | nil => exact absurd h not_mem_nil
  | cons segment segments ih =>
    have hlater : m ∈ matchesFrom isMatch path (earlier ++ [segment]) segments →
        m.path = path ∧ ∃ front later, segment :: segments = front ++ m.segment :: later ∧
          m.earlier = earlier ++ front := by
      intro hmem
      obtain ⟨hpath, front, later, rfl, hearlier⟩ := ih hmem
      exact ⟨hpath, segment :: front, later, rfl, by rw [hearlier, append_assoc]; rfl⟩
    rw [matchesFrom] at h
    split at h
    · rcases mem_cons.mp h with rfl | h
      · exact ⟨rfl, [], segments, rfl, (append_nil earlier).symm⟩
      · exact hlater h
    · exact hlater h

variable {file : FileEntry} {fs : FileTree}

theorem terminated_of_fileMatches (h : m ∈ fileMatches fs isMatch file) :
    ∀ segment ∈ m.earlier, ∃ line, segment = line ++ ['\n'] := by
  rw [fileMatches] at h
  split at h
  · exact absurd h not_mem_nil
  · cases hread : readToString fs file.path with
    | error e =>
      rw [hread] at h
      exact absurd h not_mem_nil
    | ok content =>
      rw [hread] at h
      obtain ⟨_, front, later, hsegments, hearlier⟩ := mem_matchesFrom h
      rw [hearlier, nil_append]
      exact terminated_of_splitInclusive hsegments

theorem reported_iff (h : m ∈ fileMatches fs isMatch file) :
    m.reported = m.located ↔ ∀ segment ∈ m.earlier, ¬ Crlf segment := by
  have hbytes := (countedBytes_iff (terminated_of_fileMatches h)).2
  rw [Match.reported, Match.located, FileMatch.mk.injEq, ← hbytes]
  simp

theorem firstOf_append_length {α : Type*} (limit : Option Nat) (xs ys : List α) :
    (firstOf limit xs).length = (firstOf limit (xs ++ ys)).length ↔
      ys = [] ∨ limit.any (· ≤ xs.length) = true := by
  cases limit with
  | none =>
    simp [firstOf]
  | some n =>
    change (xs.take n).length = ((xs ++ ys).take n).length ↔ ys = [] ∨ decide (n ≤ xs.length) = true
    rw [length_take, length_take, length_append, decide_eq_true_iff,
      ← length_eq_zero_iff]
    omega

theorem firstOf_append_of {α : Type*} {limit : Option Nat} {xs ys : List α}
    (h : ys = [] ∨ limit.any (· ≤ xs.length) = true) :
    firstOf limit (xs ++ ys) = firstOf limit xs := by
  rcases h with rfl | h
  · rw [append_nil]
  · cases limit with
    | none => exact absurd h Bool.false_ne_true
    | some n => exact take_append_of_le_length (of_decide_eq_true h)

section Search

variable (env : Surroundings) (fs : FileTree) (root : RealPath)
  (includePatterns excludePatterns : Option (List String)) (isMatch : String → Bool)
  (limit : Option Nat)

/-- The lines that match in the entries that the search looks at: directories count among them. -/
def examined : List Match :=
  ((matching env fs root includePatterns excludePatterns).take (limit.getD usizeMax)).flatMap
    (fileMatches fs isMatch)

/-- The lines that match in the other entries. -/
def unexamined : List Match :=
  ((matching env fs root includePatterns excludePatterns).drop (limit.getD usizeMax)).flatMap
    (fileMatches fs isMatch)

/-- All lines that match. -/
def matchingLines : List Match :=
  (matching env fs root includePatterns excludePatterns).flatMap (fileMatches fs isMatch)

theorem matchingLines_eq :
    matchingLines env fs root includePatterns excludePatterns isMatch =
      examined env fs root includePatterns excludePatterns isMatch limit ++
        unexamined env fs root includePatterns excludePatterns isMatch limit := by
  rw [examined, unexamined, ← flatMap_append, take_append_drop]
  rfl

/-- The search finds the first lines that match, and where they are, exactly when the entries that
it looks at hold as many as the limit or the others hold none, and no line before a line that it
reports ends with a carriage return. -/
theorem regex_search_exact {newRegex : String → Except String (String → Bool)}
    {regexPattern : String} {caseSensitive : Bool}
    (hregex : newRegex (if caseSensitive then regexPattern else "(?i)" ++ regexPattern) =
      .ok isMatch) :
    searchFilesWithRegex env newRegex fs root regexPattern includePatterns excludePatterns limit
        caseSensitive = .ok ((firstOf limit
          (matchingLines env fs root includePatterns excludePatterns isMatch)).map Match.located) ↔
      (unexamined env fs root includePatterns excludePatterns isMatch limit = [] ∨
        limit.any (fun most => most ≤
          (examined env fs root includePatterns excludePatterns isMatch limit).length) = true) ∧
      ∀ m ∈ firstOf limit (examined env fs root includePatterns excludePatterns isMatch limit),
        ∀ segment ∈ m.earlier, ¬ Crlf segment := by
  have hsearch : searchFilesWithRegex env newRegex fs root regexPattern includePatterns
      excludePatterns limit caseSensitive = .ok ((firstOf limit
        (examined env fs root includePatterns excludePatterns isMatch limit)).map
          Match.reported) := by
    have hleft : left limit 0 = limit := by cases limit <;> rfl
    rw [searchFilesWithRegex, hregex]
    dsimp only
    rw [searchFiles_eq, hleft, getFilesRecursive_eq, drop_zero, examined]
  rw [hsearch, Except.ok.injEq, matchingLines_eq env fs root includePatterns excludePatterns isMatch
    limit]
  have hfound : ∀ m ∈ firstOf limit
      (examined env fs root includePatterns excludePatterns isMatch limit),
      (m.reported = m.located ↔ ∀ segment ∈ m.earlier, ¬ Crlf segment) := by
    intro m hm
    have hmem : m ∈ examined env fs root includePatterns excludePatterns isMatch limit := by
      cases limit with
      | none => exact hm
      | some n => exact mem_of_mem_take hm
    obtain ⟨file, _, hfile⟩ := mem_flatMap.mp hmem
    exact reported_iff hfile
  constructor
  · intro heq
    have hlength := congrArg List.length heq
    rw [length_map, length_map] at hlength
    have hcomplete := (firstOf_append_length limit _ _).mp hlength
    rw [firstOf_append_of hcomplete] at heq
    refine ⟨hcomplete, ?_⟩
    intro m hm
    exact (hfound m hm).mp (map_inj_left.mp heq m hm)
  · rintro ⟨hcomplete, hcrlf⟩
    rw [firstOf_append_of hcomplete]
    exact map_congr_left fun m hm => (hfound m hm).mpr (hcrlf m hm)

end Search

/-- A pattern that matches the lines that hold its text. -/
def literalRegex (pattern : String) : Except String (String → Bool) :=
  .ok fun line => Text.contains line pattern

theorem regex_search_exact_sample :
    searchFilesWithRegex listedSurroundings literalRegex listedTree ["src"] "b" none none (some 3)
        true = .ok [⟨"/src/b.rs", 0, "b"⟩] := by
  have hregex : literalRegex (if true then "b" else "(?i)" ++ "b") =
      .ok fun line => Text.contains line "b" := rfl
  have hexamined : examined listedSurroundings listedTree ["src"] none none
      (fun line => Text.contains line "b") (some 3) = [⟨"/src/b.rs", [], ['b', '\n']⟩] := by
    decide
  refine ((regex_search_exact listedSurroundings listedTree ["src"] none none _ (some 3)
    hregex).mpr ⟨Or.inl (by decide), ?_⟩).trans (by decide)
  intro m hm
  rw [hexamined] at hm
  rw [mem_singleton.mp hm]
  exact fun segment hsegment => absurd hsegment not_mem_nil

/-- The directory itself is the one entry that the search for one line looks at. -/
theorem regex_search_incomplete :
    ¬ ∀ (fs : FileTree) (limit : Option Nat),
      searchFilesWithRegex listedSurroundings literalRegex fs ["src"] "b" none none limit true =
        .ok ((firstOf limit (matchingLines listedSurroundings fs ["src"] none none
          fun line => Text.contains line "b")).map Match.located) := by
  intro hall
  have hone := hall listedTree (some 1)
  revert hone
  decide

end ColossalCode.ToolsBinary.Files
