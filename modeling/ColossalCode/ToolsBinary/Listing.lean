import ColossalCode.ToolsBinary.Files

/-! The recursive listing of the tools binary and its pages, and the windows of lines of a file. -/
namespace ColossalCode.ToolsBinary.Files
open List Option

open FileSystem

/-- `WalkDir`: a directory before its entries, links not followed; cut off so many entries deep. -/
def walkFrom (fs : FileTree) : Nat → RealPath → List RealPath
  | 0, _ => []
  | depth + 1, path =>
    match fs.lookup path with
    | none => []
    | some .dir => path :: (fs.names path).flatMap fun name => walkFrom fs depth (path ++ [name])
    | some _ => [path]

/-- No place of the tree lies deeper. -/
def height (fs : FileTree) : Nat := (fs.entries.map fun entry => entry.1.length).foldr max 0

def walkDir (fs : FileTree) (path : RealPath) : List RealPath := walkFrom fs (height fs + 1) path

variable {fs : FileTree} {path root : RealPath}

theorem length_le_height {node : Node (List UInt8)} (h : fs.lookup path = some node) :
    path.length ≤ height fs := by
  have hmax : ∀ (lengths : List Nat) (n : Nat), n ∈ lengths → n ≤ lengths.foldr max 0 := by
    intro lengths n hn
    induction lengths with
    | nil => exact absurd hn not_mem_nil
    | cons first lengths ih =>
      rw [foldr_cons]
      rcases mem_cons.mp hn with rfl | hn
      · exact Nat.le_max_left _ _
      · exact Nat.le_trans (ih hn) (Nat.le_max_right _ _)
  rw [Tree.lookup] at h
  split at h
  · rename_i hroot
    rw [hroot]
    exact Nat.zero_le _
  · obtain ⟨entry, hfind, _⟩ := map_eq_some_iff.mp h
    have hentry : entry.1 = path := by simpa using List.find?_some hfind
    apply hmax
    rw [← hentry]
    exact mem_map_of_mem (mem_of_find?_eq_some hfind)

/-- There is something at the end of the names, and a directory before each. -/
def Under (fs : FileTree) : RealPath → List String → Prop
  | path, [] => ∃ node, fs.lookup path = some node
  | path, name :: rest => fs.lookup path = some .dir ∧ Under fs (path ++ [name]) rest

theorem Under.lookup {rest : List String} (h : Under fs path rest) :
    ∃ node, fs.lookup (path ++ rest) = some node := by
  induction rest generalizing path with
  | nil => simpa [Under] using h
  | cons name rest ih => simpa using ih h.2

theorem mem_names {name : String} {node : Node (List UInt8)}
    (h : fs.lookup (path ++ [name]) = some node) : name ∈ fs.names path := by
  obtain ⟨entry, hfind, _⟩ : ∃ entry, fs.entries.find? (·.1 = path ++ [name]) = some entry ∧
      entry.2 = node := by simpa [Tree.lookup] using h
  have hentry : entry.1 = path ++ [name] := by simpa using List.find?_some hfind
  exact mem_filterMap.mpr ⟨entry, mem_of_find?_eq_some hfind, by simp [hentry]⟩

theorem mem_walkFrom {found : RealPath} {depth : Nat} : found ∈ walkFrom fs depth path ↔
    ∃ rest, rest.length < depth ∧ Under fs path rest ∧ path ++ rest = found := by
  induction depth generalizing path with
  | zero => simp [walkFrom]
  | succ depth ih =>
    rw [walkFrom]
    constructor
    · intro hfound
      split at hfound
      · cases hfound
      · rename_i hdir
        rcases mem_cons.mp hfound with rfl | hnames
        · exact ⟨[], Nat.zero_lt_succ _, ⟨_, hdir⟩, append_nil _⟩
        · obtain ⟨name, _, hwalk⟩ := mem_flatMap.mp hnames
          obtain ⟨rest, hlength, hunder, rfl⟩ := ih.mp hwalk
          exact ⟨name :: rest, Nat.succ_lt_succ hlength, ⟨hdir, hunder⟩, by simp⟩
      · rename_i hnode
        obtain rfl := mem_singleton.mp hfound
        exact ⟨[], Nat.zero_lt_succ _, ⟨_, hnode⟩, append_nil _⟩
    · rintro ⟨rest, hlength, hunder, rfl⟩
      cases rest with
      | nil =>
        obtain ⟨node, hnode⟩ := hunder
        rw [hnode, append_nil]
        cases node <;> simp
      | cons name rest =>
        obtain ⟨hdir, hunder⟩ := hunder
        have hname : name ∈ fs.names path := by
          cases rest with
          | nil => exact mem_names hunder.choose_spec
          | cons => exact mem_names hunder.1
        rw [hdir]
        refine mem_cons_of_mem _ (mem_flatMap.mpr ⟨name, hname, ih.mpr ⟨rest, ?_, hunder, by simp⟩⟩)
        exact Nat.lt_of_succ_lt_succ hlength

theorem mem_walkDir {found : RealPath} : found ∈ walkDir fs root ↔
    ∃ rest, Under fs root rest ∧ root ++ rest = found := by
  rw [walkDir, mem_walkFrom]
  refine exists_congr fun rest => and_iff_right_of_imp ?_
  rintro ⟨hunder, _⟩
  obtain ⟨node, hnode⟩ := hunder.lookup
  have hlength := length_le_height hnode
  rw [length_append] at hlength
  omega

/-- `name` is the text of `path`. -/
structure FileEntry where
  path : RealPath
  name : String
  eType : String
  length : Nat
  modified : String
  deriving DecidableEq

/-- What the listing takes from elsewhere: what a pattern says of the text of a path, and the
length and time of a file. -/
structure Surroundings where
  Glob : Type
  newGlob : String → Option Glob
  build : List Glob → Option (String → Bool)
  metadata : RealPath → Nat × String

variable (env : Surroundings)

/-- Patterns that are no globs are left out; a set that cannot be built matches nothing. -/
def globSet (patterns : List String) (path : String) : Bool :=
  (env.build (patterns.filterMap env.newGlob)).elim false (· path)

def pathStr (root path : RealPath) : String := "/".intercalate (path.drop root.length)

/-- The entry is there, and the patterns let it through. -/
def listed (fs : FileTree) (root : RealPath)
    (includePatterns excludePatterns : Option (List String)) (path : RealPath) : Bool :=
  fs.pathExists path &&
    (if includePatterns.any (!·.isEmpty) then
      globSet env (includePatterns.getD []) (pathStr root path)
    else true) &&
    !globSet env (excludePatterns.getD []) (pathStr root path)

def fileEntry (fs : FileTree) (path : RealPath) : FileEntry :=
  if fs.lookup path = some .dir then
    ⟨path, display path, "directory", 0, (env.metadata path).2⟩
  else ⟨path, display path, "regular file", (env.metadata path).1, (env.metadata path).2⟩

/-- One turn of the loop of `get_files_recursive`, with the entries so far and the number of those
that have matched. -/
def visit (fs : FileTree) (root : RealPath)
    (includePatterns excludePatterns : Option (List String)) (limit offset : Nat)
    (state : List FileEntry × Nat) (path : RealPath) : List FileEntry × Nat :=
  if listed env fs root includePatterns excludePatterns path then
    if state.2 + 1 ≤ offset then (state.1, state.2 + 1)
    else if limit ≤ state.1.length then (state.1, state.2 + 1)
    else (state.1 ++ [fileEntry env fs path], state.2 + 1)
  else state

def getFilesRecursive (fs : FileTree) (root : RealPath)
    (includePatterns excludePatterns : Option (List String)) (limit offset : Nat) :
    List FileEntry × Nat :=
  (walkDir fs root).foldl (visit env fs root includePatterns excludePatterns limit offset) ([], 0)

structure FileListResult where
  status : String
  files : List FileEntry
  total : Nat
  remaining : Nat
  limit : Nat
  offset : Nat
  deriving DecidableEq

/-- The arm of `main`, with the limit and the offset that the arguments are read as. -/
def listFiles (fs : FileTree) (root : RealPath) (includePatterns excludePatterns : List String)
    (limit offset : Nat) : FileListResult :=
  let option (patterns : List String) := if patterns.isEmpty then none else some patterns
  let (files, total) := getFilesRecursive env fs root (option includePatterns)
    (option excludePatterns) limit offset
  ⟨"Success", files, total, total - (offset + files.length), limit, offset⟩

variable {env} {includePatterns excludePatterns : Option (List String)} {limit offset : Nat}

/-- All entries that match, in the order of the walk. -/
def matching (env : Surroundings) (fs : FileTree) (root : RealPath)
    (includePatterns excludePatterns : Option (List String)) : List FileEntry :=
  ((walkDir fs root).filter (listed env fs root includePatterns excludePatterns)).map
    (fileEntry env fs)

theorem foldl_visit (paths : List RealPath) :
    paths.foldl (visit env fs root includePatterns excludePatterns limit offset) ([], 0) =
      let found := (paths.filter (listed env fs root includePatterns excludePatterns)).map
        (fileEntry env fs)
      ((found.drop offset).take limit, found.length) := by
  induction paths using List.reverseRecOn with
  | nil => simp
  | append_singleton paths path ih =>
    rw [foldl_append, ih, foldl_cons, foldl_nil, visit, filter_append,
      map_append]
    by_cases hlisted : listed env fs root includePatterns excludePatterns path = true
    · rw [if_pos hlisted, filter_cons_of_pos hlisted, filter_nil, map_singleton]
      generalize (paths.filter (listed env fs root includePatterns excludePatterns)).map
        (fileEntry env fs) = found
      dsimp only
      by_cases hbefore : found.length + 1 ≤ offset
      · rw [if_pos hbefore, drop_eq_nil_of_le (by omega), drop_eq_nil_of_le (by simpa)]
        simp
      · rw [if_neg hbefore, drop_append_of_le_length (by omega)]
        by_cases hfull : limit ≤ ((found.drop offset).take limit).length
        · rw [if_pos hfull, take_append_of_le_length]
          · simp
          · rw [length_take] at hfull
            omega
        · rw [if_neg hfull]
          rw [length_take] at hfull
          rw [take_of_length_le (by omega), take_of_length_le]
          · simp
          · rw [length_append, length_singleton]
            omega
    · rw [if_neg hlisted, filter_cons_of_neg hlisted, filter_nil, map_nil,
        append_nil]

theorem getFilesRecursive_eq :
    getFilesRecursive env fs root includePatterns excludePatterns limit offset =
      (((matching env fs root includePatterns excludePatterns).drop offset).take limit,
        (matching env fs root includePatterns excludePatterns).length) :=
  foldl_visit (walkDir fs root)

/-- For every page size some page holds an entry if and only if it is below the root, with
directories only on the way, and the patterns let it through. -/
theorem listing_complete (env : Surroundings) (fs : FileTree) (root : RealPath)
    (includePatterns excludePatterns : Option (List String)) (limit : Nat) (entry : FileEntry) :
    (∃ offset, entry ∈
        (getFilesRecursive env fs root includePatterns excludePatterns (limit + 1) offset).1) ↔
      ∃ rest, Under fs root rest ∧
        listed env fs root includePatterns excludePatterns (root ++ rest) = true ∧
        fileEntry env fs (root ++ rest) = entry := by
  have hpages : (∃ offset, entry ∈
      (getFilesRecursive env fs root includePatterns excludePatterns (limit + 1) offset).1) ↔
      entry ∈ matching env fs root includePatterns excludePatterns := by
    simp only [getFilesRecursive_eq]
    constructor
    · rintro ⟨offset, hpage⟩
      exact mem_of_mem_drop (mem_of_mem_take hpage)
    · intro hentry
      obtain ⟨i, hi, rfl⟩ := getElem_of_mem hentry
      refine ⟨i, ?_⟩
      rw [drop_eq_getElem_cons hi, take_succ_cons]
      exact mem_cons_self
  rw [hpages, matching]
  simp only [List.mem_map, mem_filter, mem_walkDir]
  constructor
  · rintro ⟨_, ⟨⟨rest, hunder, rfl⟩, hlisted⟩, hentry⟩
    exact ⟨rest, hunder, hlisted, hentry⟩
  · rintro ⟨rest, hunder, hlisted, hentry⟩
    exact ⟨_, ⟨⟨rest, hunder, rfl⟩, hlisted⟩, hentry⟩

/-- The next page begins where the last one ends. -/
theorem flatMap_pages {α : Type*} (xs : List α) (n count : Nat) :
    (List.range count).flatMap (fun i => (xs.drop (i * n)).take n) = xs.take (count * n) := by
  induction count with
  | zero => simp
  | succ count ih =>
    rw [range_succ, flatMap_append, ih, flatMap_singleton, Nat.succ_mul,
      take_add]

theorem pages_concat {n count unpaged : Nat}
    (hall : (matching env fs root includePatterns excludePatterns).length ≤ count * n)
    (hunpaged : (matching env fs root includePatterns excludePatterns).length ≤ unpaged) :
    (List.range count).flatMap (fun i =>
        (getFilesRecursive env fs root includePatterns excludePatterns n (i * n)).1) =
      (getFilesRecursive env fs root includePatterns excludePatterns unpaged 0).1 := by
  simp only [getFilesRecursive_eq]
  rw [flatMap_pages, take_of_length_le hall, drop_zero, take_of_length_le hunpaged]

theorem remaining_eq (files : List FileEntry) (limit offset : Nat) :
    (offset ≤ files.length → ((files.length - (offset + ((files.drop offset).take limit).length) :
        Nat) : Int) = files.length - offset - ((files.drop offset).take limit).length) ∧
    (files.length < offset → files.length - (offset + ((files.drop offset).take limit).length) = 0 ∧
      (files.drop offset).take limit = []) := by
  constructor
  · intro hoffset
    rw [length_take, length_drop]
    omega
  · intro hpast
    rw [drop_eq_nil_of_le (by omega), take_nil]
    exact ⟨by omega, rfl⟩

/-- Windows of so many lines each, every one after the one before. -/
def windows (start : Nat) : List Nat → List (Nat × Nat)
  | [] => []
  | size :: sizes => (start, size) :: windows (start + size) sizes

def windowsEnd (start : Nat) : List Nat → Nat
  | [] => start
  | size :: sizes => windowsEnd (start + size) sizes

variable {content : List Char}

theorem le_windowsEnd (start : Nat) (sizes : List Nat) : start ≤ windowsEnd start sizes := by
  induction sizes generalizing start with
  | nil => exact Nat.le_refl start
  | cons size sizes ih => exact Nat.le_trans (Nat.le_add_right start size) (ih (start + size))

theorem sliceLines_window (content : List Char) (start limit : Nat) :
    sliceLines content start (some limit) =
      (((splitInclusive content).drop start).take limit).flatten := by
  rw [sliceLines]
  by_cases hzero : limit = 0
  · subst hzero
    rfl
  · simp only [if_neg hzero, Int.natCast_nonneg, if_true, Int.toNat_natCast]
    generalize splitInclusive content = segments
    by_cases hpast : segments.length ≤ start
    · rw [drop_eq_nil_of_le hpast, drop_eq_nil_of_le (by rw [length_take]; omega)]
      simp
    · rw [Nat.min_eq_left (by omega : start ≤ segments.length), ← take_eq_take_min,
        drop_take, Nat.add_sub_cancel_left]

theorem windows_concat (content : List Char) (start : Nat) (sizes : List Nat) :
    (windows start sizes).flatMap (fun window => sliceLines content window.1 (some window.2)) =
      (((splitInclusive content).drop start).take (windowsEnd start sizes - start)).flatten := by
  induction sizes generalizing start with
  | nil => simp [windows, windowsEnd]
  | cons size sizes ih =>
    have hend := le_windowsEnd (start + size) sizes
    have hlength : windowsEnd start (size :: sizes) - start =
        size + (windowsEnd (start + size) sizes - (start + size)) := by
      rw [windowsEnd]
      omega
    rw [windows, flatMap_cons, ih, sliceLines_window, hlength, take_add, drop_drop,
      flatten_append]

theorem sliceLines_last {k : Nat} (hk : 0 < k)
    (hlines : k ≤ 0x7FFFFFFFFFFFFFFF ∨ (splitInclusive content).length ≤ 0x7FFFFFFFFFFFFFFF) :
    sliceLines content (-(k : Int)) none =
      ((splitInclusive content).drop ((splitInclusive content).length -
        min k (splitInclusive content).length)).flatten := by
  have hnegative : ¬ (0 : Int) ≤ -(k : Int) := by omega
  have hmin : min (min k 0x7FFFFFFFFFFFFFFF) (splitInclusive content).length =
      min k (splitInclusive content).length := by omega
  simp only [sliceLines, if_neg hnegative, Int.natAbs_neg, Int.natAbs_natCast, hmin]

/-- The pages of a listing are the listing, each with the count of what is left after it; windows
of lines one after the other are the file, and a negative offset counts lines from its end. -/
theorem paging_partitions (env : Surroundings) (fs : FileTree) (root : RealPath) :
    (∀ (includePatterns excludePatterns : Option (List String)) (n count unpaged : Nat),
      (getFilesRecursive env fs root includePatterns excludePatterns n 0).2 ≤ count * n →
      (getFilesRecursive env fs root includePatterns excludePatterns n 0).2 ≤ unpaged →
      (List.range count).flatMap (fun i =>
          (getFilesRecursive env fs root includePatterns excludePatterns n (i * n)).1) =
        (getFilesRecursive env fs root includePatterns excludePatterns unpaged 0).1 ∧
      ∀ i, (getFilesRecursive env fs root includePatterns excludePatterns n (i * n)).2 =
        (getFilesRecursive env fs root includePatterns excludePatterns unpaged 0).1.length) ∧
    (∀ (includePatterns excludePatterns : List String) (limit offset : Nat),
      let page := listFiles env fs root includePatterns excludePatterns limit offset
      (offset ≤ page.total →
        (page.remaining : Int) = page.total - offset - page.files.length) ∧
      (page.total < offset → page.remaining = 0 ∧ page.files = [])) ∧
    (∀ (content : List Char) (sizes : List Nat),
      (splitInclusive content).length ≤ windowsEnd 0 sizes →
      (windows 0 sizes).flatMap (fun window => sliceLines content window.1 (some window.2)) =
        content) ∧
    ∀ (content : List Char) (k : Nat), 0 < k →
      (k ≤ 0x7FFFFFFFFFFFFFFF ∨ (splitInclusive content).length ≤ 0x7FFFFFFFFFFFFFFF) →
      sliceLines content (-(k : Int)) none =
        ((splitInclusive content).drop ((splitInclusive content).length -
          min k (splitInclusive content).length)).flatten := by
  refine ⟨?_, ?_, ?_, ?_⟩
  · intro includePatterns excludePatterns n count unpaged hall hunpaged
    rw [getFilesRecursive_eq] at hall hunpaged
    refine ⟨pages_concat hall hunpaged, ?_⟩
    intro i
    rw [getFilesRecursive_eq, getFilesRecursive_eq, drop_zero, take_of_length_le hunpaged]
  · intro includePatterns excludePatterns limit offset
    simp only [listFiles, getFilesRecursive_eq]
    exact remaining_eq _ limit offset
  · intro content sizes hlines
    rw [windows_concat, drop_zero, Nat.sub_zero, take_of_length_le hlines,
      flatten_splitInclusive]
  · intro content k hk hlines
    exact sliceLines_last hk hlines

def listedTree : FileTree :=
  ⟨[(["src"], .dir), (["src", "a.rs"], .file [97, 10]), (["src", "b.rs"], .file [98, 10])]⟩

/-- A pattern matches its own text. -/
def listedSurroundings : Surroundings where
  Glob := String
  newGlob := some
  build patterns := some fun path => patterns.contains path
  metadata _ := (2, "")

theorem paging_partitions_sample :
    (List.range 3).flatMap (fun i =>
        (getFilesRecursive listedSurroundings listedTree ["src"] none none 1 (i * 1)).1) =
      (getFilesRecursive listedSurroundings listedTree ["src"] none none 200 0).1 ∧
    sliceLines ['a', '\n', 'b'] (-((1 : Nat) : Int)) none = ['b'] := by
  obtain ⟨hpages, _, _, hlast⟩ := paging_partitions listedSurroundings listedTree ["src"]
  exact ⟨(hpages none none 1 3 200 (by decide) (by decide)).1,
    (hlast ['a', '\n', 'b'] 1 (by decide) (by decide)).trans (by decide)⟩

end ColossalCode.ToolsBinary.Files
