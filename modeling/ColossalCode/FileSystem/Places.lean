import ColossalCode.FileSystem.Paths

/-! Where resolution ends: in a place, a name in a directory that is reached through directories
only, or at such a name with nothing there. -/
namespace FileSystem.Tree
open List Option

variable {α : Type} {fs : Tree α} {follow : Bool} {links : Nat} {name : String}
variable {cur dir path : RealPath} {components rest dots : List Component} {target : Path}

/-- A directory with directories only above it. -/
def Reached (fs : Tree α) (dir : RealPath) : Prop :=
  ∀ above, above <+: dir → fs.lookup above = some .dir

/-- A real path: whatever stands there, only directories stand above it. -/
def Placed (fs : Tree α) (path : RealPath) : Prop :=
  ∀ above, above <+: path → above ≠ path → fs.lookup above = some .dir

theorem lookup_root : fs.lookup [] = some .dir := rfl

theorem mem_entries {node : Node α} (h : fs.lookup path = some node) (hdir : node ≠ .dir) :
    (path, node) ∈ fs.entries := by
  by_cases hroot : path = []
  · subst hroot
    cases h
    exact absurd rfl hdir
  · rw [Tree.lookup, if_neg hroot, map_eq_some_iff] at h
    obtain ⟨entry, hentry, rfl⟩ := h
    have hpath := find?_some hentry
    rw [← of_decide_eq_true hpath]
    exact mem_of_find?_eq_some hentry

theorem reached_root : fs.Reached [] := by
  intro above h
  rw [prefix_nil.mp h]
  exact lookup_root

theorem Reached.snoc (h : fs.Reached dir) (hdir : fs.lookup (dir ++ [name]) = some .dir) :
    fs.Reached (dir ++ [name]) := by
  intro above habove
  rcases prefix_concat_iff.mp habove with rfl | habove
  · exact hdir
  · exact h above habove

theorem Reached.dropLast (h : fs.Reached dir) : fs.Reached dir.dropLast := by
  intro above habove
  exact h above (habove.trans dir.dropLast_prefix)

theorem placed_snoc_iff : fs.Placed (dir ++ [name]) ↔ fs.Reached dir := by
  constructor
  · intro h above habove
    apply h above (habove.trans (prefix_append dir [name]))
    intro heq
    have hlength := habove.length_le
    rw [heq, length_append, length_singleton] at hlength
    exact Nat.not_succ_le_self dir.length hlength
  · intro h above habove hne
    rcases prefix_concat_iff.mp habove with heq | habove
    · exact absurd heq hne
    · exact h above habove

theorem Reached.placed (h : fs.Reached dir) : fs.Placed dir :=
  fun above habove _ => h above habove

theorem Placed.reached (h : fs.Placed path) (hdir : fs.lookup path = some .dir) :
    fs.Reached path := by
  intro above habove
  by_cases heq : above = path
  · rw [heq]
    exact hdir
  · exact h above habove heq

theorem Reached.lookup (h : fs.Reached dir) : fs.lookup dir = some .dir :=
  h dir (prefix_refl dir)

/-- What stands where a resolution ends: a node, and no link when links are followed. -/
def Stands (fs : Tree α) (follow : Bool) (path : RealPath) : Prop :=
  fs.Placed path ∧ ∃ node, fs.lookup path = some node ∧ (follow = true → node.isLink = false)

theorem Reached.stands (h : fs.Reached dir) : fs.Stands follow dir :=
  ⟨h.placed, .dir, h.lookup, fun _ => rfl⟩

def Scan.Ends (fs : Tree α) (follow : Bool) : Scan → Prop
  | .found path => fs.Stands follow path
  | .missing dir name => fs.Reached dir ∧ fs.lookup (dir ++ [name]) = none
  | .failed _ => True
  | .link dir _ _ => fs.Reached dir

def Resolution.Ends (fs : Tree α) (follow : Bool) : Resolution → Prop
  | .found path => fs.Stands follow path
  | .missing dir name => fs.Reached dir ∧ fs.lookup (dir ++ [name]) = none
  | .failed _ => True

theorem scan_ends (h : fs.Reached cur) : (fs.scan follow cur components).Ends fs follow := by
  fun_induction scan fs follow cur components with
  | case1 cur => exact h.stands
  | case2 cur rest ih => exact ih h
  | case3 cur rest ih => exact ih h.dropLast
  | case4 cur name hnone => exact ⟨h, hnone⟩
  | case5 cur name rest hnone hrest => trivial
  | case6 cur name rest hdir ih => exact ih (h.snoc hdir)
  | case7 cur name content hfile => exact ⟨placed_snoc_iff.mpr h, _, hfile, fun _ => rfl⟩
  | case8 cur name rest content hfile hrest => trivial
  | case9 cur name rest target hlink hlast =>
    refine ⟨placed_snoc_iff.mpr h, _, hlink, ?_⟩
    intro hfollow
    rw [hlast.2] at hfollow
    cases hfollow
  | case10 cur name rest target hlink hlast => exact h

theorem walk_ends (h : fs.Reached cur) : (fs.walk follow links cur components).Ends fs follow := by
  have hends : (fs.scan follow cur components).Ends fs follow := scan_ends h
  fun_induction walk fs follow links cur components with
  | case1 links cur components path hscan => rw [hscan] at hends; exact hends
  | case2 links cur components dir name hscan => rw [hscan] at hends; exact hends
  | case3 links cur components e hscan => trivial
  | case4 cur components dir target rest hscan => trivial
  | case5 cur components dir target rest hscan links ih =>
    rw [hscan] at hends
    have hstart : fs.Reached (if target.absolute then [] else dir) := by
      split
      · exact reached_root
      · exact hends
    exact ih hstart (scan_ends hstart)

theorem resolve_found (h : fs.resolve follow components = .found path) : fs.Stands follow path := by
  have hends : (fs.walk follow maxLinks [] components).Ends fs follow := walk_ends reached_root
  rw [← resolve, h] at hends
  exact hends

theorem scan_real (h : fs.Reached (cur ++ path)) :
    fs.scan follow cur (path.components ++ rest) = fs.scan follow (cur ++ path) rest := by
  induction path generalizing cur with
  | nil => rw [append_nil]; rfl
  | cons name path ih =>
    have hassoc : cur ++ name :: path = cur ++ [name] ++ path := by simp
    have hdir : fs.lookup (cur ++ [name]) = some .dir := by
      apply h
      rw [hassoc]
      exact prefix_append _ _
    rw [hassoc] at h ⊢
    rw [← ih h]
    simp only [RealPath.components, map_cons, cons_append, scan, hdir]

theorem resolve_reached (h : fs.Reached dir) :
    fs.resolve follow dir.components = .found dir := by
  have hscan : fs.scan follow [] (RealPath.components dir ++ []) = fs.scan follow ([] ++ dir) [] :=
    scan_real h
  rw [append_nil] at hscan
  rw [resolve, walk, hscan]
  rfl

theorem components_snoc :
    RealPath.components (dir ++ [name]) = dir.components ++ [.normal name] := by
  simp [RealPath.components]

/-- A real path is resolved to itself, where no link stands in it or none is followed. -/
theorem resolve_stands (h : fs.Stands follow path) :
    fs.resolve follow path.components = .found path := by
  obtain ⟨hplaced, node, hnode, hlink⟩ := h
  rcases eq_nil_or_concat path with rfl | ⟨dir, name, rfl⟩
  · exact resolve_reached reached_root
  · rw [concat_eq_append] at *
    have hreached := placed_snoc_iff.mp hplaced
    have hscan : fs.scan follow [] (RealPath.components dir ++ [.normal name]) =
        fs.scan follow ([] ++ dir) [.normal name] := scan_real hreached
    rw [resolve, walk, components_snoc, hscan]
    cases node with
    | dir => simp only [nil_append, scan, hnode]
    | file content => simp only [nil_append, scan, hnode, if_true]
    | link target =>
      have hstay : follow = false := by
        cases follow with
        | false => rfl
        | true => cases hlink rfl
      simp only [nil_append, scan, hnode, hstay, and_self, if_true]

theorem resolve_absent (h : fs.Reached dir) (hnone : fs.lookup (dir ++ [name]) = none) :
    fs.resolve follow (RealPath.components (dir ++ [name])) = .missing dir name := by
  have hscan : fs.scan follow [] (RealPath.components dir ++ [.normal name]) =
      fs.scan follow ([] ++ dir) [.normal name] := scan_real h
  rw [resolve, walk, components_snoc, hscan]
  simp only [nil_append, scan, hnone, if_true]

theorem resolve_below_file (h : fs.Placed path) {content : α}
    (hfile : fs.lookup path = some (.file content)) :
    fs.resolve follow (RealPath.components (path ++ [name])) = .failed .notADirectory := by
  rcases eq_nil_or_concat path with rfl | ⟨dir, last, rfl⟩
  · cases hfile
  · rw [concat_eq_append] at *
    have hreached := placed_snoc_iff.mp h
    have hscan : fs.scan follow [] (RealPath.components dir ++ [.normal last, .normal name]) =
        fs.scan follow ([] ++ dir) [.normal last, .normal name] := scan_real hreached
    have hnames : RealPath.components (dir ++ [last] ++ [name]) =
        RealPath.components dir ++ [.normal last, .normal name] := by
      simp [RealPath.components]
    rw [resolve, walk, hnames, hscan]
    simp [scan, hfile]

/-- A link that is followed is the last name of the path, or it is followed in any case. -/
theorem scan_unfollowed (fs : Tree α) (cur : RealPath) (components : List Component) :
    (∀ path, fs.scan true cur components = .found path →
      fs.scan false cur components = .found path) ∧
    ∀ dir target rest, fs.scan true cur components = .link dir target rest →
      fs.scan false cur components = .link dir target rest ∨
        ∃ path, fs.scan false cur components = .found path ∧
          fs.lookup path = some (.link target) := by
  fun_induction scan fs true cur components with
  | case1 cur => exact ⟨fun _ h => h, fun _ _ _ h => by cases h⟩
  | case2 cur rest ih | case3 cur rest ih =>
    rw [scan]
    exact ih
  | case4 | case5 | case8 => simp
  | case6 cur name rest hdir ih =>
    simp only [scan, hdir]
    exact ih
  | case7 cur name content hfile =>
    simp only [scan, hfile, if_true]
    exact ⟨fun _ h => h, fun _ _ _ h => by cases h⟩
  | case9 cur name rest target hlink hlast => cases hlast.2
  | case10 cur name rest target hlink hlast =>
    refine ⟨fun _ h => (by cases h), fun _ _ _ h => ?_⟩
    cases h
    by_cases hend : rest = []
    · refine .inr ⟨_, ?_, hlink⟩
      simp only [scan, hlink, hend, and_self, if_true]
    · refine .inl ?_
      simp only [scan, hlink, hend, false_and, if_false]

theorem walk_unfollowed (h : fs.walk true links cur components = .found path) :
    fs.walk false links cur components = .found path ∨
      ∃ entry target, fs.walk false links cur components = .found entry ∧
        fs.lookup entry = some (.link target) := by
  fun_induction walk fs true links cur components with
  | case1 links cur components found hscan =>
    have hstay := (scan_unfollowed fs cur components).1 _ hscan
    rw [walk, hstay]
    exact .inl h
  | case2 links cur components dir name hscan => cases h
  | case3 links cur components e hscan => cases h
  | case4 cur components dir target rest hscan => cases h
  | case5 cur components dir target rest hscan links ih =>
    rcases (scan_unfollowed fs cur components).2 _ _ _ hscan with hstay | ⟨entry, hstay, hlink⟩
    · rw [walk, hstay]
      exact ih h
    · rw [walk, hstay]
      exact .inr ⟨entry, target, rfl, hlink⟩

theorem scan_only_dots (hdots : ∀ dot ∈ dots, dot = .curDir) :
    fs.scan follow cur dots = .found cur := by
  induction dots with
  | nil => rfl
  | cons dot dots ih =>
    rw [hdots dot mem_cons_self, scan]
    exact ih fun later hlater => hdots later (mem_cons_of_mem dot hlater)

/-- Dots after the last name change nothing for what is found, and stay behind a link. -/
theorem scan_dots (hdots : ∀ dot ∈ dots, dot = .curDir) :
    (∀ path, fs.scan true cur (components ++ dots) = .found path →
      fs.scan true cur components = .found path) ∧
    ∀ dir target rest, fs.scan true cur (components ++ dots) = .link dir target rest →
      ∃ before, rest = before ++ dots ∧
        fs.scan true cur components = .link dir target before := by
  induction components generalizing cur with
  | nil =>
    rw [nil_append, scan_only_dots hdots]
    exact ⟨fun _ h => h, fun _ _ _ h => by cases h⟩
  | cons component components ih =>
    cases component with
    | curDir => exact ih
    | parentDir => exact ih
    | normal name =>
      cases hnode : fs.lookup (cur ++ [name]) with
      | none =>
        simp only [cons_append, scan, hnode]
        split <;> simp
      | some node =>
        cases node with
        | dir =>
          simp only [cons_append, scan, hnode]
          exact ih
        | file content =>
          simp only [cons_append, scan, hnode]
          split
          · rename_i hlast
            rw [if_pos (append_eq_nil_iff.mp hlast).1]
            exact ⟨fun _ h => h, fun _ _ _ h => by cases h⟩
          · simp
        | link after =>
          simp only [cons_append, scan, hnode, Bool.true_eq_false, and_false, if_false]
          refine ⟨fun _ h => (by cases h), fun _ _ _ h => ?_⟩
          cases h
          exact ⟨components, rfl, rfl⟩

theorem walk_dots (hdots : ∀ dot ∈ dots, dot = .curDir)
    (h : fs.walk true links cur (components ++ dots) = .found path) :
    fs.walk true links cur components = .found path := by
  induction links generalizing cur components with
  | zero =>
    rw [walk] at h ⊢
    cases hscan : fs.scan true cur (components ++ dots) with
    | found found => rw [hscan] at h; rw [(scan_dots hdots).1 _ hscan]; exact h
    | missing dir name => rw [hscan] at h; cases h
    | failed e => rw [hscan] at h; cases h
    | link dir target rest => rw [hscan] at h; cases h
  | succ links ih =>
    rw [walk] at h ⊢
    cases hscan : fs.scan true cur (components ++ dots) with
    | found found => rw [hscan] at h; rw [(scan_dots hdots).1 _ hscan]; exact h
    | missing dir name => rw [hscan] at h; cases h
    | failed e => rw [hscan] at h; cases h
    | link dir target rest =>
      obtain ⟨before, rfl, hbefore⟩ := (scan_dots hdots).2 _ _ _ hscan
      rw [hscan] at h
      rw [hbefore]
      apply ih
      rw [append_assoc]
      exact h

end FileSystem.Tree
