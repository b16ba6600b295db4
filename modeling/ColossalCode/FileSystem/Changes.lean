import ColossalCode.FileSystem.Places
import Mathlib.Data.List.Find

/-! What the operations change. A tree that entries are taken out of resolves no path to a place
that it was not resolved to before. -/
namespace FileSystem.Tree
open List Option

variable {α : Type} {fs fs' : Tree α} {follow : Bool} {links : Nat} {name : String}
  {cur dir path place : RealPath} {components : List Component} {node : Node α}

/-- What is in a place is as before, or it is gone from a place that may be touched. -/
def Pruned (fs : Tree α) (touched : RealPath → Prop) (fs' : Tree α) : Prop :=
  ∀ path, fs'.lookup path = fs.lookup path ∨
    fs'.lookup path = none ∧ touched path ∧ fs.Placed path

variable {touched touched' : RealPath → Prop}

theorem Pruned.refl : fs.Pruned touched fs := fun _ => .inl rfl

theorem Pruned.kept (h : fs.Pruned touched fs') (hnode : fs'.lookup path = some node) :
    fs.lookup path = some node := by
  rcases h path with hsame | ⟨hnone, -⟩
  · rw [← hsame]
    exact hnode
  · rw [hnone] at hnode
    cases hnode

theorem Pruned.placed (h : fs.Pruned touched fs') (hplaced : fs'.Placed path) : fs.Placed path :=
  fun above habove hne => h.kept (hplaced above habove hne)

theorem Pruned.mono (h : fs.Pruned touched fs') (himp : ∀ path, touched path → touched' path) :
    fs.Pruned touched' fs' := by
  intro path
  rcases h path with hsame | ⟨hnone, htouched, hplaced⟩
  · exact .inl hsame
  · exact .inr ⟨hnone, himp path htouched, hplaced⟩

theorem Pruned.trans {fs'' : Tree α} (h : fs.Pruned touched fs') (h' : fs'.Pruned touched fs'') :
    fs.Pruned touched fs'' := by
  intro path
  rcases h' path with hsame | ⟨hnone, htouched, hplaced⟩
  · rw [hsame]
    exact h path
  · exact .inr ⟨hnone, htouched, h.placed hplaced⟩

theorem Pruned.reached (h : fs.Pruned touched fs') (hreached : fs.Reached path)
    (houtside : ∀ above, above <+: path → ¬ touched above) : fs'.Reached path := by
  intro above habove
  rcases h above with hsame | ⟨-, htouched, -⟩
  · rw [hsame]
    exact hreached above habove
  · exact absurd htouched (houtside above habove)

/-- A step of a resolution that ends at a node takes the same way where more is left. -/
theorem scan_pruned (h : fs.Pruned touched fs') {scanned : Scan}
    (hscan : fs'.scan follow cur components = scanned)
    (hmissing : ∀ dir name, scanned ≠ .missing dir name) (hfailed : ∀ e, scanned ≠ .failed e) :
    fs.scan follow cur components = scanned := by
  fun_induction scan fs' follow cur components with
  | case1 cur => exact hscan
  | case2 cur rest ih => exact ih hscan
  | case3 cur rest ih => exact ih hscan
  | case4 cur name hnone => exact absurd hscan.symm (hmissing cur name)
  | case5 cur name rest hnone hrest => exact absurd hscan.symm (hfailed .notFound)
  | case6 cur name rest hdir ih =>
    simp only [scan, h.kept hdir]
    exact ih hscan
  | case7 cur name content hfile =>
    simp only [scan, h.kept hfile, if_true]
    exact hscan
  | case8 cur name rest content hfile hrest => exact absurd hscan.symm (hfailed .notADirectory)
  | case9 cur name rest target hlink hlast =>
    simp only [scan, h.kept hlink, if_pos hlast]
    exact hscan
  | case10 cur name rest target hlink hlast =>
    simp only [scan, h.kept hlink, if_neg hlast]
    exact hscan

theorem walk_pruned (h : fs.Pruned touched fs')
    (hwalk : fs'.walk follow links cur components = .found path) :
    fs.walk follow links cur components = .found path := by
  fun_induction walk fs' follow links cur components with
  | case1 links cur components found hscan =>
    have hstay := scan_pruned h hscan (by simp) (by simp)
    rw [walk, hstay]
    exact hwalk
  | case2 links cur components dir name hscan => cases hwalk
  | case3 links cur components e hscan => cases hwalk
  | case4 cur components dir target rest hscan => cases hwalk
  | case5 cur components dir target rest hscan links ih =>
    have hstay := scan_pruned h hscan (by simp) (by simp)
    rw [walk, hstay]
    exact ih hwalk

theorem lookup_remove (path place : RealPath) (hne : path ≠ []) :
    (fs.remove path).lookup place = if place = path then none else fs.lookup place := by
  by_cases hroot : place = []
  · subst hroot
    rw [if_neg (Ne.symm hne)]
    rfl
  · rw [Tree.lookup, if_neg hroot, remove, find?_filter]
    by_cases heq : place = path
    · subst heq
      rw [if_pos rfl]
      simp
    · rw [if_neg heq, Tree.lookup, if_neg hroot]
      congr 1
      apply find?_congr
      intro entry _
      by_cases hentry : entry.1 = place
      · simp [hentry, heq]
      · simp [hentry]

theorem lookup_put (path place : RealPath) (node : Node α) (hne : path ≠ []) :
    (fs.put path node).lookup place = if place = path then some node else fs.lookup place := by
  have hremoved : (fs.remove path).lookup place = if place = path then none else fs.lookup place :=
    lookup_remove path place hne
  by_cases hroot : place = []
  · subst hroot
    rw [if_neg (Ne.symm hne)]
    rfl
  · rw [Tree.lookup, if_neg hroot] at hremoved
    rw [Tree.lookup, if_neg hroot, put, find?_append]
    by_cases heq : place = path
    · rw [if_pos heq, map_eq_none_iff] at hremoved
      rw [hremoved, heq]
      simp
    · rw [if_neg heq] at hremoved
      rw [if_neg heq, ← hremoved]
      simp [Ne.symm heq]

theorem resolve_placed (h : fs.Placed path) :
    fs.resolve false path.components = .found path ∧ (∃ node, fs.lookup path = some node) ∨
      ∃ dir name, path = dir ++ [name] ∧
        fs.resolve false path.components = .missing dir name := by
  cases hnode : fs.lookup path with
  | some node =>
    have hstands : fs.Stands false path := ⟨h, node, hnode, fun hfollow => by cases hfollow⟩
    exact .inl ⟨resolve_stands hstands, node, rfl⟩
  | none =>
    rcases eq_nil_or_concat path with rfl | ⟨dir, name, rfl⟩
    · cases hnode
    · rw [concat_eq_append] at *
      exact .inr ⟨dir, name, rfl, resolve_absent (placed_snoc_iff.mp h) hnode⟩

theorem remove_pruned (h : fs.Placed path) (hne : path ≠ []) :
    fs.Pruned (· = path) (fs.remove path) := by
  intro place
  rw [lookup_remove path place hne]
  by_cases heq : place = path
  · subst heq
    exact .inr ⟨if_pos rfl, rfl, h⟩
  · exact .inl (if_neg heq)

theorem removeFile_pruned (h : fs.Placed path) :
    fs.Pruned (· = path) (fs.removeFile path).1 := by
  rw [removeFile]
  rcases resolve_placed h with ⟨hfound, node, hnode⟩ | ⟨dir, name, -, hmissing⟩
  · rw [hfound]
    dsimp only
    split
    · exact Pruned.refl
    · rename_i hdir
      apply remove_pruned h
      rintro rfl
      exact hdir lookup_root
  · rw [hmissing]
    exact Pruned.refl

theorem removeDir_pruned (h : fs.Placed path) :
    fs.Pruned (· = path) (fs.removeDir path).1 := by
  rw [removeDir]
  rcases resolve_placed h with ⟨hfound, node, hnode⟩ | ⟨dir, name, -, hmissing⟩
  · rw [hfound]
    dsimp only
    split
    · split
      · exact Pruned.refl
      · rename_i hroot
        split
        · exact remove_pruned h hroot
        · exact Pruned.refl
    · exact Pruned.refl
  · rw [hmissing]
    exact Pruned.refl

variable {found : RealPath} {content : α}

theorem stat_eq_ok_iff :
    fs.stat path = .ok (found, node) ↔
      fs.resolve true path.components = .found found ∧ fs.lookup found = some node := by
  rw [stat]
  cases hresolve : fs.resolve true path.components with
  | found place =>
    cases hnode : fs.lookup place with
    | none =>
      simp only [hnode, map_none, elim_none]
      constructor
      · intro h
        cases h
      · rintro ⟨h, h'⟩
        cases h
        rw [hnode] at h'
        cases h'
    | some there =>
      simp only [hnode, map_some, elim_some]
      constructor
      · intro h
        cases h
        exact ⟨rfl, hnode⟩
      · rintro ⟨h, h'⟩
        cases h
        rw [hnode] at h'
        cases h'
        rfl
  | missing dir name =>
    constructor
    · intro h
      cases h
    · rintro ⟨h, -⟩
      cases h
  | failed e =>
    constructor
    · intro h
      cases h
    · rintro ⟨h, -⟩
      cases h

theorem stat_stands (h : fs.Stands true path) (hnode : fs.lookup path = some node) :
    fs.stat path = .ok (path, node) :=
  stat_eq_ok_iff.mpr ⟨resolve_stands h, hnode⟩

theorem stat_placed (h : fs.Placed path) (hstat : fs.stat path = .ok (found, node)) :
    (∃ target, fs.lookup path = some (.link target)) ∨
      found = path ∧ fs.Stands true path ∧ fs.lookup path = some node := by
  cases hthere : fs.lookup path with
  | none =>
    rcases eq_nil_or_concat path with rfl | ⟨dir, name, rfl⟩
    · cases hthere
    · rw [concat_eq_append] at *
      have hresolve := (stat_eq_ok_iff.mp hstat).1
      rw [resolve_absent (placed_snoc_iff.mp h) hthere] at hresolve
      cases hresolve
  | some there =>
    by_cases hlink : there.isLink = false
    · have hstands : fs.Stands true path := ⟨h, there, hthere, fun _ => hlink⟩
      rw [stat_stands hstands hthere] at hstat
      cases hstat
      exact .inr ⟨rfl, hstands, rfl⟩
    · cases there with
      | dir => exact absurd rfl hlink
      | file content => exact absurd rfl hlink
      | link target => exact .inl ⟨target, rfl⟩

theorem pathExists_iff :
    fs.pathExists path = true ↔ ∃ found node, fs.stat path = .ok (found, node) := by
  rw [pathExists]
  cases hstat : fs.stat path with
  | error e => simp [Except.isOk, Except.toBool]
  | ok there =>
    simp only [Except.isOk, Except.toBool, true_iff]
    exact ⟨there.1, there.2, rfl⟩

theorem isDir_iff : fs.isDir path = true ↔ ∃ found, fs.stat path = .ok (found, .dir) := by
  rw [isDir]
  split
  · rename_i found hstat
    exact ⟨fun _ => ⟨found, hstat⟩, fun _ => rfl⟩
  · rename_i hother
    constructor
    · intro h
      cases h
    · rintro ⟨found, hstat⟩
      exact absurd hstat (hother found)

theorem isFile_iff :
    fs.isFile path = true ↔ ∃ found content, fs.stat path = .ok (found, .file content) := by
  rw [isFile]
  split
  · rename_i found content hstat
    exact ⟨fun _ => ⟨found, content, hstat⟩, fun _ => rfl⟩
  · rename_i hother
    constructor
    · intro h
      cases h
    · rintro ⟨found, content, hstat⟩
      exact absurd hstat (hother found content)

theorem Pruned.stat (h : fs.Pruned touched fs')
    (hstat : fs'.stat path = .ok (found, node)) : fs.stat path = .ok (found, node) := by
  obtain ⟨hresolve, hnode⟩ := stat_eq_ok_iff.mp hstat
  exact stat_eq_ok_iff.mpr ⟨walk_pruned h hresolve, h.kept hnode⟩

/-- A link that is followed into a directory. -/
def LeadsToDirectory (fs : Tree α) (path : RealPath) : Prop :=
  (∃ target, fs.lookup path = some (.link target)) ∧ fs.isDir path = true

theorem Pruned.leadsToDirectory (h : fs.Pruned touched fs') (hlead : fs'.LeadsToDirectory path) :
    fs.LeadsToDirectory path := by
  obtain ⟨⟨target, hlink⟩, hdir⟩ := hlead
  obtain ⟨found, hstat⟩ := isDir_iff.mp hdir
  exact ⟨⟨target, h.kept hlink⟩, isDir_iff.mpr ⟨found, h.stat hstat⟩⟩

/-- A write on a real path with no link in its place changes that place only. -/
theorem write_changes (h : fs.Placed path) (hlink : ∀ target, fs.lookup path ≠ some (.link target))
    (hne : (fs.write path content).1.lookup place ≠ fs.lookup place) :
    place = path := by
  by_contra hother
  apply hne
  rw [write]
  cases hnode : fs.lookup path with
  | some node =>
    have hstands : fs.Stands true path := by
      refine ⟨h, node, hnode, ?_⟩
      intro _
      cases node with
      | dir => rfl
      | file content => rfl
      | link target => exact absurd hnode (hlink target)
    rw [resolve_stands hstands]
    dsimp only
    split
    · rfl
    · rename_i hdir
      have hroot : path ≠ [] := by
        rintro rfl
        exact hdir lookup_root
      rw [lookup_put path place _ hroot, if_neg hother]
  | none =>
    rcases eq_nil_or_concat path with rfl | ⟨dir, name, rfl⟩
    · cases hnode
    · rw [concat_eq_append] at *
      rw [resolve_absent (placed_snoc_iff.mp h) hnode]
      exact (lookup_put _ place _ (by simp)).trans (if_neg hother)

/-- Where a name was missing, its place is found. -/
def Scan.filled (path : RealPath) : Scan → Scan
  | .missing dir name => if dir ++ [name] = path then .found path else .missing dir name
  | scanned => scanned

section Writing

variable (hne : path ≠ [])
  (hplace : ∀ node, fs.lookup path = some node → ∃ before, node = .file before)

include hne hplace

/-- A file that is put where no directory and no link stands is in no other way. -/
theorem scan_put {scanned : Scan} (hscan : fs.scan follow cur components = scanned)
    (hfailed : ∀ e, scanned ≠ .failed e) :
    (fs.put path (.file content)).scan follow cur components = scanned.filled path := by
  have hput (place : RealPath) : (fs.put path (.file content)).lookup place =
      if place = path then some (.file content) else fs.lookup place :=
    lookup_put path place (.file content) hne
  have hother {place : RealPath} {node : Node α} (hnode : fs.lookup place = some node)
      (hfile : ∀ before, node ≠ .file before) : place ≠ path := by
    rintro rfl
    obtain ⟨before, hbefore⟩ := hplace node hnode
    exact hfile before hbefore
  subst hscan
  fun_induction scan fs follow cur components with
  | case1 cur => rfl
  | case2 cur rest ih => exact ih hfailed
  | case3 cur rest ih => exact ih hfailed
  | case4 cur name hnone =>
    by_cases heq : cur ++ [name] = path
    · simp only [scan, hput, if_true, Scan.filled, heq]
    · simp only [scan, hput, if_neg heq, hnone, if_true, Scan.filled]
  | case5 cur name rest hnone hrest => exact absurd rfl (hfailed .notFound)
  | case6 cur name rest hdir ih =>
    simp only [scan, hput, if_neg (hother hdir (by simp)), hdir]
    exact ih hfailed
  | case7 cur name before hfile =>
    by_cases heq : cur ++ [name] = path
    · simp only [scan, hput, if_pos heq, if_true, Scan.filled]
    · simp only [scan, hput, if_neg heq, hfile, if_true, Scan.filled]
  | case8 cur name rest before hfile hrest => exact absurd rfl (hfailed .notADirectory)
  | case9 cur name rest target hlink hlast =>
    simp only [scan, hput, if_neg (hother hlink (by simp)), hlink, if_pos hlast, Scan.filled]
  | case10 cur name rest target hlink hlast =>
    simp only [scan, hput, if_neg (hother hlink (by simp)), hlink, if_neg hlast, Scan.filled]

theorem walk_put
    (hwalk : fs.walk follow links cur components = .found path ∨
      ∃ dir name, fs.walk follow links cur components = .missing dir name ∧ dir ++ [name] = path) :
    (fs.put path (.file content)).walk follow links cur components = .found path := by
  fun_induction walk fs follow links cur components with
  | case1 links cur components found hscan =>
    rcases hwalk with hfound | ⟨dir, name, hmissing, -⟩
    · cases hfound
      rw [walk, scan_put hne hplace hscan (by simp)]
      rfl
    · cases hmissing
  | case2 links cur components dir name hscan =>
    rcases hwalk with hfound | ⟨dir', name', hmissing, hpath⟩
    · cases hfound
    · cases hmissing
      rw [walk, scan_put hne hplace hscan (by simp), Scan.filled, if_pos hpath]
  | case3 links cur components e hscan =>
    rcases hwalk with hfound | ⟨dir, name, hmissing, -⟩
    · cases hfound
    · cases hmissing
  | case4 cur components dir target rest hscan =>
    rcases hwalk with hfound | ⟨dir, name, hmissing, -⟩
    · cases hfound
    · cases hmissing
  | case5 cur components dir target rest hscan links ih =>
    rw [walk, scan_put hne hplace hscan (by simp)]
    exact ih hwalk

end Writing

theorem write_failed {e : Errno} (h : fs.write path content = (fs', .error e)) : fs' = fs := by
  rw [write] at h
  split at h
  · split at h <;> cases h
    rfl
  · cases h
  · cases h
    rfl

theorem read_write (h : fs.write path content = (fs', .ok ())) :
    fs'.read path = .ok content := by
  have hread {place : RealPath} (hne : place ≠ [])
      (hplace : ∀ node, fs.lookup place = some node → ∃ before, node = .file before)
      (hresolve : fs.resolve true path.components = .found place ∨ ∃ dir name,
        fs.resolve true path.components = .missing dir name ∧ dir ++ [name] = place) :
      (fs.put place (.file content)).read path = .ok content := by
    have hfound : (fs.put place (.file content)).resolve true path.components = .found place :=
      walk_put hne hplace hresolve
    have hthere : (fs.put place (.file content)).lookup place = some (.file content) := by
      rw [lookup_put place place _ hne, if_pos rfl]
    rw [read, stat_eq_ok_iff.mpr ⟨hfound, hthere⟩]
  rw [write] at h
  cases hresolve : fs.resolve true path.components with
  | found place =>
    rw [hresolve] at h
    obtain ⟨-, node, hnode, hlink⟩ := resolve_found hresolve
    cases node with
    | dir =>
      simp only [hnode] at h
      cases h
    | file before =>
      simp only [hnode] at h
      cases h
      refine hread ?_ ?_ (.inl hresolve)
      · rintro rfl
        cases hnode
      · intro node hnode'
        rw [hnode] at hnode'
        cases hnode'
        exact ⟨before, rfl⟩
    | link target => cases hlink rfl
  | missing dir name =>
    rw [hresolve] at h
    cases h
    have hends : (fs.walk true maxLinks [] path.components).Ends fs true := walk_ends reached_root
    rw [← resolve, hresolve] at hends
    refine hread (by simp) ?_ (.inr ⟨dir, name, hresolve, rfl⟩)
    intro node hnode
    rw [hends.2] at hnode
    cases hnode
  | failed e =>
    rw [hresolve] at h
    cases h

end FileSystem.Tree
