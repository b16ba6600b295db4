import ColossalCode.FileSystem.Changes
import ColossalCode.ToolsBinary.Files
import Mathlib.Data.List.DropRight

/-! What an operation that changes files may touch, wherever links stand in the file system: the
entry that its argument names, and what is below it where that is a directory. -/
namespace ColossalCode.ToolsBinary.Files
open List

open FileSystem

variable {fs fs' : FileTree} {root target path place : RealPath} {depth : Nat}

/-- Up to the last name: neither a slash nor a dot after it makes it that of another entry. -/
def entryComponents (argument : String) : List Component :=
  (components argument).rdropWhile (· = .curDir)

/-- The entry that an argument names; that is the link itself where the last name is a link's. -/
def Names (fs : FileTree) (root : RealPath) (argument : String) (entry : RealPath) : Prop :=
  fs.resolve false (entryComponents (absolutePath root argument)) = .found entry

theorem canonicalize_stands {components : List Component}
    (h : fs.canonicalize components = .ok target) : fs.Stands true target := by
  rw [Tree.canonicalize] at h
  split at h
  · rename_i found hfound
    cases h
    exact Tree.resolve_found hfound
  · cases h
  · cases h

variable {argument : String} {touched : RealPath → Prop} {op : Operation}

theorem canonicalize_names
    (h : fs.canonicalize (components (absolutePath root argument)) = .ok target)
    (hlink : ∀ entry link, Names fs root argument entry → fs.lookup entry ≠ some (.link link)) :
    Names fs root argument target := by
  rw [Tree.canonicalize] at h
  split at h
  · rename_i found hfound
    cases h
    have hdots : ∀ dot ∈ (components (absolutePath root argument)).rtakeWhile (· = .curDir),
        dot = .curDir := by
      intro dot hdot
      have his := mem_rtakeWhile_imp hdot
      exact of_decide_eq_true his
    have hsplit : entryComponents (absolutePath root argument) ++
        (components (absolutePath root argument)).rtakeWhile (· = .curDir) =
        components (absolutePath root argument) := rdropWhile_append_rtakeWhile
    rw [Tree.resolve, ← hsplit] at hfound
    have hentry := Tree.walk_dots hdots hfound
    rcases Tree.walk_unfollowed hentry with hnamed | ⟨entry, link, hnamed, hthere⟩
    · exact hnamed
    · exact absurd hthere (hlink entry link hnamed)
  · cases h
  · cases h

theorem checkedPath_resolved {mustExist : Bool}
    (h : checkedPath fs root argument mustExist = .ok target) :
    resolvedPath fs (absolutePath root argument) mustExist = .ok target ∧
      (isAbsolute argument = true ∨ root <+: target) := by
  rw [checkedPath] at h
  split at h
  · rename_i resolved hresolved
    split at h
    · rename_i haccepted
      cases h
      exact ⟨hresolved, haccepted⟩
    · cases h
  · cases h

/-- What must exist is the real path of something. -/
theorem resolvedPath_existing {absolute : String} (h : resolvedPath fs absolute true = .ok target) :
    fs.canonicalize (components absolute) = .ok target := by
  rw [resolvedPath, if_pos rfl] at h
  split at h
  · rename_i resolved hresolved
    cases h
    exact hresolved
  · cases h

/-- What need not exist is the real path of something, or a name below one. -/
def Written (fs : FileTree) (target : RealPath) : Prop :=
  fs.Stands true target ∨ ∃ dir name, target = dir ++ [name] ∧ fs.Stands true dir

theorem resolvedPath_written {absolute : String} (h : resolvedPath fs absolute false = .ok target) :
    Written fs target := by
  rw [resolvedPath, if_neg (by decide)] at h
  split at h
  · split at h
    · rename_i parentResolved hparent
      have hstands := canonicalize_stands hparent
      split at h
      · rename_i name hname
        cases h
        exact .inr ⟨parentResolved, name, rfl, hstands⟩
      · cases h
        exact .inl hstands
    · cases h
  · cases h
    exact .inl Tree.reached_root.stands

/-- No link at the path or below it is followed into a directory. -/
def Unlinked (fs : FileTree) (path : RealPath) : Prop :=
  ∀ place, path <+: place → ¬ fs.LeadsToDirectory place

theorem Unlinked.pruned (h : Unlinked fs path)
    (hpruned : fs.Pruned touched fs') : Unlinked fs' path :=
  fun place hplace hlead => h place hplace (hpruned.leadsToDirectory hlead)

theorem Unlinked.below (h : Unlinked fs path) (hwithin : path <+: place) : Unlinked fs place :=
  fun later hlater => h later (hwithin.trans hlater)

theorem not_below_self {name : String} {above : RealPath} (h : above <+: path) :
    ¬ path ++ [name] <+: above := by
  intro hbelow
  have hlength := (hbelow.trans h).length_le
  rw [length_append, length_singleton] at hlength
  omega

theorem deleteEntries_pruned {delete : FileTree → RealPath → FileTree × Except Errno Unit}
    (hdelete : ∀ fs path, fs.Placed path → Unlinked fs path →
      fs.Pruned (path <+: ·) (delete fs path).1)
    (names : List String) (hreached : fs.Reached path) (hunlinked : Unlinked fs path) :
    fs.Pruned (fun place => ∃ name, path ++ [name] <+: place)
      (deleteEntries delete path fs names).1 := by
  induction names generalizing fs with
  | nil => exact Tree.Pruned.refl
  | cons name names ih =>
    have hone := hdelete fs (path ++ [name]) (Tree.placed_snoc_iff.mpr hreached)
      (hunlinked.below (prefix_append path [name]))
    have hentry : fs.Pruned (fun place => ∃ name, path ++ [name] <+: place)
        (delete fs (path ++ [name])).1 := hone.mono fun place hplace => ⟨name, hplace⟩
    rw [deleteEntries]
    cases hdeleted : delete fs (path ++ [name]) with
    | mk fs' res =>
      rw [hdeleted] at hone hentry
      cases res with
      | error e => exact hentry
      | ok done =>
        have hreached' := hone.reached hreached fun above habove => not_below_self habove
        exact hentry.trans (ih hreached' (hunlinked.pruned hone))

theorem readDir_reached {names : List String} (hplaced : fs.Placed path)
    (hunlinked : Unlinked fs path) (hnames : fs.readDir path = .ok names) : fs.Reached path := by
  rw [Tree.readDir] at hnames
  split at hnames
  · rename_i found hstat
    rcases Tree.stat_placed hplaced hstat with hlink | ⟨rfl, -, hdir⟩
    · exact absurd ⟨hlink, Tree.isDir_iff.mpr ⟨found, hstat⟩⟩
        (hunlinked path (prefix_refl path))
    · exact hplaced.reached hdir
  · cases hnames
  · cases hnames

theorem deleteAll_pruned (depth : Nat) (hplaced : fs.Placed path) (hunlinked : Unlinked fs path) :
    fs.Pruned (path <+: ·) (deleteAll depth fs path).1 := by
  induction depth generalizing fs path with
  | zero => exact Tree.Pruned.refl
  | succ depth ih =>
    have hself (place : RealPath) (h : place = path) : path <+: place := by
      rw [h]
    rw [deleteAll]
    split
    · exact (Tree.removeFile_pruned hplaced).mono hself
    · cases hnames : fs.readDir path with
      | error e => exact Tree.Pruned.refl
      | ok names =>
        have hreached := readDir_reached hplaced hunlinked hnames
        have hentries := deleteEntries_pruned (fun fs path => ih) names hreached hunlinked
        have hbelow : fs.Pruned (path <+: ·) (deleteEntries (deleteAll depth) path fs names).1 :=
          hentries.mono fun place ⟨name, hplace⟩ => (prefix_append path [name]).trans hplace
        dsimp only
        cases hdeleted : deleteEntries (deleteAll depth) path fs names with
        | mk fs' res =>
          rw [hdeleted] at hentries hbelow
          cases res with
          | error e => exact hbelow
          | ok done =>
            have hreached' := hentries.reached hreached
              fun above habove ⟨name, hname⟩ => not_below_self habove hname
            exact hbelow.trans ((Tree.removeDir_pruned hreached'.placed).mono hself)

/-- What the deletion of an entry may remove: the entry, and if it is a directory what is below. -/
def Below (fs : FileTree) (target place : RealPath) : Prop :=
  target <+: place ∧ (place ≠ target → fs.lookup target = some .dir)

theorem deletePath_pruned (hstands : fs.pathExists target = true → fs.Stands true target)
    (hunlinked : Unlinked fs target) :
    fs.Pruned (Below fs target) (deletePath depth fs target).1 := by
  rw [deletePath]
  split
  · rename_i hexists
    have hthere := hstands hexists
    dsimp only
    split
    · apply (Tree.removeFile_pruned hthere.1).mono
      rintro place rfl
      exact ⟨prefix_refl place, fun hne => absurd rfl hne⟩
    · rename_i hfile
      have hdir : fs.lookup target = some .dir := by
        obtain ⟨-, node, hnode, hlink⟩ := hthere
        cases node with
        | dir => exact hnode
        | file content =>
          have hstat := Tree.stat_stands (hstands hexists) hnode
          exact absurd (Tree.isFile_iff.mpr ⟨target, content, hstat⟩) hfile
        | link link => cases hlink rfl
      apply (deleteAll_pruned depth hthere.1 hunlinked).mono
      intro place hplace
      exact ⟨hplace, fun _ => hdir⟩
  · exact Tree.Pruned.refl

/-- A path that was real when it was checked is still real later on, or nothing is there. -/
theorem Pruned.stands (h : fs.Pruned touched fs')
    (hstands : fs.Stands true target) (hexists : fs'.pathExists target = true) :
    fs'.Stands true target := by
  obtain ⟨found, node, hstat⟩ := Tree.pathExists_iff.mp hexists
  obtain ⟨-, there, hthere, -⟩ := id hstands
  have hbefore := h.stat hstat
  rw [Tree.stat_stands hstands hthere] at hbefore
  cases hbefore
  exact Tree.resolve_found (Tree.stat_eq_ok_iff.mp hstat).1

theorem deleteMany_pruned (targets : List RealPath) (hpruned : fs.Pruned touched fs')
    (hstands : ∀ target ∈ targets, fs.Stands true target)
    (hunlinked : ∀ target ∈ targets, Unlinked fs target)
    (htouched : ∀ target ∈ targets, ∀ place, Below fs target place → touched place) :
    fs.Pruned touched (deleteMany depth fs' targets).1 := by
  induction targets generalizing fs' with
  | nil => exact hpruned
  | cons target targets ih =>
    have hmem : target ∈ target :: targets := mem_cons_self
    have hone : fs'.Pruned (Below fs' target) (deletePath depth fs' target).1 :=
      deletePath_pruned (Pruned.stands hpruned (hstands target hmem))
        ((hunlinked target hmem).pruned hpruned)
    have hnext : fs.Pruned touched (deletePath depth fs' target).1 := by
      apply hpruned.trans
      apply hone.mono
      intro place hplace
      exact htouched target hmem place ⟨hplace.1, fun hne => hpruned.kept (hplace.2 hne)⟩
    exact ih hnext (fun later hlater => hstands later (mem_cons_of_mem target hlater))
      (fun later hlater => hunlinked later (mem_cons_of_mem target hlater))
      (fun later hlater => htouched later (mem_cons_of_mem target hlater))

attribute [local irreducible] checkedPath in
theorem checkedPaths_cons (argument : String) (arguments : List String) :
    checkedPaths fs root (argument :: arguments) =
      match checkedPath fs root argument true with
      | .ok valid =>
        (valid :: (checkedPaths fs root arguments).1, (checkedPaths fs root arguments).2)
      | .error e =>
        ((checkedPaths fs root arguments).1,
          ⟨argument, .failure, some e⟩ :: (checkedPaths fs root arguments).2) := rfl

theorem mem_checkedPaths {arguments : List String} :
    target ∈ (checkedPaths fs root arguments).1 ↔
      ∃ argument ∈ arguments, checkedPath fs root argument true = .ok target := by
  induction arguments with
  | nil =>
    constructor
    · intro h
      cases h
    · rintro ⟨argument, hargument, -⟩
      cases hargument
  | cons argument arguments ih =>
    rw [checkedPaths_cons]
    cases hchecked : checkedPath fs root argument true with
    | ok valid => simp [ih, hchecked, eq_comm]
    | error e => simp [ih, hchecked]

theorem ensureParent_written (h : Written fs target) : ensureParent fs target = (fs, .ok ()) := by
  rw [ensureParent]
  by_cases hroot : target = []
  · rw [if_pos hroot]
  · rw [if_neg hroot, if_pos]
    have hparent : fs.Stands true target.dropLast := by
      rcases h with hstands | ⟨dir, name, rfl, hstands⟩
      · rcases eq_nil_or_concat target with hnil | ⟨dir, name, hname⟩
        · exact absurd hnil hroot
        · rw [concat_eq_append] at hname
          subst hname
          rw [dropLast_concat]
          exact (Tree.placed_snoc_iff.mp hstands.1).stands
      · rw [dropLast_concat]
        exact hstands
    obtain ⟨-, node, hnode, -⟩ := id hparent
    exact Tree.pathExists_iff.mpr ⟨_, node, Tree.stat_stands hparent hnode⟩

theorem write_written (h : Written fs target)
    (hlink : ∀ link, fs.lookup target ≠ some (.link link)) {content : List UInt8}
    (hne : (fs.write target content).1.lookup place ≠ fs.lookup place) :
    place = target ∧ fs.Placed target := by
  rcases h with hstands | ⟨dir, name, rfl, hplaced, node, hnode, hnolink⟩
  · exact ⟨Tree.write_changes hstands.1 hlink hne, hstands.1⟩
  · cases node with
    | dir =>
      have hname : fs.Placed (dir ++ [name]) := Tree.placed_snoc_iff.mpr (hplaced.reached hnode)
      exact ⟨Tree.write_changes hname hlink hne, hname⟩
    | file content =>
      rw [Tree.write, Tree.resolve_below_file hplaced hnode] at hne
      exact absurd rfl hne
    | link link => cases hnolink rfl

theorem editFile_changes (h : Written fs target)
    (hlink : ∀ link, fs.lookup target ≠ some (.link link)) {oldString newString : String}
    (hne : (editFile fs target oldString newString).1.lookup place ≠ fs.lookup place) :
    place = target ∧ fs.Placed target := by
  by_contra hother
  have hwrite (content : List UInt8) :
      (fs.write target content).1.lookup place = fs.lookup place := by
    by_contra hchanged
    exact hother (write_written h hlink hchanged)
  apply hne
  rw [editFile]
  split
  · split
    · rfl
    · split
      · rfl
      · rename_i content hcontent
        split
        · rfl
        · rename_i newContent hnew
          have hkept := hwrite (Text.utf8 newContent.toList)
          split <;> rename_i hwritten <;> rw [hwritten] at hkept <;> exact hkept
  · split
    · rw [ensureParent_written h]
      have hkept := hwrite (Text.utf8 newString.toList)
      dsimp only
      split <;> rename_i hwritten <;> rw [hwritten] at hkept <;> exact hkept
    · rfl

/-- The paths among the operands of what changes files. -/
def arguments : Operation → List String
  | .editFile path _ _ => [path]
  | .deletePath path => [path]
  | .deleteMany paths => paths
  | _ => []

/-- Whether the check asks for something to be there: it does before a deletion. -/
def deletes : Operation → Bool
  | .deletePath _ => true
  | .deleteMany _ => true
  | _ => false

/-- An argument that passes the check, and the path that the operation goes on with. -/
def Accepts (fs : FileTree) (root : RealPath) (op : Operation) (argument : String)
    (target : RealPath) : Prop :=
  argument ∈ arguments op ∧ checkedPath fs root argument (deletes op) = .ok target

/-- No link stands where the operation takes a path at its word: an edit does not look for one at
the end of its path, the check before a deletion follows it, and the deletion follows those below
into other directories. -/
structure Direct (fs : FileTree) (root : RealPath) (op : Operation) : Prop where
  edit : ∀ argument target, deletes op = false → Accepts fs root op argument target →
    ∀ link, fs.lookup target ≠ some (.link link)
  named : ∀ argument target, deletes op = true → Accepts fs root op argument target →
    ∀ entry link, Names fs root argument entry → fs.lookup entry ≠ some (.link link)
  below : ∀ argument target, deletes op = true → Accepts fs root op argument target →
    Unlinked fs target

theorem accepts_relative
    (h : Accepts fs root op argument target) (hrelative : isAbsolute argument = false) :
    root <+: target := by
  rcases (checkedPath_resolved h.2).2 with habsolute | hwithin
  · rw [hrelative] at habsolute
    cases habsolute
  · exact hwithin

theorem accepts_stands (hdeletes : deletes op = true)
    (h : Accepts fs root op argument target) : fs.Stands true target := by
  have hresolved := (checkedPath_resolved h.2).1
  rw [hdeletes] at hresolved
  exact canonicalize_stands (resolvedPath_existing hresolved)

theorem accepts_names (hdirect : Direct fs root op)
    (hdeletes : deletes op = true) (h : Accepts fs root op argument target) :
    Names fs root argument target := by
  have hresolved := (checkedPath_resolved h.2).1
  rw [hdeletes] at hresolved
  exact canonicalize_names (resolvedPath_existing hresolved)
    (hdirect.named argument target hdeletes h)

section

attribute [local irreducible] checkedPath checkedPaths editFile deletePath deleteMany

theorem run_editFile (path oldString newString : String) :
    (run fs root depth (.editFile path oldString newString)).1 =
      match checkedPath fs root path false with
      | .error _ => fs
      | .ok target => (editFile fs target oldString newString).1 := by
  unfold run
  dsimp only
  cases checkedPath fs root path false <;> rfl

theorem run_deletePath (path : String) :
    (run fs root depth (.deletePath path)).1 =
      match checkedPath fs root path true with
      | .error _ => fs
      | .ok target => (deletePath depth fs target).1 := by
  unfold run
  dsimp only
  cases checkedPath fs root path true <;> rfl

theorem run_deleteMany (paths : List String) :
    (run fs root depth (.deleteMany paths)).1 =
      (deleteMany depth fs (checkedPaths fs root paths).1).1 := rfl

end

/-- A deletion takes out what is at or below its targets, and puts nothing in. -/
theorem run_pruned (hdirect : Direct fs root op) (hdeletes : deletes op = true) :
    fs.Pruned (fun place => ∃ argument target, Accepts fs root op argument target ∧
      Below fs target place) (run fs root depth op).1 := by
  cases op with
  | deletePath path =>
    rw [run_deletePath]
    cases hchecked : checkedPath fs root path true with
    | error e => exact Tree.Pruned.refl
    | ok target =>
      have haccepts : Accepts fs root (.deletePath path) path target :=
        ⟨mem_singleton_self path, hchecked⟩
      have hone : fs.Pruned (Below fs target) (deletePath depth fs target).1 := deletePath_pruned
        (fun _ => accepts_stands rfl haccepts) (hdirect.below path target rfl haccepts)
      exact hone.mono fun place hplace => ⟨path, target, haccepts, hplace⟩
  | deleteMany paths =>
    rw [run_deleteMany]
    have haccepts (target : RealPath) (h : target ∈ (checkedPaths fs root paths).1) :
        ∃ argument, Accepts fs root (.deleteMany paths) argument target := by
      obtain ⟨argument, hargument, hchecked⟩ := mem_checkedPaths.mp h
      exact ⟨argument, hargument, hchecked⟩
    apply deleteMany_pruned (checkedPaths fs root paths).1 Tree.Pruned.refl
    · intro target htarget
      obtain ⟨argument, haccept⟩ := haccepts target htarget
      exact accepts_stands rfl haccept
    · intro target htarget
      obtain ⟨argument, haccept⟩ := haccepts target htarget
      exact hdirect.below argument target rfl haccept
    · intro target htarget place hplace
      obtain ⟨argument, haccept⟩ := haccepts target htarget
      exact ⟨argument, target, haccept, hplace⟩
  | _ => cases hdeletes

/-- A workspace with a directory and a link out of it. -/
def sampleTree : FileTree where
  entries := [(["work"], .dir), (["work", "sub"], .dir), (["work", "sub", "f"], .file []),
    (["work", "link"], .link ⟨true, [.normal "other"]⟩), (["other"], .dir),
    (["other", "g"], .file [])]

theorem sample_direct : Direct sampleTree ["work"] (.deletePath "sub") := by
  have haccepted (argument : String) (target : RealPath)
      (h : Accepts sampleTree ["work"] (.deletePath "sub") argument target) :
      argument = "sub" ∧ target = ["work", "sub"] := by
    obtain ⟨hargument, hchecked⟩ := h
    obtain rfl := mem_singleton.mp hargument
    have htarget : checkedPath sampleTree ["work"] "sub" true = .ok ["work", "sub"] := by decide
    rw [deletes, htarget] at hchecked
    cases hchecked
    exact ⟨rfl, rfl⟩
  constructor
  · intro argument target h
    cases h
  · intro argument target _ haccepts entry link hnames hlink
    obtain ⟨rfl, rfl⟩ := haccepted argument target haccepts
    have hentry : sampleTree.resolve false (entryComponents (absolutePath ["work"] "sub")) =
        .found ["work", "sub"] := by decide
    rw [Names, hentry] at hnames
    cases hnames
    cases hlink
  · intro argument target _ haccepts place hplace hlead
    obtain ⟨rfl, rfl⟩ := haccepted argument target haccepts
    obtain ⟨⟨link, hlink⟩, -⟩ := hlead
    have hmem := Tree.mem_entries hlink (by simp)
    simp only [sampleTree, mem_cons, Prod.mk.injEq, reduceCtorEq, and_false, not_mem_nil,
      or_false, false_or] at hmem
    rw [hmem.1] at hplace
    revert hplace
    decide

end ColossalCode.ToolsBinary.Files
