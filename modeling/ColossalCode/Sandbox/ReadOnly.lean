import ColossalCode.Sandbox.MountTable

/-! Which read-only subpaths stay read-only under bubblewrap, and whether what no policy names is. -/
namespace ColossalCode.Sandbox
open List

open Sessionizer (WritableRoot SandboxPolicy NetworkAccess)
open Mounts (Mount lookup lookup_good_iff exposed_cons_iff exposed_append_iff exists_of_lookup)

/-- The path is in a read-only mount. -/
def InReadOnly (table : Table) (path : List String) : Prop :=
  ∃ kind, lookup path table = some kind ∧ kind.readOnly = true

/-- A writable mount covers the path, and no read-only one covers it again. -/
def Exposed (table : Table) (path : List String) : Prop :=
  Mounts.Exposed (fun kind : Kind => kind.readOnly = true) table path

/-- The path lies below no writable root. -/
def OutsideRoots (h : Host) (policy : SandboxPolicy) (cwd : String) (place : Place) : Prop :=
  ∀ root ∈ policy.writableRootsWithCwd h cwd, ∀ top, h.place root.root = some top →
    ¬ top.names <+: place.names

/-- The path lies below no mount of devices or processes. -/
def OutsideKernel (table : Table) (place : Place) : Prop :=
  ∀ mount ∈ table, mount.kind.origin = .kernel → ¬ mount.target <+: place.names

/-- Existing read-only subpaths are in read-only mounts, and so is what lies outside the writable
roots and the mounts of devices and processes. -/
structure KeepsReadOnly (h : Host) (policy : SandboxPolicy) (cwd : String) (table : Table) :
    Prop where
  subpaths : ∀ root ∈ policy.writableRootsWithCwd h cwd, ∀ subpath ∈ root.readOnlySubpaths,
    ∀ place, h.place subpath = some place → InReadOnly table place.names
  others : ∀ place : Place, OutsideRoots h policy cwd place → OutsideKernel table place →
    InReadOnly table place.names

variable {h : Host} {mount : Mount String Kind} {path : String}

theorem mem_bound {readOnly : Bool} : mount ∈ bound h readOnly path ↔
    ∃ place, h.place path = some place ∧ mount = ⟨place.names, .host, readOnly⟩ := by
  unfold bound
  cases h.place path with
  | none => simp
  | some place => simp

variable {writableRoots : List WritableRoot} {networkAccess : NetworkAccess} {cwd : String}
  {excludeTmpdirEnvVar excludeSlashTmp : Bool} {root : WritableRoot} {place : Place}

theorem mem_writableRoots :
    root ∈ (SandboxPolicy.workspaceWrite writableRoots networkAccess excludeTmpdirEnvVar
      excludeSlashTmp).writableRootsWithCwd h cwd ↔
    root ∈ writableRoots ∨ root = ⟨cwd, true, [joinPath cwd ".git"]⟩ ∨
      ∃ path ∈ SandboxPolicy.temporaryRoots h excludeTmpdirEnvVar excludeSlashTmp,
        root = ⟨path, true, []⟩ := by
  simp only [SandboxPolicy.writableRootsWithCwd, mem_append, mem_singleton, mem_map,
    or_assoc, eq_comm]

theorem mem_directories : mount ∈ directories h writableRoots cwd excludeTmpdirEnvVar
      excludeSlashTmp ↔
    mount ∈ bound h false cwd ∨
    (∃ root ∈ writableRoots, mount ∈ bound h false root.root ∨
      ∃ subpath ∈ root.readOnlySubpaths, mount ∈ bound h true subpath) ∨
    ∃ path ∈ SandboxPolicy.temporaryRoots h excludeTmpdirEnvVar excludeSlashTmp,
      mount ∈ bound h false path := by
  simp only [directories, mem_append, mem_flatMap, or_assoc]

/-- The writable mounts are those of the writable roots. -/
theorem mem_directories_writable (networkAccess : NetworkAccess)
    (hwritable : mount.kind.readOnly = false) :
    mount ∈ directories h writableRoots cwd excludeTmpdirEnvVar excludeSlashTmp ↔
    ∃ root ∈ (SandboxPolicy.workspaceWrite writableRoots networkAccess excludeTmpdirEnvVar
      excludeSlashTmp).writableRootsWithCwd h cwd, mount ∈ bound h false root.root := by
  rw [mem_directories]
  constructor
  · rintro (hcwd | ⟨root, hroot, hmount | ⟨subpath, hsubpath, hmount⟩⟩ | ⟨path, hpath, hmount⟩)
    · exact ⟨_, mem_writableRoots.mpr (.inr (.inl rfl)), hcwd⟩
    · exact ⟨root, mem_writableRoots.mpr (.inl hroot), hmount⟩
    · obtain ⟨place, -, rfl⟩ := mem_bound.mp hmount
      cases hwritable
    · exact ⟨_, mem_writableRoots.mpr (.inr (.inr ⟨path, hpath, rfl⟩)), hmount⟩
  · rintro ⟨root, hroot, hmount⟩
    rcases mem_writableRoots.mp hroot with hgiven | rfl | ⟨path, hpath, rfl⟩
    · exact .inr (.inl ⟨root, hgiven, .inl hmount⟩)
    · exact .inl hmount
    · exact .inr (.inr ⟨path, hpath, hmount⟩)

theorem namesOf_systemPath : ∀ path ∈ systemPaths, namesOf path ≠ [] := by decide

theorem mem_programs {program : String} (hmount : mount ∈ programs h program) :
    mount.kind = ⟨.host, true⟩ ∧ (mount.target ≠ [] ∨ mount ∈ bound h true program) := by
  rcases mem_append.mp hmount with hsystem | hprogram
  · obtain ⟨path, hpath, hmem⟩ := mem_flatMap.mp hsystem
    split at hmem
    · obtain rfl := mem_singleton.mp hmem
      exact ⟨rfl, .inl (namesOf_systemPath path hpath)⟩
    · cases hmem
  · obtain ⟨place, -, rfl⟩ := mem_bound.mp hprogram
    exact ⟨rfl, .inr hprogram⟩

theorem subpath_mem_directories {subpath : String}
    (hroot : root ∈ writableRoots) (hsubpath : subpath ∈ root.readOnlySubpaths)
    (hplace : h.place subpath = some place) : ⟨place.names, .host, true⟩ ∈
      directories h writableRoots cwd excludeTmpdirEnvVar excludeSlashTmp :=
  mem_directories.mpr (.inr (.inl ⟨root, hroot, .inr ⟨subpath, hsubpath,
    mem_bound.mpr ⟨place, hplace, rfl⟩⟩⟩))

theorem exists_length_lt (taken : List String) : ∃ n, ∀ name ∈ taken, name.length < n := by
  induction taken with
  | nil => exact ⟨0, fun name hname => by cases hname⟩
  | cons first taken ih =>
    obtain ⟨n, hn⟩ := ih
    refine ⟨max n (first.length + 1), fun name hname => ?_⟩
    rcases mem_cons.mp hname with rfl | hmem
    · omega
    · have := hn name hmem
      omega

theorem exists_name (taken : List String) : ∃ name, IsName name ∧ name ∉ taken := by
  obtain ⟨n, hn⟩ := exists_length_lt taken
  refine ⟨String.ofList (List.replicate (n + 1) 'a'), ⟨?_, ?_⟩, fun hmem => ?_⟩
  · intro hempty
    have hlength := congrArg String.toList hempty
    rw [String.toList_ofList, replicate_succ] at hlength
    cases hlength
  · rw [String.toList_ofList]
    intro hslash
    cases eq_of_mem_replicate hslash
  · have hlength := hn _ hmem
    rw [String.length_ofList, length_replicate] at hlength
    omega

/-- A new name at the top lies below no target but the root. -/
theorem exists_outside (targets : List (List String)) : ∃ place : Place,
    place.names ≠ [] ∧ ∀ target ∈ targets, target <+: place.names → target = [] := by
  obtain ⟨name, hname, hnew⟩ := exists_name (targets.filterMap List.head?)
  have hvalid : ∀ n ∈ [name], IsName n := by
    intro n hn
    obtain rfl := mem_singleton.mp hn
    exact hname
  refine ⟨⟨[name], hvalid⟩, by simp, fun target htarget hcovers => ?_⟩
  cases target with
  | nil => rfl
  | cons first rest =>
    have hfirst : first = name := (cons_prefix_cons.mp hcovers).1
    have htaken : first ∈ targets.filterMap List.head? :=
      mem_filterMap.mpr ⟨first :: rest, htarget, rfl⟩
    exact absurd (hfirst ▸ htaken) hnew

variable {table : Table} {names : List String} {program : String}

theorem inReadOnly_iff (hcovered : ∃ mount ∈ table, mount.target <+: names) :
    InReadOnly table names ↔ ¬ Exposed table names := by
  rw [InReadOnly, lookup_good_iff, and_iff_right hcovered, Exposed]

theorem exposed_append {later : Table}
    (hcovered : ∃ mount ∈ later, mount.kind.readOnly = true ∧ mount.target <+: names) :
    Exposed (table ++ later) names ↔ Exposed later names :=
  exposed_append_iff hcovered

theorem mem_base : ⟨[], .memory, false⟩ ∈ base h program := mem_cons_self

theorem inReadOnly_base_iff : InReadOnly (base h program ++ table) names ↔
    ¬ Exposed (base h program ++ table) names :=
  inReadOnly_iff ⟨_, mem_append_left table mem_base, nil_prefix⟩

/-- What stands in the table of a policy. -/
theorem mem_table {dirs : Table} (hmount : mount ∈ base h program ++ dirs) :
    mount.kind = ⟨.memory, false⟩ ∨ (mount.kind = ⟨.kernel, false⟩ ∧ mount.target ≠ []) ∨
      mount ∈ programs h program ∨ mount ∈ dirs := by
  rw [base, append_assoc, mem_append, mem_append] at hmount
  rcases hmount with hfirst | hlater
  · simp only [mem_cons, not_mem_nil, or_false] at hfirst
    rcases hfirst with rfl | rfl | rfl
    · exact .inl rfl
    · exact .inr (.inl ⟨rfl, by decide⟩)
    · exact .inr (.inl ⟨rfl, by decide⟩)
  · exact .inr (.inr hlater)

theorem directories_host (hmount : mount ∈ directories h writableRoots cwd excludeTmpdirEnvVar
    excludeSlashTmp) : mount.kind.origin = .host := by
  rcases mem_directories.mp hmount with hcwd | ⟨root, -, hroot | ⟨subpath, -, hsubpath⟩⟩ |
    ⟨path, -, hpath⟩
  · obtain ⟨place, -, rfl⟩ := mem_bound.mp hcwd
    rfl
  · obtain ⟨place, -, rfl⟩ := mem_bound.mp hroot
    rfl
  · obtain ⟨place, -, rfl⟩ := mem_bound.mp hsubpath
    rfl
  · obtain ⟨place, -, rfl⟩ := mem_bound.mp hpath
    rfl

/-- A writable mount of a directory covers nothing outside the writable roots. -/
theorem OutsideRoots.readOnly (houtside : OutsideRoots h
      (.workspaceWrite writableRoots networkAccess excludeTmpdirEnvVar excludeSlashTmp) cwd place)
    (hmount : mount ∈ directories h writableRoots cwd excludeTmpdirEnvVar excludeSlashTmp)
    (hcovers : mount.target <+: place.names) : mount.kind.readOnly = true := by
  cases hreadOnly : mount.kind.readOnly with
  | true => rfl
  | false =>
    obtain ⟨root, hroot, hbound⟩ :=
      (mem_directories_writable networkAccess hreadOnly).mp hmount
    obtain ⟨top, htop, rfl⟩ := mem_bound.mp hbound
    exact absurd hcovers (houtside root hroot top htop)

/-- Where the root directory itself is bound, nothing outside is left in the tree in memory. -/
theorem others_iff (networkAccess : NetworkAccess) : (∀ place : Place,
      OutsideRoots h (.workspaceWrite writableRoots networkAccess excludeTmpdirEnvVar
        excludeSlashTmp) cwd place →
      OutsideKernel (base h program ++ directories h writableRoots cwd excludeTmpdirEnvVar
        excludeSlashTmp) place →
      InReadOnly (base h program ++ directories h writableRoots cwd excludeTmpdirEnvVar
        excludeSlashTmp) place.names) ↔
    ∃ mount ∈ bound h true program ++ directories h writableRoots cwd excludeTmpdirEnvVar
      excludeSlashTmp, mount.target = [] := by
  set dirs := directories h writableRoots cwd excludeTmpdirEnvVar excludeSlashTmp with hdirs
  constructor
  · intro hothers
    by_contra hnone
    have hbelow (mount : Mount String Kind) (hmount : mount ∈ bound h true program ++ dirs) :
        mount.target ≠ [] := fun htarget => hnone ⟨mount, hmount, htarget⟩
    obtain ⟨place, hne, hplace⟩ := exists_outside ((base h program ++ dirs).map Mount.target)
    have htop (mount : Mount String Kind) (hmount : mount ∈ base h program ++ dirs)
        (hcovers : mount.target <+: place.names) : mount.target = [] :=
      hplace _ (mem_map_of_mem hmount) hcovers
    have hroots : OutsideRoots h (.workspaceWrite writableRoots networkAccess excludeTmpdirEnvVar
        excludeSlashTmp) cwd place := by
      intro root hroot top htopPlace hcovers
      have hmount : ⟨top.names, .host, false⟩ ∈ dirs :=
        (mem_directories_writable networkAccess rfl).mpr ⟨root, hroot, mem_bound.mpr ⟨top, htopPlace, rfl⟩⟩
      exact hbelow _ (mem_append_right _ hmount)
        (htop _ (mem_append_right _ hmount) hcovers)
    have hkernel : OutsideKernel (base h program ++ dirs) place := by
      intro mount hmount horigin hcovers
      rcases mem_table hmount with hkind | ⟨-, htarget⟩ | hprogram | hdir
      · rw [hkind] at horigin
        cases horigin
      · exact htarget (htop mount hmount hcovers)
      · rw [(mem_programs hprogram).1] at horigin
        cases horigin
      · rw [directories_host hdir] at horigin
        cases horigin
    obtain ⟨kind, hkind, hreadOnly⟩ := hothers place hroots hkernel
    obtain ⟨mount, hmount, hcovers, rfl⟩ := exists_of_lookup hkind
    have htarget := htop mount hmount hcovers
    rcases mem_table hmount with hkind | ⟨-, hne⟩ | hprogram | hdir
    · rw [hkind] at hreadOnly
      cases hreadOnly
    · exact hne htarget
    · rcases (mem_programs hprogram).2 with hne | hbound
      · exact hne htarget
      · exact hbelow mount (mem_append_left _ hbound) htarget
    · exact hbelow mount (mem_append_right _ hdir) htarget
  · rintro ⟨mount, hmount, htarget⟩ place hroots hkernel
    have hcovers : mount.target <+: place.names := by
      rw [htarget]
      exact nil_prefix
    have hreadOnly : mount.kind.readOnly = true := by
      rcases mem_append.mp hmount with hprogram | hdir
      · obtain ⟨top, -, rfl⟩ := mem_bound.mp hprogram
        rfl
      · exact hroots.readOnly hdir hcovers
    have hlater : mount ∈ programs h program ++ dirs := by
      rcases mem_append.mp hmount with hprogram | hdir
      · exact mem_append_left _ (mem_append_right _ hprogram)
      · exact mem_append_right _ hdir
    have hsplit : base h program ++ dirs = ⟨[], .memory, false⟩ :: ⟨["dev"], .kernel, false⟩ ::
        ⟨["proc"], .kernel, false⟩ :: (programs h program ++ dirs) := by
      rw [base, append_assoc]
      rfl
    rw [inReadOnly_base_iff]
    rw [hsplit] at hkernel ⊢
    intro hexposed
    rcases exposed_cons_iff.mp hexposed with hexposed | ⟨-, -, hnone⟩
    · rcases exposed_cons_iff.mp hexposed with hexposed | ⟨hdev, -⟩
      · rcases exposed_cons_iff.mp hexposed with hexposed | ⟨hproc, -⟩
        · obtain ⟨before, m, after, heq, hm, hbad, -⟩ := hexposed
          have hmem : m ∈ programs h program ++ dirs := by
            rw [heq]
            exact mem_append_right before mem_cons_self
          rcases mem_append.mp hmem with hprogram | hdir
          · rw [(mem_programs hprogram).1] at hbad
            exact hbad rfl
          · exact hbad (hroots.readOnly hdir hm)
        · exact hkernel _ (by simp) rfl hproc
      · exact hkernel _ (by simp) rfl hdev
    · exact hnone mount (mem_cons_of_mem _ (mem_cons_of_mem _ hlater)) hreadOnly hcovers

/-- Read-only subpaths stay read-only exactly when no writable directory is bound over one of them
without a read-only mount of it after that, the repository data of the working directory included;
what else lies outside is read-only exactly when the root directory itself is bound. -/
theorem read_only_kept_iff (arguments : List String) :
    KeepsReadOnly h (.workspaceWrite writableRoots networkAccess excludeTmpdirEnvVar
      excludeSlashTmp) cwd (mountTable (createBwrapCommandArgs h
        (.workspaceWrite writableRoots networkAccess excludeTmpdirEnvVar excludeSlashTmp) cwd
        program arguments)) ↔
    (∀ root ∈ writableRoots, ∀ subpath ∈ root.readOnlySubpaths, ∀ place,
      h.place subpath = some place → ¬ Exposed (directories h writableRoots cwd
        excludeTmpdirEnvVar excludeSlashTmp) place.names) ∧
    (∀ place, h.place (joinPath cwd ".git") = some place →
      ¬ Exposed (base h program ++ directories h writableRoots cwd excludeTmpdirEnvVar
        excludeSlashTmp) place.names) ∧
    ∃ mount ∈ bound h true program ++ directories h writableRoots cwd excludeTmpdirEnvVar
      excludeSlashTmp, mount.target = [] := by
  rw [mountTable_workspaceWrite, ← others_iff networkAccess]
  have hgiven (root : WritableRoot) (hroot : root ∈ writableRoots) (subpath : String)
      (hsubpath : subpath ∈ root.readOnlySubpaths) (place : Place)
      (hplace : h.place subpath = some place) :
      InReadOnly (base h program ++ directories h writableRoots cwd excludeTmpdirEnvVar
        excludeSlashTmp) place.names ↔ ¬ Exposed (directories h writableRoots cwd
          excludeTmpdirEnvVar excludeSlashTmp) place.names := by
    rw [inReadOnly_base_iff, exposed_append
      ⟨_, subpath_mem_directories hroot hsubpath hplace, rfl, prefix_refl _⟩]
  constructor
  · intro hkeeps
    refine ⟨?_, ?_, hkeeps.others⟩
    · intro root hroot subpath hsubpath place hplace
      exact (hgiven root hroot subpath hsubpath place hplace).mp
        (hkeeps.subpaths root (mem_writableRoots.mpr (.inl hroot)) subpath hsubpath place hplace)
    · intro place hplace
      exact inReadOnly_base_iff.mp (hkeeps.subpaths _ (mem_writableRoots.mpr (.inr (.inl rfl))) _
        mem_cons_self place hplace)
  · rintro ⟨hsubpaths, hgit, hothers⟩
    refine ⟨?_, hothers⟩
    intro root hroot subpath hsubpath place hplace
    rcases mem_writableRoots.mp hroot with hroot | rfl | ⟨path, -, rfl⟩
    · exact (hgiven root hroot subpath hsubpath place hplace).mpr
        (hsubpaths root hroot subpath hsubpath place hplace)
    · obtain rfl := mem_singleton.mp hsubpath
      exact inReadOnly_base_iff.mpr (hgit place hplace)
    · cases hsubpath

/-- A host whose paths are places as they stand. -/
def sampleHost : Host where
  pathExists := fun _ => true
  canonicalize := fun path =>
    if hvalid : ∀ name ∈ namesOf path, IsName name then some ⟨namesOf path, hvalid⟩ else none
  tmpdir := none

/-- A root that is bound later makes a read-only subpath of an earlier one writable again. -/
theorem later_root_exposes : ¬ ∀ (h : Host) (writableRoots : List WritableRoot)
    (networkAccess : NetworkAccess) (cwd : String) (excludeTmpdirEnvVar excludeSlashTmp : Bool)
    (program : String) (arguments : List String),
    KeepsReadOnly h (.workspaceWrite writableRoots networkAccess excludeTmpdirEnvVar
      excludeSlashTmp) cwd (mountTable (createBwrapCommandArgs h
        (.workspaceWrite writableRoots networkAccess excludeTmpdirEnvVar excludeSlashTmp) cwd
        program arguments)) := by
  intro hall
  have hkept := (hall sampleHost [⟨"/w", true, ["/w/keep"]⟩, ⟨"/w", true, []⟩] .restricted "/" true
    true "/bin/sh" []).subpaths _ mem_cons_self "/w/keep" mem_cons_self
    ⟨["w", "keep"], by decide⟩ rfl
  obtain ⟨kind, hkind, hreadOnly⟩ := hkept
  rw [mountTable_workspaceWrite] at hkind
  have hwritable : lookup ["w", "keep"] (base sampleHost "/bin/sh" ++ directories sampleHost
      [⟨"/w", true, ["/w/keep"]⟩, ⟨"/w", true, []⟩] "/" true true) = some ⟨.host, false⟩ := by
    decide
  cases hwritable.symm.trans hkind
  cases hreadOnly

end ColossalCode.Sandbox
