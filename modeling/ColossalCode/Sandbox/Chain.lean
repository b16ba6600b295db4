import ColossalCode.Sandbox.Spawn

/-! When the chain of wrappers ends with the command that was requested. -/
namespace ColossalCode.Sandbox
open List Option

open Sessionizer (SandboxPolicy ColossalErr WritableRoot)

/-- The flag that is taken out of the arguments of a command in a terminal. -/
def newSession : String := "--new-session"

/-- Whatever follows the arguments is read as it would be without them. -/
def Complete (args : List String) : Prop := ∀ rest,
  readOptions none (args ++ rest) = readOptions none args ++ readOptions none rest ∧
    readCommand none (args ++ rest) = readCommand none rest

/-- Whole options, none of them the flag. -/
structure Plain (args : List String) : Prop where
  complete : Complete args
  free : newSession ∉ args

variable {args more : List String}

theorem Complete.nil : Complete [] := fun _ => ⟨rfl, rfl⟩

theorem Complete.append (h : Complete args) (hmore : Complete more) : Complete (args ++ more) := by
  intro rest
  constructor
  · rw [append_assoc, (h _).1, (hmore rest).1, (h more).1, append_assoc]
  · rw [append_assoc, (h _).2, (hmore rest).2]

theorem Plain.nil : Plain [] := ⟨.nil, not_mem_nil⟩

theorem Plain.append (h : Plain args) (hmore : Plain more) : Plain (args ++ more) :=
  ⟨h.complete.append hmore.complete,
    fun hmem => (mem_append.mp hmem).elim h.free hmore.free⟩

theorem Plain.flatMap {α : Type} {items : List α} {argsOf : α → List String}
    (h : ∀ item ∈ items, Plain (argsOf item)) : Plain (items.flatMap argsOf) := by
  induction items with
  | nil => exact .nil
  | cons item items ih =>
    rw [flatMap_cons]
    exact (h item mem_cons_self).append
      (ih fun later hlater => h later (mem_cons_of_mem item hlater))

theorem Plain.ite {c : Prop} [Decidable c] (h : Plain args) (hmore : Plain more) :
    Plain (if c then args else more) := by
  split
  · exact h
  · exact hmore

theorem pathText_ne_newSession (names : List String) : pathText names ≠ newSession := by
  intro h
  have hfirst : (pathText names).toList.head? = some '/' := by
    rw [pathText, String.toList_ofList]
    rfl
  rw [h] at hfirst
  exact absurd hfirst (by decide)

/-- Two operands that are not the flag. -/
theorem plain_bind {option source target : String}
    (hoption : option ∈ ["--bind", "--ro-bind", "--dev-bind", "--chmod"])
    (hsource : source ≠ newSession) (htarget : target ≠ newSession) :
    Plain [option, source, target] := by
  constructor
  · intro rest
    simp only [mem_cons, not_mem_nil, or_false] at hoption
    rcases hoption with rfl | rfl | rfl | rfl <;> exact ⟨rfl, rfl⟩
  · simp only [mem_cons, not_mem_nil, or_false] at hoption ⊢
    rintro (hflag | rfl | rfl)
    · rcases hoption with rfl | rfl | rfl | rfl <;> exact absurd hflag (by decide)
    · exact hsource rfl
    · exact htarget rfl

variable (h : Host)

theorem addReadOnlyBind_plain (path : String) : Plain (addReadOnlyBind h path) := by
  unfold addReadOnlyBind
  split
  · exact plain_bind (by decide) (pathText_ne_newSession _) (pathText_ne_newSession _)
  · exact .nil

theorem addReadWriteBind_plain (path : String) : Plain (addReadWriteBind h path) := by
  unfold addReadWriteBind
  split
  · exact plain_bind (by decide) (pathText_ne_newSession _) (pathText_ne_newSession _)
  · exact .nil

theorem visibleParents_plain (lockDown : Bool) (path : List Component) (current : List String)
    (rest : List Component) : Plain (visibleParents lockDown path current rest) := by
  fun_induction visibleParents lockDown path current rest with
  | case1 => exact .nil
  | case2 current rest ih => exact ih
  | case3 => exact .nil
  | case4 current name rest next hpath hbeside ih => exact ih
  | case5 current name rest next hpath hbeside ih =>
    have htext := pathText_ne_newSession next
    have hdir : Plain ["--dir", pathText next] := by
      refine ⟨fun rest => ⟨rfl, rfl⟩, ?_⟩
      simp only [mem_cons, not_mem_nil, or_false, not_or]
      exact ⟨by decide, fun heq => htext heq.symm⟩
    exact (hdir.append ((plain_bind (by decide) (by decide) htext).ite .nil)).append ih

theorem ensurePathParentsVisible_plain (path : String) (lockDown : Bool) :
    Plain (ensurePathParentsVisible path lockDown) :=
  .ite (visibleParents_plain lockDown _ _ _) .nil

/-- Arguments that begin with the flag to be taken out, and cut the network where they have to. -/
structure Opens (policy : SandboxPolicy) (args later : List String) : Prop where
  args : args = ["--die-with-parent", newSession] ++ later
  plain : Plain later
  network : policy.hasFullNetworkAccess = false →
    ("--unshare-net", []) ∈ readOptions none later

variable {policy : SandboxPolicy} {later : List String}

theorem Opens.append (h : Opens policy args later) (hmore : Plain more) :
    Opens policy (args ++ more) (later ++ more) := by
  refine ⟨by rw [h.args, append_assoc], h.plain.append hmore, fun hnetwork => ?_⟩
  rw [(h.plain.complete more).1]
  exact mem_append_left _ (h.network hnetwork)

/-- A list of flags. -/
theorem plain_flags {flags : List String}
    (h : ∀ flag ∈ flags, flag ≠ "--" ∧ operands flag = 0 ∧ flag ≠ newSession) : Plain flags := by
  constructor
  · intro rest
    induction flags with
    | nil => exact ⟨rfl, rfl⟩
    | cons flag flags ih =>
      obtain ⟨hend, hoperands, -⟩ := h flag mem_cons_self
      have hlater := ih fun later hlater => h later (mem_cons_of_mem flag hlater)
      simp only [cons_append, readOptions, readCommand, if_neg hend, if_pos hoperands,
        hlater, and_self]
  · intro hmem
    exact (h newSession hmem).2.2 rfl

/-- One operand that is not the flag. -/
theorem plain_mount {option target : String} (hoption : option ∈ ["--tmpfs", "--dev", "--proc",
    "--remount-ro"]) (htarget : target ≠ newSession) : Plain [option, target] := by
  constructor
  · intro rest
    simp only [mem_cons, not_mem_nil, or_false] at hoption
    rcases hoption with rfl | rfl | rfl | rfl <;> exact ⟨rfl, rfl⟩
  · simp only [mem_cons, not_mem_nil, or_false] at hoption ⊢
    rintro (hflag | rfl)
    · rcases hoption with rfl | rfl | rfl | rfl <;> exact absurd hflag (by decide)
    · exact htarget rfl

theorem devices_plain : Plain (devices.flatMap fun dev =>
    if h.pathExists dev then ["--dev-bind", dev, dev] else []) := by
  apply Plain.flatMap
  intro dev hdev
  have hne : dev ≠ newSession := by
    rintro rfl
    revert hdev
    decide
  exact (plain_bind (by decide) hne hne).ite .nil

theorem systemPaths_plain : Plain (systemPaths.flatMap fun path =>
    if h.pathExists path then ["--ro-bind", path, path] else []) := by
  apply Plain.flatMap
  intro path hpath
  have hne : path ≠ newSession := by
    rintro rfl
    revert hpath
    decide
  exact (plain_bind (by decide) hne hne).ite .nil

theorem commonArgs_opens (policy : SandboxPolicy) (program : String) :
    ∃ later, Opens policy (commonArgs h policy program) later := by
  have hflags : Plain ["--unshare-user", "--unshare-pid", "--unshare-ipc"] :=
    plain_flags (by decide)
  have hnet : Plain (if policy.hasFullNetworkAccess then [] else ["--unshare-net"]) :=
    Plain.nil.ite (plain_flags (by decide))
  have hfirst : Opens policy (["--die-with-parent", "--new-session", "--unshare-user",
      "--unshare-pid", "--unshare-ipc"] ++
        if policy.hasFullNetworkAccess then [] else ["--unshare-net"])
      (["--unshare-user", "--unshare-pid", "--unshare-ipc"] ++
        if policy.hasFullNetworkAccess then [] else ["--unshare-net"]) := by
    refine ⟨rfl, hflags.append hnet, fun hnetwork => ?_⟩
    rw [hnetwork, (hflags.complete _).1]
    exact mem_append_right _ (by decide)
  have hroot : Plain (if policy.hasFullDiskReadAccess then ["--ro-bind", "/", "/"]
      else ["--tmpfs", "/"]) :=
    (plain_bind (by decide) (by decide) (by decide)).ite (plain_mount (by decide) (by decide))
  have hdev : Plain (if policy = .readOnly then
      devices.flatMap fun dev => if h.pathExists dev then ["--dev-bind", dev, dev] else []
      else ["--dev", "/dev"]) :=
    (devices_plain h).ite (plain_mount (by decide) (by decide))
  have hproc : Plain ["--proc", "/proc"] := plain_mount (by decide) (by decide)
  exact ⟨_, (((((hfirst.append hroot).append hdev).append hproc).append
    (systemPaths_plain h)).append (addReadOnlyBind_plain h program)).append
      (ensurePathParentsVisible_plain program false)⟩

theorem createBwrapOptions_opens (hpolicy : policy ≠ .dangerFullAccess) (cwd program : String) :
    ∃ later, Opens policy (createBwrapOptions h policy cwd program) later := by
  obtain ⟨later, hcommon⟩ := commonArgs_opens h policy program
  cases policy with
  | dangerFullAccess => exact absurd rfl hpolicy
  | readOnly =>
    exact ⟨_, ((hcommon.append (ensurePathParentsVisible_plain cwd true)).append
      (addReadOnlyBind_plain h cwd)).append (plain_mount (by decide) (by decide))⟩
  | workspaceWrite writableRoots networkAccess excludeTmpdirEnvVar excludeSlashTmp =>
    have hroots : Plain (writableRoots.flatMap fun root =>
        addReadWriteBind h root.root ++ root.readOnlySubpaths.flatMap (addReadOnlyBind h)) :=
      .flatMap fun root _ => (addReadWriteBind_plain h root.root).append
        (.flatMap fun subpath _ => addReadOnlyBind_plain h subpath)
    have htemporary : Plain ((SandboxPolicy.temporaryRoots h excludeTmpdirEnvVar
        excludeSlashTmp).flatMap (addReadWriteBind h)) :=
      .flatMap fun path _ => addReadWriteBind_plain h path
    exact ⟨_, ((hcommon.append (addReadWriteBind_plain h cwd)).append hroots).append htemporary⟩

variable {pending : Option (String × List String)} {text : String}

theorem mem_readCommand (hmem : text ∈ readCommand pending args) : text ∈ args := by
  fun_induction readCommand pending args with
  | case1 => cases hmem
  | case2 rest => exact mem_cons_of_mem _ hmem
  | case3 arg rest hend hnone ih => exact mem_cons_of_mem _ (ih hmem)
  | case4 arg rest hend hsome ih => exact mem_cons_of_mem _ (ih hmem)
  | case5 option given arg rest hlast ih => exact mem_cons_of_mem _ (ih hmem)
  | case6 option given arg rest hmore ih => exact mem_cons_of_mem _ (ih hmem)

theorem mem_readOptions {option : String × List String}
    (hoption : option ∈ readOptions pending args) (htext : text ∈ option.2) :
    text ∈ args ∨ ∃ name given, pending = some (name, given) ∧ text ∈ given := by
  fun_induction readOptions pending args with
  | case1 => cases hoption
  | case2 rest => cases hoption
  | case3 arg rest hend hnone ih =>
    rcases mem_cons.mp hoption with rfl | hlater
    · cases htext
    · rcases ih hlater with hmem | ⟨name, given, hpending, -⟩
      · exact .inl (mem_cons_of_mem arg hmem)
      · cases hpending
  | case4 arg rest hend hsome ih =>
    rcases ih hoption with hmem | ⟨name, given, hpending, hgiven⟩
    · exact .inl (mem_cons_of_mem arg hmem)
    · cases hpending
      cases hgiven
  | case5 name given arg rest hlast ih =>
    rcases mem_cons.mp hoption with rfl | hlater
    · rcases mem_append.mp htext with hgiven | hlast
      · exact .inr ⟨name, given, rfl, hgiven⟩
      · exact .inl (mem_singleton.mp hlast ▸ mem_cons_self)
    · rcases ih hlater with hmem | ⟨name, given, hpending, -⟩
      · exact .inl (mem_cons_of_mem arg hmem)
      · cases hpending
  | case6 name given arg rest hmore ih =>
    rcases ih hoption with hmem | ⟨name', given', hpending, hgiven⟩
    · exact .inl (mem_cons_of_mem arg hmem)
    · cases hpending
      rcases mem_append.mp hgiven with hgiven | hlast
      · exact .inr ⟨name, given, rfl, hgiven⟩
      · exact .inl (mem_singleton.mp hlast ▸ mem_cons_self)

theorem chdir_mem (cwd : String) (options : List (String × List String)) :
    options.foldl chdir cwd = cwd ∨ ∃ option ∈ options, options.foldl chdir cwd ∈ option.2 := by
  induction options generalizing cwd with
  | nil => exact .inl rfl
  | cons option options ih =>
    rw [foldl_cons]
    rcases ih (chdir cwd option) with hsame | ⟨later, hlater, hmem⟩
    · rw [hsame]
      unfold chdir
      split
      · cases hoperands : option.2 with
        | nil => exact .inl rfl
        | cons operand rest =>
          refine .inr ⟨option, mem_cons_self, ?_⟩
          rw [hoperands]
          exact mem_cons_self
      · exact .inl rfl
    · exact .inr ⟨later, mem_cons_of_mem option hlater, hmem⟩

theorem runBwrap_complete (dir cwd : String) (network : Bool) (command : List String)
    (hcomplete : Complete args) :
    runBwrap dir network (args ++ ["--chdir", cwd] ++ ["--"] ++ command) =
      ⟨[], [], command, cwd, network && !decide (("--unshare-net", []) ∈ readOptions none args)⟩ := by
  have hoptions : readOptions none (args ++ ["--chdir", cwd] ++ ["--"] ++ command) =
      readOptions none args ++ [("--chdir", [cwd])] := by
    rw [append_assoc, append_assoc, (hcomplete _).1]
    rfl
  have hcommand : readCommand none (args ++ ["--chdir", cwd] ++ ["--"] ++ command) = command := by
    rw [append_assoc, append_assoc, (hcomplete _).2]
    rfl
  rw [runBwrap, hoptions, hcommand, foldl_append]
  simp [chdir]

/-- Where the operand of `--chdir` is taken out, the end of the options stands in for it. -/
theorem runBwrap_chdir (dir : String) (network : Bool) (more : List String)
    (hcomplete : Complete args) :
    (runBwrap dir network (args ++ "--chdir" :: "--" :: more)).cwd = "--" ∨
      (runBwrap dir network (args ++ "--chdir" :: "--" :: more)).cwd ∈ more := by
  have hoptions : readOptions none (args ++ "--chdir" :: "--" :: more) =
      readOptions none args ++ ("--chdir", ["--"]) :: readOptions none more := by
    rw [(hcomplete _).1]
    rfl
  have hcwd : (runBwrap dir network (args ++ "--chdir" :: "--" :: more)).cwd =
      (readOptions none more).foldl chdir "--" := by
    rw [runBwrap, hoptions, foldl_append, foldl_cons]
    rfl
  rw [hcwd]
  rcases chdir_mem "--" (readOptions none more) with hsame | ⟨option, hoption, hmem⟩
  · exact .inl hsame
  · rcases mem_readOptions hoption hmem with hmore | ⟨name, given, hpending, -⟩
    · exact .inr hmore
    · cases hpending

variable {l : Launchers} {serde : PolicyText} {dir cwd : String} {network : Bool}

theorem mem_readHelperArgs {read found : HelperArgs}
    (hread : readHelperArgs serde read args = some found) :
    (∀ text ∈ found.command, text ∈ args ∨ text ∈ read.command) ∧
      ∀ value, found.cwd = some value → value ∈ args ∨ read.cwd = some value := by
  fun_induction readHelperArgs serde read args with
  | case1 =>
    cases hread
    exact ⟨fun text htext => .inr htext, fun value hvalue => .inr hvalue⟩
  | case2 =>
    cases hread
    exact ⟨fun text htext => .inr htext, fun value hvalue => by cases hvalue⟩
  | case3 read value rest ih =>
    obtain ⟨hcommand, hcwd⟩ := ih hread
    constructor
    · intro text htext
      exact (hcommand text htext).imp_left fun hmem =>
        mem_cons_of_mem _ (mem_cons_of_mem value hmem)
    · intro found hfound
      rcases hcwd found hfound with hmem | hvalue
      · exact .inl (mem_cons_of_mem _ (mem_cons_of_mem value hmem))
      · cases hvalue
        exact .inl (mem_cons_of_mem _ mem_cons_self)
  | case4 =>
    cases hread
    exact ⟨fun text htext => .inr htext, fun value hvalue => .inr hvalue⟩
  | case5 read value rest hother ih =>
    obtain ⟨hcommand, hcwd⟩ := ih hread
    constructor
    · intro text htext
      exact (hcommand text htext).imp_left fun hmem =>
        mem_cons_of_mem _ (mem_cons_of_mem value hmem)
    · intro found hfound
      exact (hcwd found hfound).imp_left fun hmem =>
        mem_cons_of_mem _ (mem_cons_of_mem value hmem)
  | case6 read rest hother hpolicy ih =>
    obtain ⟨hcommand, hcwd⟩ := ih hread
    exact ⟨fun text htext => (hcommand text htext).imp_left (mem_cons_of_mem _),
      fun found hfound => (hcwd found hfound).imp_left (mem_cons_of_mem _)⟩
  | case7 =>
    cases hread
    exact ⟨fun text htext => .inl (mem_cons_of_mem _ htext),
      fun value hvalue => .inr hvalue⟩
  | case8 => cases hread

theorem tail_ne_self {α : Type} {items : List α} (h : items ≠ []) : items.tail ≠ items := by
  intro heq
  have hlength := congrArg List.length heq
  rw [length_tail] at hlength
  have hpos := length_pos_iff.mpr h
  omega

theorem applyInnerCommandArgv0_ne_nil {supportsArgv0 : Bool} {argv0 : String} (hargs : args ≠ []) :
    applyInnerCommandArgv0 args supportsArgv0 argv0 ≠ [] := by
  unfold applyInnerCommandArgv0
  split
  · simp
  · exact hargs

theorem createBwrapCommandArgs_ne_nil {program : String} {arguments : List String} :
    createBwrapCommandArgs h policy cwd program arguments ≠ [] := by
  simp [createBwrapCommandArgs]

/-- The helper executes the command that it has read, or it hands bubblewrap a list of which the
first argument is lost. -/
theorem helperMain_some {exe argv0 : String} {stages : Nat} {executed : Executed}
    (hrun : helperMain h l serde exe (stages + 1) argv0 dir network args = some executed) :
    ∃ found readCwd readPolicy,
      readHelperArgs serde ⟨none, none, false, []⟩ args = some found ∧
      found.cwd = some readCwd ∧ found.sandboxPolicy = some readPolicy ∧
      (readPolicy, readCwd) ∈ executed.decoded ∧
      ((∃ stage ∈ executed.stages, stage.received ≠ stage.generated) ∨
        executed = ⟨[], [(readPolicy, readCwd)], found.command, dir,
          network && readPolicy.hasFullNetworkAccess⟩ ∧
        (found.applySeccompThenExec = true ∨ readPolicy = .dangerFullAccess ∨
          l.preferredBwrapLauncher (some exe) = none)) := by
  unfold helperMain at hrun
  split at hrun
  · rename_i readCwd readPolicy applySeccomp program arguments hread
    refine ⟨_, readCwd, readPolicy, hread, rfl, rfl, ?_⟩
    split at hrun
    · rename_i hplain
      cases hrun
      rcases Bool.or_eq_true_iff.mp hplain with hseccomp | hdanger
      · exact ⟨mem_singleton_self _, .inr ⟨rfl, .inl hseccomp⟩⟩
      · exact ⟨mem_singleton_self _, .inr ⟨rfl, .inr (.inl (of_decide_eq_true hdanger))⟩⟩
    · split at hrun
      · rename_i hnone
        cases hrun
        exact ⟨mem_singleton_self _, .inr ⟨rfl, .inr (.inr hnone)⟩⟩
      · cases hrun
      · obtain ⟨run, -, rfl⟩ := map_eq_some_iff.mp hrun
        refine ⟨mem_cons_self, .inl ⟨_, mem_cons_self, ?_⟩⟩
        exact tail_ne_self (applyInnerCommandArgv0_ne_nil (createBwrapCommandArgs_ne_nil h))
  · cases hrun

/-- The chain ended with the command, in its directory; every wrapper got all its arguments, the
helper read the policy and the directory that were meant, and no network was left against it. -/
structure Intact (command : SandboxCommand) (policy : SandboxPolicy) (executed : Executed) :
    Prop where
  executes : executed.command = command.program :: command.args
  cwd : executed.cwd = command.cwd
  stages : ∀ stage ∈ executed.stages, stage.received = stage.generated
  decoded : ∀ read ∈ executed.decoded, read = (policy, command.cwd)
  network : policy.hasFullNetworkAccess = false → executed.network = false

/-- Nothing is spawned, or what is executed is the command. -/
def RunsAsRequested (command : SandboxCommand) (policy : SandboxPolicy) :
    Except ColossalErr (Option Executed) → Prop
  | .error _ => True
  | .ok none => False
  | .ok (some executed) => Intact command policy executed

/-- The texts that the spawning passes on. -/
def SandboxCommand.texts (command : SandboxCommand) : List String :=
  command.cwd :: command.program :: command.args

/-- The arguments of a request on a path. -/
def keptArgs (path : SpawnPath) (args : List String) : List String :=
  if path.isPty then args.filter (· ≠ newSession) else args

variable {path : SpawnPath} {requested : SandboxCommand}

theorem keptArgs_eq_self (hfree : path.isPty = true → newSession ∉ args) :
    keptArgs path args = args := by
  unfold keptArgs
  split
  · rename_i hpty
    apply filter_eq_self.mpr
    rintro arg harg
    exact decide_eq_true fun heq => hfree hpty (heq ▸ harg)
  · rfl

theorem keptArgs_append : keptArgs path (args ++ more) = keptArgs path args ++ keptArgs path more := by
  unfold keptArgs
  split
  · exact filter_append args more
  · rfl

theorem keptArgs_free (hpty : path.isPty = true) : newSession ∉ keptArgs path args := by
  intro hmem
  rw [keptArgs, if_pos hpty, mem_filter] at hmem
  exact absurd rfl (of_decide_eq_true hmem.2)

/-- The options of bubblewrap on a path, which end where the command's directory is named. -/
theorem keptArgs_options (path : SpawnPath) (hpolicy : policy ≠ .dangerFullAccess)
    (cwd program : String) :
    Complete (keptArgs path (createBwrapOptions h policy cwd program)) ∧
      (policy.hasFullNetworkAccess = false → ("--unshare-net", []) ∈
        readOptions none (keptArgs path (createBwrapOptions h policy cwd program))) := by
  obtain ⟨later, hopens⟩ := createBwrapOptions_opens h hpolicy cwd program
  have hlater : keptArgs path later = later := keptArgs_eq_self fun _ => hopens.plain.free
  have hfirst : Complete (keptArgs path ["--die-with-parent", newSession]) := by
    unfold keptArgs
    cases path.isPty <;> exact fun rest => ⟨rfl, rfl⟩
  rw [hopens.args, keptArgs_append, hlater]
  refine ⟨hfirst.append hopens.plain.complete, fun hnetwork => ?_⟩
  rw [(hfirst later).1]
  exact mem_append_right _ (hopens.network hnetwork)

theorem keptArgs_bwrap (path : SpawnPath) (policy : SandboxPolicy) (cwd program : String)
    (arguments : List String) :
    keptArgs path (createBwrapCommandArgs h policy cwd program arguments) =
      keptArgs path (createBwrapOptions h policy cwd program) ++
        "--chdir" :: (keptArgs path [cwd] ++ "--" :: keptArgs path (program :: arguments)) := by
  have hchdir : keptArgs path ["--chdir"] = ["--chdir"] :=
    keptArgs_eq_self fun _ => by decide
  have hend : keptArgs path ["--"] = ["--"] := keptArgs_eq_self fun _ => by decide
  have hsplit : createBwrapCommandArgs h policy cwd program arguments =
      createBwrapOptions h policy cwd program ++ (["--chdir"] ++ ([cwd] ++ (["--"] ++
        program :: arguments))) := by
    simp [createBwrapCommandArgs]
  rw [hsplit, keptArgs_append, keptArgs_append, keptArgs_append, keptArgs_append, hchdir, hend]
  rfl

theorem direct_intact_iff (hpolicy : policy ≠ .dangerFullAccess)
    (hargs : args = keptArgs path (createBwrapCommandArgs h policy requested.cwd
      requested.program requested.args)) :
    Intact requested policy { runBwrap requested.cwd true args with stages := [⟨args, args⟩] } ↔
      (path.isPty = true → newSession ∉ requested.texts) := by
  obtain ⟨hcomplete, hnetwork⟩ := keptArgs_options h path hpolicy requested.cwd
    requested.program
  have hform := keptArgs_bwrap h path policy requested.cwd requested.program
    requested.args
  constructor
  · intro hintact hpty hmem
    have hfree : newSession ∉ args := hargs ▸ keptArgs_free hpty
    rcases mem_cons.mp hmem with hcwd | hcommand
    · have hgone : keptArgs path [requested.cwd] = [] := by
        rw [keptArgs, if_pos hpty, ← hcwd]
        decide
      rw [hgone, nil_append] at hform
      have hran := runBwrap_chdir requested.cwd true
        (keptArgs path (requested.program :: requested.args)) hcomplete
      rw [← hform, ← hargs] at hran
      have hsame : (runBwrap requested.cwd true args).cwd = newSession :=
        hintact.cwd.trans hcwd.symm
      rw [hsame] at hran
      rcases hran with hend | hlater
      · exact absurd hend (by decide)
      · exact keptArgs_free hpty hlater
    · have hran : newSession ∈ (runBwrap requested.cwd true args).command := by
        have hexecutes : (runBwrap requested.cwd true args).command =
            requested.program :: requested.args := hintact.executes
        rw [hexecutes]
        exact hcommand
      exact hfree (mem_readCommand hran)
  · intro hfree
    have hcwd : keptArgs path [requested.cwd] = [requested.cwd] := keptArgs_eq_self fun hpty hmem =>
      hfree hpty (mem_singleton.mp hmem ▸ mem_cons_self)
    have hcommand : keptArgs path (requested.program :: requested.args) =
        requested.program :: requested.args := keptArgs_eq_self fun hpty hmem =>
      hfree hpty (mem_cons_of_mem _ hmem)
    have hshape : args = keptArgs path (createBwrapOptions h policy requested.cwd
        requested.program) ++ ["--chdir", requested.cwd] ++ ["--"] ++
          requested.program :: requested.args := by
      rw [hargs, hform, hcwd, hcommand]
      simp
    have hran := runBwrap_complete requested.cwd requested.cwd true
      (requested.program :: requested.args) hcomplete
    rw [← hshape] at hran
    rw [hran]
    refine ⟨rfl, rfl, ?_, ?_, fun hrestricted => ?_⟩
    · intro stage hstage
      obtain rfl := mem_singleton.mp hstage
      rfl
    · intro read hread
      cases hread
    · simp [hnetwork hrestricted]

theorem readHelperArgs_end (read : HelperArgs) (command : List String) :
    readHelperArgs serde read ("--" :: command) = some { read with command := command } := by
  unfold readHelperArgs
  rw [if_neg (by decide), if_neg (by decide), if_neg (by decide), if_pos rfl]

theorem readHelperArgs_helperArgs (cwd json : String) (command : List String) :
    readHelperArgs serde ⟨none, none, false, []⟩ (helperArgs cwd json command) =
      some ⟨some cwd, serde.decode json, false, command⟩ := by
  simp only [helperArgs, cons_append, nil_append, readHelperArgs, readHelperArgs_end,
    if_true, String.reduceEq, if_false]

theorem helper_intact_iff (hpolicy : policy ≠ .dangerFullAccess) {helper json : String}
    (hdecode : serde.decode json = some policy) (hjson : json ≠ newSession)
    (hargs : args = keptArgs path (helperArgs requested.cwd json
      (requested.program :: requested.args))) :
    RunsAsRequested requested policy
        (.ok (helperMain h l serde helper 2 helper requested.cwd true args)) ↔
      l.preferredBwrapLauncher (some helper) = none ∧
        (path.isPty = true → newSession ∉ requested.texts) := by
  have hkept (hfree : path.isPty = true → newSession ∉ requested.texts) :
      args = helperArgs requested.cwd json (requested.program :: requested.args) := by
    rw [hargs]
    apply keptArgs_eq_self
    intro hpty hmem
    have hnew := hfree hpty
    simp only [SandboxCommand.texts, mem_cons, not_or] at hnew
    simp only [helperArgs, cons_append, nil_append, mem_cons] at hmem
    rcases hmem with hflag | hcwd | hflag | htext | hflag | hprogram | harg
    · exact absurd hflag (by decide)
    · exact hnew.1 hcwd
    · exact absurd hflag (by decide)
    · exact hjson htext.symm
    · exact absurd hflag (by decide)
    · exact hnew.2.1 hprogram
    · exact hnew.2.2 harg
  constructor
  · intro hruns
    cases hrun : helperMain h l serde helper 2 helper requested.cwd true args with
    | none =>
      rw [hrun] at hruns
      exact hruns.elim
    | some executed =>
      rw [hrun] at hruns
      have hintact : Intact requested policy executed := hruns
      obtain ⟨found, readCwd, readPolicy, hread, hreadCwd, hreadPolicy, hdecoded, hend⟩ :=
        helperMain_some h hrun
      cases hintact.decoded _ hdecoded
      rcases hend with ⟨stage, hstage, hlost⟩ | ⟨rfl, hwhy⟩
      · exact absurd (hintact.stages stage hstage) hlost
      have hcommand : found.command = requested.program :: requested.args := hintact.executes
      have hfree : path.isPty = true → newSession ∉ requested.texts := by
        intro hpty hmem
        have hgone : newSession ∉ args := hargs ▸ keptArgs_free hpty
        obtain ⟨hfromCommand, hfromCwd⟩ := mem_readHelperArgs hread
        rcases mem_cons.mp hmem with hcwd | hlater
        · rcases hfromCwd _ hreadCwd with hmem | hnone
          · exact hgone (hcwd ▸ hmem)
          · cases hnone
        · rcases hfromCommand newSession (hcommand ▸ hlater) with hmem | hnone
          · exact hgone hmem
          · cases hnone
      refine ⟨?_, hfree⟩
      rw [hkept hfree, readHelperArgs_helperArgs] at hread
      cases hread
      rcases hwhy with hseccomp | hdanger | hnone
      · cases hseccomp
      · exact absurd hdanger hpolicy
      · exact hnone
  · rintro ⟨hnone, hfree⟩
    have hrun : helperMain h l serde helper 2 helper requested.cwd true args = some
        ⟨[], [(policy, requested.cwd)], requested.program :: requested.args, requested.cwd,
          true && policy.hasFullNetworkAccess⟩ := by
      unfold helperMain
      rw [hkept hfree, readHelperArgs_helperArgs, hdecode, hnone]
      simp [hpolicy]
    rw [hrun]
    refine ⟨rfl, rfl, ?_, ?_, fun hnetwork => hnetwork⟩
    · intro stage hstage
      cases hstage
    · intro read hread
      exact mem_singleton.mp hread

/-- No wrapper is there, or the text of the policy cannot be made. -/
def Unwrappable (l : Launchers) (serde : PolicyText) (policy : SandboxPolicy) : Prop :=
  l.preferredBwrapLauncher none = none ∧
    (l.sandboxHelper = none ∨ ∃ e, serde.encode policy = .error e)

/-- The helper runs bubblewrap. -/
def HelperRunsBwrap (l : Launchers) : Prop :=
  l.preferredBwrapLauncher none = none ∧
    ∃ helper, l.sandboxHelper = some helper ∧ l.preferredBwrapLauncher (some helper) ≠ none

/-- What is spawned runs as requested exactly when the helper does not run bubblewrap and, in a
terminal, no text of the command is the flag that is taken out of the arguments. -/
theorem spawn_intact_iff (hserde : ∀ policy json, serde.encode policy = .ok json →
      serde.decode json = some policy ∧ json ≠ "--new-session")
    (hpolicy : policy ≠ .dangerFullAccess) :
    RunsAsRequested requested policy (path.run h l serde requested policy) ↔
      requested.hasNul = true ∨ Unwrappable l serde policy ∨
        ¬ HelperRunsBwrap l ∧ (path.isPty = true → "--new-session" ∉ requested.texts) := by
  have hspawn (request : SandboxExecRequest)
      (hrequest : prepareSpawn h l serde requested policy = .ok request)
      (hsandbox : request.sandbox = .linuxBubblewrap) : path.request h l serde requested policy =
        .ok { request with args := keptArgs path request.args } := by
    unfold SpawnPath.request keptArgs
    rw [hrequest, Except.map]
    split
    · rw [maybeRemoveBwrapNewSession, if_pos hsandbox]
      rfl
    · rfl
  have hprepared : prepareSpawn h l serde requested policy =
      prepareLinuxSandbox h l serde requested policy := by
    rw [prepareSpawn, if_neg hpolicy]
  cases hnul : requested.hasNul with
  | true =>
    rw [SpawnPath.run]
    cases path.request h l serde requested policy with
    | error e => simp [RunsAsRequested]
    | ok request => simp [hnul, RunsAsRequested]
  | false =>
    cases hlauncher : l.preferredBwrapLauncher none with
    | some bwrap =>
      have hrequest := hspawn ⟨bwrap.program, createBwrapCommandArgs h policy requested.cwd
        requested.program requested.args, requested.cwd, .linuxBubblewrap⟩
        (by rw [hprepared, prepareLinuxSandbox, hlauncher]) rfl
      have hrun : path.run h l serde requested policy = .ok (some
          { runBwrap requested.cwd true (keptArgs path (createBwrapCommandArgs h policy
              requested.cwd requested.program requested.args)) with
            stages := [⟨keptArgs path (createBwrapCommandArgs h policy requested.cwd
              requested.program requested.args), keptArgs path (createBwrapCommandArgs h policy
                requested.cwd requested.program requested.args)⟩] }) := by
        rw [SpawnPath.run, hrequest]
        simp only [hnul, runRequest, if_neg hpolicy, hlauncher]
        rfl
      have hwrapped : ¬ Unwrappable l serde policy := fun hnone => by
        rw [Unwrappable, hlauncher] at hnone
        cases hnone.1
      have houtside : ¬ HelperRunsBwrap l := fun hnone => by
        rw [HelperRunsBwrap, hlauncher] at hnone
        cases hnone.1
      rw [hrun]
      exact (direct_intact_iff h hpolicy rfl).trans (by simp [hwrapped, houtside, newSession])
    | none =>
      cases hhelper : l.sandboxHelper with
      | none =>
        have hunwrappable : Unwrappable l serde policy := ⟨hlauncher, .inl hhelper⟩
        have hrun : path.run h l serde requested policy = .error (.io noLauncher) := by
          simp only [SpawnPath.run, SpawnPath.request, hprepared, prepareLinuxSandbox, hlauncher,
            hhelper, Except.map]
        rw [hrun]
        simp [RunsAsRequested, hunwrappable]
      | some helper =>
        cases hencode : serde.encode policy with
        | error e =>
          have hunwrappable : Unwrappable l serde policy := ⟨hlauncher, .inr ⟨e, hencode⟩⟩
          have hrun : path.run h l serde requested policy =
              .error (.io ("failed to serialize sandbox policy: " ++ e)) := by
            simp only [SpawnPath.run, SpawnPath.request, hprepared, prepareLinuxSandbox, hlauncher,
              hhelper, hencode, Except.map]
          rw [hrun]
          simp [RunsAsRequested, hunwrappable]
        | ok json =>
          obtain ⟨hdecode, hjson⟩ := hserde policy json hencode
          have hrequest := hspawn ⟨helper, helperArgs requested.cwd json
            (requested.program :: requested.args), requested.cwd, .linuxBubblewrap⟩
            (by rw [hprepared, prepareLinuxSandbox, hlauncher]; simp only [hhelper, hencode]) rfl
          have hrun : path.run h l serde requested policy = .ok
              (helperMain h l serde helper 2 helper requested.cwd true (keptArgs path
                (helperArgs requested.cwd json (requested.program :: requested.args)))) := by
            rw [SpawnPath.run, hrequest]
            simp only [hnul, runRequest, if_neg hpolicy, hlauncher]
            rfl
          have hwrapped : ¬ Unwrappable l serde policy := by
            rintro ⟨-, hnone | ⟨e, he⟩⟩
            · rw [hhelper] at hnone
              cases hnone
            · rw [hencode] at he
              cases he
          have houtside : ¬ HelperRunsBwrap l ↔
              l.preferredBwrapLauncher (some helper) = none := by
            simp [HelperRunsBwrap, hlauncher, hhelper]
          rw [hrun]
          exact (helper_intact_iff h hpolicy hdecode hjson rfl).trans
            (by simp [hwrapped, houtside, newSession])

/-- A host without files, a bubblewrap on the path, and the text of one policy. -/
def bareHost : Host := ⟨fun _ => false, fun _ => none, none⟩

def bareLaunchers : Launchers := ⟨some ⟨"/usr/bin/bwrap", true⟩, none, fun _ => none, none⟩

def readOnlyText : PolicyText where
  encode
    | .readOnly => .ok "\"ReadOnly\""
    | _ => .error "not in the sample"
  decode := fun text => if text = "\"ReadOnly\"" then some .readOnly else none

theorem readOnlyText_reads (policy : SandboxPolicy) (json : String)
    (h : readOnlyText.encode policy = .ok json) :
    readOnlyText.decode json = some policy ∧ json ≠ "--new-session" := by
  cases policy with
  | readOnly =>
    cases h
    exact ⟨rfl, by decide⟩
  | workspaceWrite => cases h
  | dangerFullAccess => cases h

theorem spawn_intact_iff_sample :
    RunsAsRequested ⟨"/bin/echo", ["a"], "/"⟩ .readOnly
        (SpawnPath.execSession.run bareHost bareLaunchers readOnlyText ⟨"/bin/echo", ["a"], "/"⟩
          .readOnly) ↔
      SandboxCommand.hasNul ⟨"/bin/echo", ["a"], "/"⟩ = true ∨
        Unwrappable bareLaunchers readOnlyText .readOnly ∨ ¬ HelperRunsBwrap bareLaunchers ∧
          (SpawnPath.execSession.isPty = true →
            "--new-session" ∉ SandboxCommand.texts ⟨"/bin/echo", ["a"], "/"⟩) :=
  spawn_intact_iff bareHost readOnlyText_reads (by decide)

/-- The command of a run that executes one. -/
def executedCommand : Except ColossalErr (Option Executed) → List String
  | .ok (some executed) => executed.command
  | _ => []

theorem RunsAsRequested.executedCommand {run : Except ColossalErr (Option Executed)}
    (hruns : RunsAsRequested requested policy run) : executedCommand run = [] ∨
      executedCommand run = requested.program :: requested.args := by
  match run, hruns with
  | .error _, _ => exact .inl rfl
  | .ok (some _), hintact => exact .inr hintact.executes

/-- A session loses the argument of its command that reads like the flag. -/
theorem argument_taken_out : ¬ ∀ (h : Host) (l : Launchers) (serde : PolicyText)
    (path : SpawnPath) (requested : SandboxCommand) (policy : SandboxPolicy),
    policy ≠ .dangerFullAccess →
    (∀ policy json, serde.encode policy = .ok json → serde.decode json = some policy) →
    RunsAsRequested requested policy (path.run h l serde requested policy) := by
  intro hall
  have hruns := hall bareHost bareLaunchers readOnlyText .execSession
    ⟨"/bin/echo", ["--new-session"], "/"⟩ .readOnly (by decide)
    (fun policy json h => (readOnlyText_reads policy json h).1)
  have hexecuted : executedCommand (SpawnPath.execSession.run bareHost bareLaunchers readOnlyText
      ⟨"/bin/echo", ["--new-session"], "/"⟩ .readOnly) = ["/bin/echo"] := by decide
  rcases hruns.executedCommand with hnone | hcommand
  · exact absurd (hexecuted.symm.trans hnone) (by decide)
  · exact absurd (hexecuted.symm.trans hcommand) (by decide)

end ColossalCode.Sandbox
