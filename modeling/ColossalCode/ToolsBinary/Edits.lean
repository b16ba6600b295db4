import ColossalCode.ToolsBinary.Confined

/-! An edit of a file, where reads and writes may fail, against what it asks for. -/
namespace ColossalCode.ToolsBinary.Files
open List

open FileSystem
open Text (utf8)

/-- A write fails before anything is written, or once so many bytes are. -/
inductive WriteFault where
  | refused (e : String)
  | cut (written : Nat) (e : String)
  deriving DecidableEq

/-- What goes wrong for other reasons than what stands in the file system. -/
structure Faults where
  check : Option String
  read : Option String
  write : Option WriteFault
  deriving DecidableEq

/-- `fs::write`, which empties the file before it writes. -/
def writeUnder (fault : Option WriteFault) (fs : FileTree) (path : RealPath)
    (content : List UInt8) : FileTree × Except String Unit :=
  match fault with
  | none =>
    match fs.write path content with
    | (fs, .ok ()) => (fs, .ok ())
    | (fs, .error e) => (fs, .error (errorText e))
  | some (.refused e) => (fs, .error e)
  | some (.cut written e) =>
    match fs.write path (content.take written) with
    | (fs, .ok ()) => (fs, .error e)
    | (fs, .error e) => (fs, .error (errorText e))

def readUnder (fault : Option String) (fs : FileTree) (path : RealPath) : Except String String :=
  fault.elim (readToString fs path) .error

def checkedUnder (fault : Option String) (fs : FileTree) (root : RealPath) (path : String) :
    Except String RealPath :=
  fault.elim (checkedPath fs root path false) .error

/-- `edit_file`, under faults of its file system. -/
def editFileUnder (faults : Faults) (fs : FileTree) (targetFile : RealPath)
    (oldString newString : String) : FileTree × EditResult :=
  let failed (message : String) : EditResult := ⟨display targetFile, .failure, some message⟩
  if fs.pathExists targetFile then
    if fs.isDir targetFile then (fs, failed "Target path is a directory, not a file")
    else
      match readUnder faults.read fs targetFile with
      | .error e => (fs, failed ("Failed to read file: " ++ e))
      | .ok content =>
        match edited oldString newString content with
        | .error message => (fs, failed message)
        | .ok newContent =>
          match writeUnder faults.write fs targetFile (utf8 newContent.toList) with
          | (fs, .ok ()) => (fs, ⟨display targetFile, .success, none⟩)
          | (fs, .error e) => (fs, failed ("Failed to write file: " ++ e))
  else if oldString = "" then
    match ensureParent fs targetFile with
    | (fs, .error e) => (fs, failed ("Failed to create parent directories: " ++ errorText e))
    | (fs, .ok ()) =>
      match writeUnder faults.write fs targetFile (utf8 newString.toList) with
      | (fs, .ok ()) => (fs, ⟨display targetFile, .success, some "File created"⟩)
      | (fs, .error e) => (fs, failed ("Failed to create file: " ++ e))
  else (fs, failed "File does not exist (use empty old_string to create new file)")

/-- The arm of `main`. -/
def runEdit (faults : Faults) (fs : FileTree) (root : RealPath)
    (path oldString newString : String) : FileTree × EditResult :=
  match checkedUnder faults.check fs root path with
  | .error e => (fs, ⟨path, .failure, some e⟩)
  | .ok target => editFileUnder faults fs target oldString newString

section Occurrences

variable {oldString newString content : List Char}

theorem matchIndices_pos_iff (hne : oldString ≠ []) (skip : Nat) :
    0 < matchIndices oldString skip content ↔
      ∃ before after, content = before ++ oldString ++ after ∧ skip ≤ before.length := by
  fun_induction matchIndices oldString skip content with
  | case1 skip =>
    refine iff_of_false (Nat.lt_irrefl 0) ?_
    rintro ⟨before, after, hcontent, -⟩
    have hnil := congrArg length hcontent
    have hlength := length_pos_iff.mpr hne
    simp only [length_nil, length_append] at hnil
    omega
  | case2 skip c content ih =>
    rw [ih]
    constructor
    · rintro ⟨before, after, rfl, hskip⟩
      exact ⟨c :: before, after, rfl, Nat.succ_le_succ hskip⟩
    · rintro ⟨before, after, hcontent, hskip⟩
      cases before with
      | nil => exact absurd hskip (Nat.not_succ_le_zero skip)
      | cons d before =>
        obtain ⟨-, htail⟩ := cons.inj hcontent
        exact ⟨before, after, htail, Nat.le_of_succ_le_succ hskip⟩
  | case3 c content hfirst ih =>
    obtain ⟨after, hafter⟩ := isPrefixOf_iff_prefix.mp hfirst
    exact iff_of_true (by omega) ⟨[], after, hafter.symm, Nat.zero_le _⟩
  | case4 c content hfirst ih =>
    rw [ih]
    constructor
    · rintro ⟨before, after, rfl, -⟩
      exact ⟨c :: before, after, rfl, Nat.zero_le _⟩
    · rintro ⟨before, after, hcontent, -⟩
      cases before with
      | nil => exact absurd (List.isPrefixOf_iff_prefix.mpr ⟨after, hcontent.symm⟩) hfirst
      | cons d before =>
        obtain ⟨-, htail⟩ := cons.inj hcontent
        exact ⟨before, after, htail, Nat.zero_le _⟩

/-- More than one is counted where one stands after another's end. -/
theorem one_lt_matchIndices_iff (hne : oldString ≠ []) (skip : Nat) :
    1 < matchIndices oldString skip content ↔ ∃ before between after,
      content = before ++ oldString ++ (between ++ oldString ++ after) ∧ skip ≤ before.length := by
  fun_induction matchIndices oldString skip content with
  | case1 skip =>
    refine iff_of_false (by omega) ?_
    rintro ⟨before, between, after, hcontent, -⟩
    have hnil := congrArg length hcontent
    have hlength := length_pos_iff.mpr hne
    simp only [length_nil, length_append] at hnil
    omega
  | case2 skip c content ih =>
    rw [ih]
    constructor
    · rintro ⟨before, between, after, rfl, hskip⟩
      exact ⟨c :: before, between, after, rfl, Nat.succ_le_succ hskip⟩
    · rintro ⟨before, between, after, hcontent, hskip⟩
      cases before with
      | nil => exact absurd hskip (Nat.not_succ_le_zero skip)
      | cons d before =>
        obtain ⟨-, htail⟩ := cons.inj hcontent
        exact ⟨before, between, after, htail, Nat.le_of_succ_le_succ hskip⟩
  | case3 c content hfirst ih =>
    have hlength := length_pos_iff.mpr hne
    rw [show 1 < 1 + matchIndices oldString (oldString.length - 1) content ↔
      0 < matchIndices oldString (oldString.length - 1) content by omega, matchIndices_pos_iff hne]
    constructor
    · rintro ⟨before, after, hcontent, hlong⟩
      -- the later one begins after the end of the one that stands first
      have hprefix : oldString <+: c :: before := by
        apply prefix_of_prefix_length_le (List.isPrefixOf_iff_prefix.mp hfirst)
        · rw [hcontent, append_assoc]
          exact ⟨oldString ++ after, rfl⟩
        · rw [length_cons]
          omega
      obtain ⟨between, hbetween⟩ := hprefix
      refine ⟨[], between, after, ?_, Nat.zero_le _⟩
      rw [hcontent, nil_append, append_assoc between, ← append_assoc oldString,
        hbetween, append_assoc]
      rfl
    · rintro ⟨before, between, after, hcontent, -⟩
      cases hstart : before ++ oldString with
      | nil => exact absurd (append_eq_nil_iff.mp hstart).2 hne
      | cons d start =>
        have hlong := congrArg length hstart
        rw [length_append, length_cons] at hlong
        rw [hstart, cons_append] at hcontent
        obtain ⟨-, htail⟩ := cons.inj hcontent
        refine ⟨start ++ between, after, ?_, ?_⟩
        · rw [htail]
          simp only [append_assoc]
        · rw [length_append]
          omega
  | case4 c content hfirst ih =>
    rw [ih]
    constructor
    · rintro ⟨before, between, after, rfl, -⟩
      exact ⟨c :: before, between, after, rfl, Nat.zero_le _⟩
    · rintro ⟨before, between, after, hcontent, -⟩
      cases before with
      | nil =>
        exact absurd (List.isPrefixOf_iff_prefix.mpr ⟨between ++ oldString ++ after,
          hcontent.symm⟩) hfirst
      | cons d before =>
        obtain ⟨-, htail⟩ := cons.inj hcontent
        exact ⟨before, between, after, htail, Nat.zero_le _⟩

/-- The one that stands first is replaced. -/
theorem replaceFirst_eq {before after : List Char} (hne : oldString ≠ [])
    (hcontent : content = before ++ oldString ++ after)
    (hfirst : ∀ before' after', content = before' ++ oldString ++ after' → before' = before) :
    replaceFirst oldString newString content = before ++ newString ++ after := by
  induction content generalizing before with
  | nil =>
    rw [eq_comm, append_eq_nil_iff, append_eq_nil_iff] at hcontent
    exact absurd hcontent.1.2 hne
  | cons c content ih =>
    rw [replaceFirst]
    by_cases hhere : oldString.isPrefixOf (c :: content) = true
    · obtain ⟨rest, hrest⟩ := isPrefixOf_iff_prefix.mp hhere
      have hbefore : [] = before := hfirst [] rest hrest.symm
      subst hbefore
      rw [if_pos hhere, hcontent, nil_append, drop_left, nil_append]
    · cases before with
      | nil =>
        exact absurd (List.isPrefixOf_iff_prefix.mpr ⟨after, hcontent.symm⟩) hhere
      | cons d before =>
        obtain ⟨rfl, htail⟩ := cons.inj hcontent
        rw [if_neg hhere, ih htail]
        · rfl
        · intro before' after' heq
          exact (cons.inj (hfirst (c :: before') after' (by rw [heq]; rfl))).2

end Occurrences

/-- The text stands between the two and nowhere else. -/
def Only (content oldString before after : String) : Prop :=
  content = before ++ oldString ++ after ∧
    ∀ before' after', content = before' ++ oldString ++ after' → before' = before

/-- The content that an edit is to leave in the file. -/
inductive Asks (faults : Faults) (fs : FileTree) (target : RealPath) (newString : String) :
    String → String → Prop
  | exchange {oldString content before after : String}
      (hread : readUnder faults.read fs target = .ok content) (hne : oldString ≠ "")
      (honly : Only content oldString before after) :
      Asks faults fs target newString oldString (before ++ newString ++ after)
  | fill {content : String}
      (hread : readUnder faults.read fs target = .ok content) (hblank : Text.trim content = "") :
      Asks faults fs target newString "" newString
  | create (habsent : fs.pathExists target = false) : Asks faults fs target newString "" newString

/-- What no edit is made of. -/
inductive Refuses (faults : Faults) (fs : FileTree) (target : RealPath) : String → Prop
  | absent {oldString : String} (habsent : fs.pathExists target = false) (hne : oldString ≠ "") :
      Refuses faults fs target oldString
  | directory {oldString : String} (hdir : fs.isDir target = true) :
      Refuses faults fs target oldString
  | unreadable {oldString e : String} (hexists : fs.pathExists target = true)
      (hread : readUnder faults.read fs target = .error e) : Refuses faults fs target oldString
  | occupied {content : String} (hread : readUnder faults.read fs target = .ok content)
      (hcontent : Text.trim content ≠ "") : Refuses faults fs target ""
  | nowhere {oldString content : String} (hread : readUnder faults.read fs target = .ok content)
      (hne : oldString ≠ "")
      (hnone : ∀ before after, content ≠ before ++ oldString ++ after) :
      Refuses faults fs target oldString
  | twice {oldString content : String} (hread : readUnder faults.read fs target = .ok content)
      (hne : oldString ≠ "") {before between after : String}
      (hcontent : content = before ++ oldString ++ (between ++ oldString ++ after)) :
      Refuses faults fs target oldString

/-- It stands in two places, which may share some of it. -/
def Repeats (faults : Faults) (fs : FileTree) (target : RealPath) (oldString : String) : Prop :=
  ∃ content before after before' after', readUnder faults.read fs target = .ok content ∧
    content = before ++ oldString ++ after ∧ content = before' ++ oldString ++ after' ∧
    before ≠ before'

section Edits

variable {faults : Faults} {fs fs' : FileTree} {root target : RealPath}
  {path oldString newString content before after : String} {fault : Option WriteFault}

theorem split_toList :
    content = before ++ oldString ++ after ↔
      content.toList = before.toList ++ oldString.toList ++ after.toList := by
  rw [← String.toList_append, ← String.toList_append, String.toList_inj]

theorem toList_ne_nil (hne : oldString ≠ "") : oldString.toList ≠ [] :=
  fun h => hne (String.toList_eq_nil_iff.mp h)

theorem edited_only (hne : oldString ≠ "") (h : Only content oldString before after) :
    edited oldString newString content = .ok (before ++ newString ++ after) := by
  have hlist := toList_ne_nil hne
  have hsplit := split_toList.mp h.1
  have honly : ∀ before' after', content.toList = before' ++ oldString.toList ++ after' →
      before' = before.toList := by
    intro before' after' heq
    have hstring : content = String.ofList before' ++ oldString ++ String.ofList after' := by
      rw [split_toList, String.toList_ofList, String.toList_ofList]
      exact heq
    rw [← h.2 _ _ hstring, String.toList_ofList]
  have hsome : 0 < matchIndices oldString.toList 0 content.toList :=
    (matchIndices_pos_iff hlist 0).mpr ⟨_, _, hsplit, Nat.zero_le _⟩
  have hone : ¬ 1 < matchIndices oldString.toList 0 content.toList := by
    intro htwo
    obtain ⟨first, between, last, htwice, -⟩ := (one_lt_matchIndices_iff hlist 0).mp htwo
    have hfirst := honly _ _ htwice
    have hsecond := honly (first ++ oldString.toList ++ between) last (by
      rw [htwice]
      simp only [append_assoc])
    have hlength := congrArg length (hsecond.trans hfirst.symm)
    rw [length_append, length_append] at hlength
    exact absurd (length_pos_iff.mpr hlist) (by omega)
  rw [edited, if_neg hne]
  dsimp only
  rw [if_neg (by omega), if_neg hone, replaceFirst_eq hlist hsplit honly]
  rw [← String.toList_append, ← String.toList_append, String.ofList_toList]

theorem edited_refused (newString : String) (hread : readUnder faults.read fs target = .ok content)
    (h : Refuses faults fs target oldString) (hdir : fs.isDir target = false)
    (hexists : fs.pathExists target = true) :
    ∃ message, edited oldString newString content = .error message := by
  cases h with
  | absent habsent hne =>
    rw [hexists] at habsent
    cases habsent
  | directory hisDir =>
    rw [hdir] at hisDir
    cases hisDir
  | unreadable _ hfails =>
    rw [hread] at hfails
    cases hfails
  | occupied hthere hcontent =>
    rw [hread] at hthere
    cases hthere
    rw [edited, if_pos rfl, if_neg hcontent]
    exact ⟨_, rfl⟩
  | nowhere hthere hne hnone =>
    rw [hread] at hthere
    cases hthere
    have hzero : matchIndices oldString.toList 0 content.toList = 0 := by
      by_contra hsome
      obtain ⟨before, after, hsplit, -⟩ :=
        (matchIndices_pos_iff (toList_ne_nil hne) 0).mp (Nat.pos_of_ne_zero hsome)
      refine hnone (String.ofList before) (String.ofList after) ?_
      rw [split_toList, String.toList_ofList, String.toList_ofList]
      exact hsplit
    rw [edited, if_neg hne]
    dsimp only
    rw [if_pos hzero]
    exact ⟨_, rfl⟩
  | @twice _ _ hthere hne before between after hsplit =>
    rw [hread] at hthere
    cases hthere
    have htwo : 1 < matchIndices oldString.toList 0 content.toList := by
      rw [one_lt_matchIndices_iff (toList_ne_nil hne)]
      refine ⟨before.toList, between.toList, after.toList, ?_, Nat.zero_le _⟩
      rw [split_toList.mp hsplit, String.toList_append, String.toList_append]
    rw [edited, if_neg hne]
    dsimp only
    rw [if_neg (by omega), if_pos htwo]
    exact ⟨_, rfl⟩

theorem readUnder_ok (h : readUnder faults.read fs target = .ok content) :
    fs.pathExists target = true ∧ fs.isDir target = false := by
  have hread : readToString fs target = .ok content := by
    cases hfault : faults.read with
    | none =>
      rw [hfault] at h
      exact h
    | some e =>
      rw [hfault] at h
      cases h
  rw [readToString, Tree.read] at hread
  cases hstat : fs.stat target with
  | error e =>
    rw [hstat] at hread
    cases hread
  | ok there =>
    obtain ⟨found, node⟩ := there
    refine ⟨Tree.pathExists_iff.mpr ⟨found, node, hstat⟩, ?_⟩
    rw [Tree.isDir, hstat]
    cases node with
    | dir =>
      rw [hstat] at hread
      cases hread
    | file bytes => rfl
    | link link => rfl

theorem writeUnder_ok {bytes : List UInt8} (h : (writeUnder fault fs target bytes).2 = .ok ()) :
    (writeUnder fault fs target bytes).1.read target = .ok bytes := by
  cases fault with
  | none =>
    rw [writeUnder] at h ⊢
    cases hwrite : fs.write target bytes with
    | mk fs' res =>
      cases res with
      | error e =>
        rw [hwrite] at h
        cases h
      | ok done => exact Tree.read_write hwrite
  | some fault =>
    cases fault with
    | refused e => cases h
    | cut written e =>
      rw [writeUnder] at h
      cases hwrite : fs.write target (bytes.take written) with
      | mk fs' res =>
        rw [hwrite] at h
        cases res <;> cases h

theorem writeUnder_error {bytes : List UInt8} (h : (writeUnder fault fs target bytes).2 ≠ .ok ())
    (hcut : ∀ written e, fault ≠ some (.cut written e)) :
    (writeUnder fault fs target bytes).1 = fs := by
  cases fault with
  | none =>
    rw [writeUnder] at h ⊢
    cases hwrite : fs.write target bytes with
    | mk fs' res =>
      cases res with
      | error e => exact Tree.write_failed hwrite
      | ok done =>
        rw [hwrite] at h
        exact absurd rfl h
  | some fault =>
    cases fault with
    | refused e => rfl
    | cut written e => exact absurd rfl (hcut written e)

/-- The result of a call that comes to its write is that of the write. -/
def Writes (faults : Faults) (fs : FileTree) (target : RealPath) (content : String)
    (done : FileTree × EditResult) : Prop :=
  done.1 = (writeUnder faults.write fs target (utf8 content.toList)).1 ∧
    (done.2.status = .success ↔
      (writeUnder faults.write fs target (utf8 content.toList)).2 = .ok ())

theorem editFileUnder_edited {newContent : String}
    (hread : readUnder faults.read fs target = .ok content)
    (hedited : edited oldString newString content = .ok newContent) :
    Writes faults fs target newContent (editFileUnder faults fs target oldString newString) := by
  obtain ⟨hexists, hdir⟩ := readUnder_ok hread
  simp only [Writes, editFileUnder, hexists, hdir, hread, hedited, if_true, Bool.false_eq_true,
    if_false]
  rcases writeUnder faults.write fs target (utf8 newContent.toList) with ⟨fs', _ | _⟩ <;> simp

theorem editFileUnder_created (habsent : fs.pathExists target = false)
    (hparent : ensureParent fs target = (fs, .ok ())) :
    Writes faults fs target newString (editFileUnder faults fs target "" newString) := by
  simp only [Writes, editFileUnder, habsent, hparent, if_true, Bool.false_eq_true, if_false]
  rcases writeUnder faults.write fs target (utf8 newString.toList) with ⟨fs', _ | _⟩ <;> simp

theorem editFileUnder_asks (h : Asks faults fs target newString oldString content)
    (hparent : ensureParent fs target = (fs, .ok ())) :
    Writes faults fs target content (editFileUnder faults fs target oldString newString) := by
  cases h with
  | exchange hread hne honly => exact editFileUnder_edited hread (edited_only hne honly)
  | fill hread hblank =>
    exact editFileUnder_edited hread (by rw [edited, if_pos rfl, if_pos hblank])
  | create habsent => exact editFileUnder_created habsent hparent

theorem editFileUnder_refuses (newString : String) (h : Refuses faults fs target oldString) :
    (editFileUnder faults fs target oldString newString).1 = fs ∧
      (editFileUnder faults fs target oldString newString).2.status = .failure := by
  by_cases hexists : fs.pathExists target = true
  · by_cases hdir : fs.isDir target = true
    · simp [editFileUnder, hexists, hdir]
    · cases hread : readUnder faults.read fs target with
      | error e => simp [editFileUnder, hexists, hdir, hread]
      | ok content =>
        obtain ⟨message, hedited⟩ := edited_refused newString hread h
          (Bool.eq_false_iff.mpr hdir) hexists
        simp [editFileUnder, hexists, hdir, hread, hedited]
  · have hne : oldString ≠ "" := by
      cases h with
      | absent _ hne => exact hne
      | directory hdir =>
        obtain ⟨found, hstat⟩ := Tree.isDir_iff.mp hdir
        exact absurd (Tree.pathExists_iff.mpr ⟨found, .dir, hstat⟩) hexists
      | unreadable hthere _ => exact absurd hthere hexists
      | occupied hread _ => exact absurd (readUnder_ok hread).1 hexists
      | nowhere hread hne _ => exact hne
      | twice hread hne _ => exact hne
    simp [editFileUnder, hexists, hne]

theorem Writes.failed {done : FileTree × EditResult} (h : Writes faults fs target content done)
    (hcut : ∀ written e, faults.write ≠ some (.cut written e))
    (hfailure : done.2.status = .failure) : done.1 = fs := by
  rw [h.1]
  refine writeUnder_error ?_ hcut
  intro hok
  rw [h.2.mpr hok] at hfailure
  cases hfailure

theorem editFileUnder_failed (hparent : ensureParent fs target = (fs, .ok ()))
    (hcut : ∀ written e, faults.write ≠ some (.cut written e))
    (h : (editFileUnder faults fs target oldString newString).2.status = .failure) :
    (editFileUnder faults fs target oldString newString).1 = fs := by
  by_cases hexists : fs.pathExists target = true
  · by_cases hdir : fs.isDir target = true
    · exact (editFileUnder_refuses _ (.directory hdir)).1
    · cases hread : readUnder faults.read fs target with
      | error e => exact (editFileUnder_refuses _ (.unreadable hexists hread)).1
      | ok content =>
        cases hedited : edited oldString newString content with
        | error message => simp [editFileUnder, hexists, hdir, hread, hedited]
        | ok newContent => exact (editFileUnder_edited hread hedited).failed hcut h
  · have habsent := Bool.eq_false_iff.mpr hexists
    by_cases hempty : oldString = ""
    · subst hempty
      exact (editFileUnder_created habsent hparent).failed hcut h
    · exact (editFileUnder_refuses _ (.absent habsent hempty)).1

/-- An edit asks for something, or is refused, or its text stands in places that share some of
it. -/
theorem asks_or_refuses (faults : Faults) (fs : FileTree) (target : RealPath)
    (oldString newString : String) :
    (∃ content, Asks faults fs target newString oldString content) ∨
      Refuses faults fs target oldString ∨ Repeats faults fs target oldString := by
  by_cases hexists : fs.pathExists target = true
  · cases hread : readUnder faults.read fs target with
    | error e => exact .inr (.inl (.unreadable hexists hread))
    | ok content =>
      by_cases hempty : oldString = ""
      · subst hempty
        by_cases hblank : Text.trim content = ""
        · exact .inl ⟨newString, .fill hread hblank⟩
        · exact .inr (.inl (.occupied hread hblank))
      · by_cases hsome : ∃ before after, content = before ++ oldString ++ after
        · obtain ⟨before, after, hsplit⟩ := hsome
          by_cases honly : ∀ before' after', content = before' ++ oldString ++ after' →
              before' = before
          · exact .inl ⟨_, .exchange hread hempty ⟨hsplit, honly⟩⟩
          · push Not at honly
            obtain ⟨before', after', hsplit', hne⟩ := honly
            exact .inr (.inr ⟨content, before, after, before', after', hread, hsplit, hsplit',
              Ne.symm hne⟩)
        · push Not at hsome
          exact .inr (.inl (.nowhere hread hempty hsome))
  · have habsent := Bool.eq_false_iff.mpr hexists
    by_cases hempty : oldString = ""
    · subst hempty
      exact .inl ⟨newString, .create habsent⟩
    · exact .inr (.inl (.absent habsent hempty))

theorem checkedUnder_written {fault : Option String}
    (h : checkedUnder fault fs root path = .ok target) : Written fs target := by
  cases fault with
  | none => exact resolvedPath_written (checkedPath_resolved h).1
  | some e => cases h

end Edits

/-- A call that passes the check writes exactly what is asked for, and succeeds when the write does;
what is refused fails; and no failure changes anything but that of a write that has begun. -/
theorem edit_exact (faults : Faults) (fs : FileTree) (root : RealPath)
    (path oldString newString : String) :
    let done := runEdit faults fs root path oldString newString
    (∀ e, checkedUnder faults.check fs root path = .error e →
      done.2.status = .failure ∧ done.1 = fs) ∧
    ∀ target, checkedUnder faults.check fs root path = .ok target →
      ((∃ content, Asks faults fs target newString oldString content) ∨
        Refuses faults fs target oldString ∨ Repeats faults fs target oldString) ∧
      (∀ content, Asks faults fs target newString oldString content →
        Writes faults fs target content done ∧
          (done.2.status = .success → done.1.read target = .ok (utf8 content.toList))) ∧
      (Refuses faults fs target oldString → done.2.status = .failure ∧ done.1 = fs) ∧
      ((∀ written e, faults.write ≠ some (.cut written e)) → done.2.status = .failure →
        done.1 = fs) := by
  intro done
  constructor
  · intro e hcheck
    have hdone : done = (fs, ⟨path, .failure, some e⟩) := by
      change runEdit faults fs root path oldString newString = _
      rw [runEdit, hcheck]
    rw [hdone]
    exact ⟨rfl, rfl⟩
  · intro target hcheck
    have hdone : done = editFileUnder faults fs target oldString newString := by
      change runEdit faults fs root path oldString newString = _
      rw [runEdit, hcheck]
    have hparent := ensureParent_written (checkedUnder_written hcheck)
    rw [hdone]
    refine ⟨asks_or_refuses faults fs target oldString newString, ?_, ?_, ?_⟩
    · intro content hasks
      have hwrites := editFileUnder_asks hasks hparent
      refine ⟨hwrites, ?_⟩
      intro hsuccess
      rw [hwrites.1]
      exact writeUnder_ok (hwrites.2.mp hsuccess)
    · intro hrefuses
      obtain ⟨htree, hstatus⟩ := editFileUnder_refuses newString hrefuses
      exact ⟨hstatus, htree⟩
    · intro hcut hfailure
      exact editFileUnder_failed hparent hcut hfailure

/-- The workspace /w with a text and a blank file. -/
def editTree : FileTree :=
  ⟨[(["w"], .dir), (["w", "a"], .file [97, 10]), (["w", "blank"], .file [32])]⟩

theorem edit_exact_replaced :
    (runEdit ⟨none, none, none⟩ editTree ["w"] "a" "a" "b").2.status = .success ∧
      (runEdit ⟨none, none, none⟩ editTree ["w"] "a" "a" "b").1.read ["w", "a"] = .ok [98, 10] := by
  have hcheck : checkedUnder none editTree ["w"] "a" = .ok ["w", "a"] := by decide
  have hread : readUnder none editTree ["w", "a"] = .ok "a\n" := by decide
  have honly : Only "a\n" "a" "" "\n" := by
    refine ⟨rfl, ?_⟩
    intro before after hsplit
    have hlist : ['a', '\n'] = before.toList ++ ['a'] ++ after.toList := split_toList.mp hsplit
    cases hbefore : before.toList with
    | nil => exact String.toList_eq_nil_iff.mp hbefore
    | cons c rest =>
      rw [hbefore] at hlist
      cases rest with
      | nil => simp at hlist
      | cons d rest =>
        have hlength := congrArg length hlist
        simp at hlength
  have hasks : Asks ⟨none, none, none⟩ editTree ["w", "a"] "b" "a" ("" ++ "b" ++ "\n") :=
    .exchange hread (by decide) honly
  obtain ⟨hwrites, hleft⟩ :=
    ((edit_exact ⟨none, none, none⟩ editTree ["w"] "a" "a" "b").2 _ hcheck).2.1 _ hasks
  have hsuccess := hwrites.2.mpr (by decide)
  exact ⟨hsuccess, hleft hsuccess⟩

/-- A blank file is overwritten though nothing is named in it, and a write that fails halfway leaves
the file without its content. -/
theorem edit_not_exact :
    (¬ ∀ (fs : FileTree) (root : RealPath) (path oldString newString : String),
      (runEdit ⟨none, none, none⟩ fs root path oldString newString).2.status = .success ↔
        ∃ target, checkedPath fs root path false = .ok target ∧
          ((∃ content before after, readToString fs target = .ok content ∧ oldString ≠ "" ∧
              Only content oldString before after) ∨
            fs.pathExists target = false ∧ oldString = "")) ∧
    ¬ ∀ (faults : Faults) (fs : FileTree) (root : RealPath) (path oldString newString : String),
      (runEdit faults fs root path oldString newString).2.status = .failure →
        (runEdit faults fs root path oldString newString).1 = fs := by
  constructor
  · intro hall
    have hsuccess : (runEdit ⟨none, none, none⟩ editTree ["w"] "blank" "" "b").2.status =
        .success := by decide
    obtain ⟨target, hcheck, hcase⟩ := (hall editTree ["w"] "blank" "" "b").mp hsuccess
    have htarget : checkedPath editTree ["w"] "blank" false = .ok ["w", "blank"] := by decide
    rw [htarget] at hcheck
    cases hcheck
    rcases hcase with ⟨_, _, _, _, hne, _⟩ | ⟨habsent, _⟩
    · exact hne rfl
    · revert habsent
      decide
  · intro hall
    have hkept := hall ⟨none, none, some (.cut 0 "No space left on device (os error 28)")⟩ editTree
      ["w"] "a" "a" "b" (by decide)
    revert hkept
    decide

end ColossalCode.ToolsBinary.Files
