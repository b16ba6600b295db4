import ColossalCode.Conversation.State

/-! A conversation keeps its id, and with it its file, its todos and its summaries. -/
namespace ColossalCode.Conversation
open Function List Option State

open Transition

variable {Meta : Type*} {encode : List ConversationMessage → String}

/-- A directory whose files are named by the ids in them. -/
structure Directory (Meta : Type*) where
  files : String → Option (Content Meta)
  named : ∀ path content metadata, files path = some content →
    content.metadata path = some metadata → path = pathOf metadata.id

theorem pathOf_injective {id id' : String} (h : pathOf id = pathOf id') : id = id' := by
  have hchars := congrArg String.toList h
  simp only [pathOf, String.toList_append, append_cancel_right_eq,
    append_cancel_left_eq] at hchars
  exact String.toList_inj.mp hchars

/-- What is saved goes under the id of the conversation, and to its file if it has one. -/
def Saving.Keeps (saving : Saving Meta) : Prop :=
  ∀ id, saving.before.currentConversationId = some id →
    saving.id = id ∧ saving.after.currentConversationId = some id ∧
      ∀ path, saving.before.currentConversationPath = some path →
        saving.path = path ∧ saving.after.currentConversationPath = some path

/-- The file has the id of the conversation, and the todos are those written last while it was
current. -/
structure OneIdentity (s : State Meta) : Prop where
  saved : ∀ saving, .saved saving ∈ s.log → saving.Keeps
  stored : ∀ id path file conversation, s.memory.currentConversationId = some id →
    s.memory.currentConversationPath = some path → s.files path = some file →
      file.content = .enhanced conversation → conversation.id = id
  todos : ∀ path todos, s.memory.currentConversationPath = some path →
    s.noted path = some todos → s.loadTodos = some todos

/-- Nothing is saved of a conversation that has an id but no file yet. -/
def Settled (s : State Meta) (disk : Disk) : Prop :=
  s.memory.currentConversationId.isSome = true → s.memory.currentConversationPath = none →
    s.memory.vectors.messages = [] ∨ disk.writes = false

def Steady (s : State Meta) : Action Meta → Prop
  | .save disk => s.savePending = true → Settled s disk
  | .load saveDisk _ => s.resumeLoadPending = true →
      (s.resumeConversations[s.resumeSelected]?).isSome = true → Settled s saveDisk
  | _ => True

/-- No other conversation is loaded, nor another process begun. -/
def Stays (encode : List ConversationMessage → String) (s : State Meta) : Action Meta → Prop
  | .load saveDisk disk => s.resumeLoadPending = true → ∀ metadata,
      s.resumeConversations[s.resumeSelected]? = some metadata →
        (({ s with resumeLoadPending := false }.autosave saveDisk).load encode metadata disk).2 = false
  | .restart => False
  | _ => True

/-- Names are ids, and todos noted for a file are found under its id. -/
structure Named (s : State Meta) : Prop where
  files : ∀ path file metadata, s.files path = some file →
    file.content.metadata path = some metadata → path = pathOf metadata.id
  listed : ∀ metadata ∈ s.resumeConversations, metadata.filePath = pathOf metadata.id
  followed : ∀ path, s.memory.currentConversationPath = some path →
    ∃ id, s.memory.currentConversationId = some id ∧ path = pathOf id
  noted : ∀ id todos, s.noted (pathOf id) = some todos → s.todos id = some todos
  unfollowed : ∀ id, s.memory.currentConversationId = some id →
    s.memory.currentConversationPath = none → s.noted (pathOf id) = none
  saved : ∀ saving, .saved saving ∈ s.log → saving.Keeps

section Operations

variable {s t : State Meta}

theorem Named.oneIdentity (h : Named s) : OneIdentity s := by
  refine ⟨h.saved, ?_, ?_⟩
  · intro id path file conversation hid hpath hfile hcontent
    obtain ⟨id', hid', rfl⟩ := h.followed path hpath
    cases hid.symm.trans hid'
    have hnamed := h.files _ file ⟨conversation.id, conversation.preview, pathOf id⟩ hfile (by
      rw [hcontent]
      rfl)
    exact (pathOf_injective hnamed).symm
  · intro path todos hpath hnoted
    obtain ⟨id, hid, rfl⟩ := h.followed path hpath
    rw [loadTodos, hid, bind_some]
    exact h.noted id todos hnoted

/-- What changes neither files nor todos, nor what is followed. -/
theorem Named.congr (h : Named s)
    (hid : t.memory.currentConversationId = s.memory.currentConversationId)
    (hpath : t.memory.currentConversationPath = s.memory.currentConversationPath)
    (hlisted : t.resumeConversations = s.resumeConversations) (hfiles : t.files = s.files)
    (htodos : t.todos = s.todos) (hnoted : t.noted = s.noted)
    (hlog : ∀ saving, .saved saving ∈ t.log → .saved saving ∈ s.log) : Named t := by
  refine ⟨?_, ?_, ?_, ?_, ?_, ?_⟩
  · rw [hfiles]
    exact h.files
  · rw [hlisted]
    exact h.listed
  · rw [hid, hpath]
    exact h.followed
  · rw [hnoted, htodos]
    exact h.noted
  · rw [hid, hpath, hnoted]
    exact h.unfollowed
  · exact fun saving hmem => h.saved saving (hlog saving hmem)

/-- Nothing is followed any more. -/
theorem Named.forget (h : Named s) (hid : t.memory.currentConversationId = none)
    (hpath : t.memory.currentConversationPath = none)
    (hlisted : ∀ metadata ∈ t.resumeConversations, metadata ∈ s.resumeConversations)
    (hfiles : t.files = s.files) (htodos : t.todos = s.todos) (hnoted : t.noted = s.noted)
    (hlog : ∀ saving, .saved saving ∈ t.log → .saved saving ∈ s.log) : Named t := by
  refine ⟨?_, ?_, ?_, ?_, ?_, ?_⟩
  · rw [hfiles]
    exact h.files
  · exact fun metadata hmem => h.listed metadata (hlisted metadata hmem)
  · intro path hsome
    rw [hpath] at hsome
    cases hsome
  · rw [hnoted, htodos]
    exact h.noted
  · intro id hsome
    rw [hid] at hsome
    cases hsome
  · exact fun saving hmem => h.saved saving (hlog saving hmem)

variable {disk : Disk} {metadata : ConversationMetadata} {action : Action Meta}

theorem Named.write (h : Named s) {id path : String} {createdAt : Nat}
    {forkedFrom : Option String} {forkedAt : Option Nat} (hpath : path = pathOf id)
    (hkeeps : disk.writes = true → ∀ id', s.memory.currentConversationId = some id' → id = id' ∧
      ∀ path', s.memory.currentConversationPath = some path' → path = path') :
    Named (s.write disk id path createdAt forkedFrom forkedAt).1 := by
  simp only [State.write]
  split
  · rename_i hwrites
    refine ⟨?_, h.listed, ?_, h.noted, ?_, ?_⟩
    · intro path' file metadata hfile hmetadata
      dsimp only at hfile
      by_cases hsame : path' = path
      · subst hsame
        rw [update_self] at hfile
        cases hfile
        cases hmetadata
        exact hpath
      · rw [update_of_ne hsame] at hfile
        exact h.files path' file metadata hfile hmetadata
    · intro path' hsome
      obtain rfl := Option.some.inj hsome
      exact ⟨id, rfl, hpath⟩
    · intro id' _ hnone
      cases hnone
    · intro saving hmem
      rcases mem_append.mp hmem with hmem | hmem
      · exact h.saved saving hmem
      · cases mem_singleton.mp hmem
        intro id' hid'
        obtain ⟨rfl, hsame⟩ := hkeeps hwrites id' hid'
        refine ⟨rfl, rfl, ?_⟩
        intro path' hpath'
        obtain rfl := hsame path' hpath'
        exact ⟨rfl, rfl⟩
  · exact h

theorem Named.save (h : Named s) (hsettled : Settled s disk) :
    Named (s.save disk).1 := by
  have hreconciled : Named (s.reconcile disk.now) :=
    h.congr rfl rfl rfl rfl rfl rfl fun _ hmem => hmem
  simp only [State.save]
  split
  · exact hreconciled
  · rename_i hmessages
    split
    · rename_i id path hid hpath
      refine hreconciled.write ?_ ?_
      · obtain ⟨id', hid', hnamed⟩ := hreconciled.followed path hpath
        cases hid.symm.trans hid'
        exact hnamed
      · intro _ id' hid'
        refine ⟨Option.some.inj (hid.symm.trans hid'), ?_⟩
        intro path' hpath'
        exact Option.some.inj (hpath.symm.trans hpath')
    · rename_i hnone
      refine hreconciled.write rfl ?_
      intro hwrites id hid
      -- an id without a file is not saved
      have hunfollowed : s.memory.currentConversationPath = none := by
        cases hpath : s.memory.currentConversationPath with
        | none => rfl
        | some path => exact absurd hpath (hnone id path hid)
      rcases hsettled (isSome_iff_exists.mpr ⟨id, hid⟩) hunfollowed with hempty | hfails
      · exact absurd (isEmpty_iff.mpr hempty) hmessages
      · rw [hfails] at hwrites
        cases hwrites

theorem Named.autosave (h : Named s) (hsettled : Settled s disk) :
    Named (s.autosave disk) := by
  simp only [State.autosave]
  split
  · have hsaved := h.save hsettled
    split
    · exact hsaved
    · exact hsaved.congr rfl rfl rfl rfl rfl rfl fun _ hmem => hmem
  · exact h

/-- A load is noted as it has returned. -/
theorem Named.noted_load {after : State Meta}
    {loaded : Bool} (hload : s.load encode metadata disk = (after, loaded)) (hafter : Named after) :
    Named (s.resume encode metadata disk) := by
  have hlog : ∀ (loading : Loading Meta) saving,
      .saved saving ∈ after.log ++ [.loaded loading] → .saved saving ∈ after.log := by
    intro loading saving hmem
    rcases mem_append.mp hmem with hmem | hmem
    · exact hmem
    · cases mem_singleton.mp hmem
  simp only [resume, hload]
  split
  · split
    · exact hafter.forget rfl rfl (fun _ hmem => hmem) rfl rfl rfl (hlog _)
    · exact hafter.congr rfl rfl rfl rfl rfl rfl (hlog _)
  · exact hafter.congr rfl rfl rfl rfl rfl rfl (hlog _)

/-- The conversation of the list is followed. -/
theorem Named.follow (h : Named s) (hlisted : metadata.filePath = pathOf metadata.id)
    (hid : t.memory.currentConversationId = some metadata.id)
    (hpath : t.memory.currentConversationPath = some metadata.filePath)
    (hconversations : t.resumeConversations = s.resumeConversations)
    (hfiles : ∀ path file other, t.files path = some file →
      file.content.metadata path = some other → path = pathOf other.id)
    (htodos : t.todos = s.todos) (hnoted : t.noted = s.noted) (hlog : t.log = s.log) : Named t := by
  refine ⟨hfiles, ?_, ?_, ?_, ?_, ?_⟩
  · rw [hconversations]
    exact h.listed
  · intro path hsome
    cases hpath.symm.trans hsome
    exact ⟨metadata.id, hid, hlisted⟩
  · rw [hnoted, htodos]
    exact h.noted
  · intro id _ hnone
    cases hpath.symm.trans hnone
  · rw [hlog]
    exact h.saved

theorem Named.resume (h : Named s)
    (hlisted : metadata.filePath = pathOf metadata.id) : Named (s.resume encode metadata disk) := by
  rcases load_cases encode s metadata disk with
    hload | ⟨file, messages, agentConversation, -, hfile, -, -, hload⟩
  · exact h.noted_load hload
  · by_cases hfork : s.isForkMode = true
    · rw [track, if_pos hfork] at hload
      exact Named.noted_load hload
        (h.forget rfl rfl (fun _ hmem => hmem) rfl rfl rfl fun _ hmem => hmem)
    · rw [track, if_neg hfork] at hload
      cases hcontent : file.content with
      | enhanced conversation =>
        simp only [hcontent] at hload
        by_cases hwrites : disk.writes = true
        · rw [if_pos hwrites] at hload
          refine Named.noted_load hload (h.follow hlisted rfl rfl rfl ?_ rfl rfl rfl)
          intro path other metadata' hother hmetadata
          dsimp only at hother
          by_cases hsame : path = metadata.filePath
          · subst hsame
            rw [update_self] at hother
            cases hother
            cases hmetadata
            have hread : file.content.metadata metadata.filePath =
                some ⟨conversation.id, conversation.preview, metadata.filePath⟩ := by
              rw [hcontent]
              rfl
            exact h.files _ file _ hfile hread
          · rw [update_of_ne hsame] at hother
            exact h.files path other metadata' hother hmetadata
        · rw [if_neg hwrites] at hload
          exact Named.noted_load hload (h.congr rfl rfl rfl rfl rfl rfl fun _ hmem => hmem)
      | old conversation =>
        simp only [hcontent] at hload
        exact Named.noted_load hload (h.follow hlisted rfl rfl rfl h.files rfl rfl rfl)
      | other =>
        simp only [hcontent] at hload
        exact Named.noted_load hload (h.follow hlisted rfl rfl rfl h.files rfl rfl rfl)

theorem Named.loadPending (h : Named s) {saveDisk disk : Disk}
    (hsteady : Steady s (.load saveDisk disk)) : Named (s.loadPending encode saveDisk disk) := by
  simp only [State.loadPending]
  split
  · rename_i hpending
    have hready : Named { s with resumeLoadPending := false } :=
      h.congr rfl rfl rfl rfl rfl rfl fun _ hmem => hmem
    split
    · exact hready
    · rename_i metadata hmetadata
      have hsettled : Settled { s with resumeLoadPending := false } saveDisk :=
        hsteady hpending (isSome_iff_exists.mpr ⟨metadata, hmetadata⟩)
      exact (hready.autosave hsettled).resume (h.listed metadata (mem_of_getElem? hmetadata))
  · exact h

/-- A new id has no todos noted for it. -/
theorem Named.ensureConversationId (h : Named s) (hfresh : s.fresh disk = true) :
    Named (s.ensureConversationId disk) := by
  simp only [State.ensureConversationId]
  split
  · rename_i hnew
    have hnone : s.memory.currentConversationId = none := by
      rw [Bool.and_eq_true, isNone_iff_eq_none] at hnew
      exact hnew.1
    have hpath : s.memory.currentConversationPath = none := by
      cases hpath : s.memory.currentConversationPath with
      | none => rfl
      | some path =>
        obtain ⟨id, hid, -⟩ := h.followed path hpath
        cases hnone.symm.trans hid
    have hunnoted : s.noted (pathOf disk.uuid) = none := by
      cases hnoted : s.noted (pathOf disk.uuid) with
      | none => rfl
      | some todos =>
        simp only [State.fresh, h.noted disk.uuid todos hnoted, isNone_some,
          Bool.and_false, Bool.false_eq_true] at hfresh
    refine ⟨h.files, h.listed, ?_, h.noted, ?_, h.saved⟩
    · intro path hsome
      cases hpath.symm.trans hsome
    · intro id hid _
      cases hid
      exact hunnoted
  · exact h

theorem Named.saveTodos (h : Named s) (todos : String) (written : Bool) :
    Named (s.saveTodos todos written) := by
  simp only [State.saveTodos]
  split
  · exact h
  · rename_i id hid
    split
    · refine ⟨h.files, h.listed, h.followed, ?_, ?_, h.saved⟩
      · intro id' todos' hnoted
        dsimp only at hnoted ⊢
        cases hpath : s.memory.currentConversationPath with
        | none =>
          rw [hpath, elim_none] at hnoted
          have hne : id' ≠ id := by
            rintro rfl
            cases (h.unfollowed id' hid hpath).symm.trans hnoted
          rw [update_of_ne hne]
          exact h.noted id' todos' hnoted
        | some path =>
          rw [hpath, elim_some] at hnoted
          obtain ⟨id'', hid'', rfl⟩ := h.followed path hpath
          cases hid.symm.trans hid''
          by_cases hsame : id' = id
          · subst hsame
            rw [update_self] at hnoted ⊢
            exact hnoted
          · have hother : pathOf id' ≠ pathOf id := fun heq => hsame (pathOf_injective heq)
            rw [update_of_ne hother] at hnoted
            rw [update_of_ne hsame]
            exact h.noted id' todos' hnoted
      · intro id' hid' hpath
        dsimp only at hid' hpath ⊢
        rw [hpath, elim_none]
        exact h.unfollowed id' hid' hpath
    · exact h

theorem Named.list (h : Named s) {conversations : List ConversationMetadata} {fork : Bool}
    (hlists : s.lists conversations = true) :
    Named { s with resumeConversations := conversations, isForkMode := fork, resumeSelected := 0 } := by
  refine ⟨h.files, ?_, h.followed, h.noted, h.unfollowed, h.saved⟩
  intro metadata hmem
  have hshown := all_eq_true.mp hlists metadata hmem
  obtain ⟨file, hfile, hmetadata⟩ := bind_eq_some_iff.mp (beq_iff_eq.mp hshown)
  exact h.files _ file metadata hfile hmetadata

theorem Named.remove (h : Named s) (path : String) :
    Named { s with files := update s.files path none } := by
  refine ⟨?_, h.listed, h.followed, h.noted, h.unfollowed, h.saved⟩
  intro path' file metadata hfile hmetadata
  dsimp only at hfile
  by_cases hsame : path' = path
  · subst hsame
    rw [update_self] at hfile
    cases hfile
  · rw [update_of_ne hsame] at hfile
    exact h.files path' file metadata hfile hmetadata

theorem Named.press (h : Named s) (hpress : press s action = some t) :
    Named t := by
  cases action with
  | talk | think | clear | compact | choose | exit | tick =>
    cases hpress
    exact h.congr rfl rfl rfl rfl rfl rfl fun _ hmem => hmem
  | submit text disk =>
    simp only [Conversation.press] at hpress
    split at hpress
    · rename_i hfresh
      cases hpress
      exact (h.ensureConversationId hfresh).congr rfl rfl rfl rfl rfl rfl fun _ hmem => hmem
    · cases hpress
  | saveTodos todos written =>
    cases hpress
    exact h.saveTodos todos written
  | list conversations fork =>
    simp only [Conversation.press] at hpress
    split at hpress
    · rename_i hlists
      cases hpress
      exact h.list hlists
    · cases hpress
  | fork selected now =>
    obtain ⟨metadata, -, rfl⟩ := map_eq_some_iff.mp hpress
    exact h.congr rfl rfl rfl rfl rfl rfl fun _ hmem => hmem
  | delete selected removed =>
    obtain ⟨metadata, -, rfl⟩ := map_eq_some_iff.mp hpress
    split
    · exact h.remove metadata.filePath
    · exact h
  | load | save | restart => cases hpress

theorem Named.step (h : Named s) (hsteady : Steady s action)
    (hstep : step encode s action = some t) : Named t := by
  cases does_of_step hstep with
  | @load saveDisk disk =>
    have hloaded : Named (s.loadPending encode saveDisk disk) := h.loadPending hsteady
    exact hloaded.congr rfl rfl rfl rfl rfl rfl fun _ hmem => hmem
  | @save disk =>
    have hsaved : Named (s.saveIfPending disk) := by
      have hready : Named { s with savePending := false } :=
        h.congr rfl rfl rfl rfl rfl rfl fun _ hmem => hmem
      simp only [saveIfPending]
      split
      · rename_i hpending
        exact hready.save (hsteady hpending)
      · exact h
    exact hsaved.congr rfl rfl rfl rfl rfl rfl fun _ hmem => hmem
  | restart =>
    exact h.forget rfl rfl (fun _ hmem => by cases hmem) rfl rfl rfl fun _ hmem => hmem
  | press _ hpress => exact h.press hpress

/-- The id that is followed, with the path if there is one, and the summaries made since. -/
structure Follows (id : String) (start s : State Meta) : Prop where
  assigned : s.memory.currentConversationId = some id
  path : ∀ path, start.memory.currentConversationPath = some path →
    s.memory.currentConversationPath = some path
  history : ∀ entry ∈ s.compactionHistory, entry ∈ start.compactionHistory ∨ entry.id = some id

variable {id : String} {start : State Meta}

theorem Follows.congr (h : Follows id start s)
    (hid : t.memory.currentConversationId = s.memory.currentConversationId)
    (hpath : t.memory.currentConversationPath = s.memory.currentConversationPath)
    (hhistory : t.compactionHistory = s.compactionHistory) : Follows id start t := by
  refine ⟨hid.trans h.assigned, ?_, ?_⟩
  · intro path hsome
    exact hpath.trans (h.path path hsome)
  · rw [hhistory]
    exact h.history

theorem Follows.save (h : Follows id start s) (hsettled : Settled s disk) :
    Follows id start (s.save disk).1 := by
  have hreconciled : Follows id start (s.reconcile disk.now) := h.congr rfl rfl rfl
  simp only [State.save]
  split
  · exact hreconciled
  · rename_i hmessages
    split
    · rename_i id' path hid' hpath
      simp only [State.write]
      split
      · exact hreconciled.congr hid'.symm hpath.symm rfl
      · exact hreconciled
    · rename_i hnone
      have hunfollowed : s.memory.currentConversationPath = none := by
        cases hpath : s.memory.currentConversationPath with
        | none => rfl
        | some path => exact absurd hpath (hnone id path h.assigned)
      rcases hsettled (isSome_iff_exists.mpr ⟨id, h.assigned⟩) hunfollowed with hempty | hfails
      · exact absurd (isEmpty_iff.mpr hempty) hmessages
      · simp only [State.write, hfails, Bool.false_eq_true, if_false]
        exact hreconciled

theorem Follows.autosave (h : Follows id start s) (hsettled : Settled s disk) :
    Follows id start (s.autosave disk) := by
  simp only [State.autosave]
  split
  · have hsaved := h.save hsettled
    split
    · exact hsaved
    · exact hsaved.congr rfl rfl rfl
  · exact h

/-- A load that fails leaves the conversation that is followed. -/
theorem Follows.resume (h : Follows id start s) (hfails : (s.load encode metadata disk).2 = false) :
    Follows id start (s.resume encode metadata disk) := by
  have hkept : Follows id start (s.load encode metadata disk).1 := by
    rcases load_cases encode s metadata disk with
      hload | ⟨file, messages, agentConversation, -, -, -, -, hload⟩
    · rw [hload]
      exact h
    · by_cases hfork : s.isForkMode = true
      · rw [hload, State.track, if_pos hfork] at hfails
        cases hfails
      · rw [State.track, if_neg hfork] at hload
        cases hcontent : file.content with
        | enhanced conversation =>
          simp only [hcontent] at hload
          by_cases hwrites : disk.writes = true
          · rw [hload, if_pos hwrites] at hfails
            cases hfails
          · rw [hload, if_neg hwrites]
            exact h.congr rfl rfl rfl
        | old | other =>
          simp only [hcontent] at hload
          rw [hload] at hfails
          cases hfails
  obtain ⟨after, hload⟩ : ∃ after, s.load encode metadata disk = (after, false) :=
    ⟨_, Prod.ext rfl hfails⟩
  rw [hload] at hkept
  simp only [State.resume, hload, Bool.false_eq_true, if_false]
  exact hkept.congr rfl rfl rfl

theorem Follows.compact (h : Follows id start s) (summary : String) :
    Follows id start (s.compact summary) := by
  refine ⟨h.assigned, h.path, ?_⟩
  intro entry hmem
  have hgrown : entry ∈ s.compactionHistory ++ [⟨s.memory.currentConversationId, summary⟩] := by
    simp only [State.compact] at hmem
    split at hmem
    · exact mem_of_mem_tail hmem
    · exact hmem
  rcases mem_append.mp hgrown with hmem | hmem
  · exact h.history entry hmem
  · rw [mem_singleton.mp hmem]
    exact .inr h.assigned

theorem Follows.press (h : Follows id start s)
    (hpress : press s action = some t) : Follows id start t := by
  cases action with
  | talk | think | clear | choose | exit | tick =>
    cases hpress
    exact h.congr rfl rfl rfl
  | submit text disk =>
    simp only [Conversation.press] at hpress
    split at hpress
    · cases hpress
      have hsame : s.ensureConversationId disk = s := by
        simp only [ensureConversationId, h.assigned, isNone_some, Bool.false_and,
          Bool.false_eq_true, if_false]
      simp only [submit, hsame]
      exact h.congr rfl rfl rfl
    · cases hpress
  | saveTodos todos written =>
    cases hpress
    simp only [saveTodos, h.assigned]
    split
    · exact h.congr rfl rfl rfl
    · exact h
  | compact summary =>
    cases hpress
    exact h.compact summary
  | list conversations fork =>
    simp only [Conversation.press] at hpress
    split at hpress
    · cases hpress
      exact h.congr rfl rfl rfl
    · cases hpress
  | fork selected now =>
    obtain ⟨metadata, -, rfl⟩ := map_eq_some_iff.mp hpress
    exact h.congr rfl rfl rfl
  | delete selected removed =>
    obtain ⟨metadata, -, rfl⟩ := map_eq_some_iff.mp hpress
    split
    · exact h.congr rfl rfl rfl
    · exact h
  | load | save | restart => cases hpress

theorem Follows.step (h : Follows id start s)
    (hsteady : Steady s action) (hstays : Stays encode s action)
    (hstep : step encode s action = some t) : Follows id start t := by
  cases does_of_step hstep with
  | @load saveDisk disk =>
    have hkept : Follows id start (s.loadPending encode saveDisk disk) := by
      simp only [loadPending]
      split
      · rename_i hpending
        have hready : Follows id start { s with resumeLoadPending := false } := h.congr rfl rfl rfl
        split
        · exact hready
        · rename_i metadata hmetadata
          have hsettled : Settled { s with resumeLoadPending := false } saveDisk :=
            hsteady hpending (isSome_iff_exists.mpr ⟨metadata, hmetadata⟩)
          exact (hready.autosave hsettled).resume (hstays hpending metadata hmetadata)
      · exact h
    exact hkept.congr rfl rfl rfl
  | @save disk =>
    have hready : Follows id start { s with savePending := false } := h.congr rfl rfl rfl
    have hkept : Follows id start (s.saveIfPending disk) := by
      simp only [saveIfPending]
      split
      · rename_i hpending
        exact hready.save (hsteady hpending)
      · exact h
    exact hkept.congr rfl rfl rfl
  | restart => exact hstays.elim
  | press _ hpress => exact h.press hpress

end Operations

theorem named_new (directory : Directory Meta) (todos : String → Option String) :
    Named (.new directory.files todos) := by
  refine ⟨?_, ?_, ?_, ?_, ?_, ?_⟩
  · intro path file metadata hfile hmetadata
    obtain ⟨content, hcontent, rfl⟩ := map_eq_some_iff.mp hfile
    exact directory.named path content metadata hcontent hmetadata
  · intro metadata hmem
    cases hmem
  · intro path hpath
    cases hpath
  · intro id todos' hnoted
    cases hnoted
  · intro id hid
    cases hid
  · intro saving hmem
    cases hmem

/-- Where no conversation is saved that has an id but no file, each keeps the id that it has got. -/
theorem one_identity_of_steady {directory : Directory Meta} {todos : String → Option String}
    {actions : List (Action Meta)} {s : State Meta}
    (h : Steps (step encode) Steady (.new directory.files todos) actions s) :
    OneIdentity s ∧ ∀ more t id, Steps (step encode) (fun s a => Steady s a ∧ Stays encode s a) s more t →
      s.memory.currentConversationId = some id → Follows id s t := by
  constructor
  · have hnamed : Named s := h.invariant (fun _ _ _ hsteady hstep hs => hs.step hsteady hstep)
      (named_new directory todos)
    exact hnamed.oneIdentity
  · intro more t id hmore hid
    have hstart : Follows id s s := ⟨hid, fun _ hpath => hpath, fun _ hmem => .inl hmem⟩
    exact hmore.invariant (fun _ _ _ hkept hstep hs => hs.step hkept.1 hkept.2 hstep) hstart

def emptyDirectory : Directory Unit where
  files _ := none
  named path content metadata hfile := by cases hfile

/-- A message is submitted. -/
def begun : List (Action Unit) := [.submit "hello" (steady "a")]

def stored : List (Action Unit) :=
  [.exit, .tick, .load (steady "b") (steady "c"), .save (steady "d")]

/-- A command without a message is stored, and todos written for it. -/
theorem one_identity_command : ∃ s,
    run (step fun _ => "") (.new emptyDirectory.files fun _ => none)
      (.clear "/clear" :: stored ++ [.saveTodos "[]" true]) = some s ∧
      s.memory.currentConversationPath = some (pathOf "d") ∧ OneIdentity s := by
  have hsteady : ∃ s, Steps (step fun _ => "") Steady (.new emptyDirectory.files fun _ => none)
      (.clear "/clear" :: stored ++ [.saveTodos "[]" true]) s ∧
        s.memory.currentConversationPath = some (pathOf "d") := by
    refine ⟨_, .head trivial rfl (.head trivial rfl (.head trivial rfl (.head ?_ rfl (.head ?_ rfl
      (.head trivial rfl (.refl _)))))), rfl⟩
    · intro hpending
      cases hpending
    · intro _ hid
      cases hid
  obtain ⟨s, hs, hpath⟩ := hsteady
  exact ⟨s, hs.run_eq, hpath, (one_identity_of_steady hs).1⟩

/-- The id that was assigned when the message was submitted is not the one that is saved under. -/
theorem first_save_changes_id : ¬ ∀ actions more (s t : State Unit) id,
    run (step fun _ => "") (.new emptyDirectory.files fun _ => none) actions = some s →
      Steps (step fun _ => "") (Stays fun _ => "") s more t →
        s.memory.currentConversationId = some id → Follows id s t := by
  intro hall
  have hstored : ∃ t, Steps (step fun _ => "") (Stays fun _ => "")
      ((new emptyDirectory.files fun _ => none).submit "hello" (steady "a")) stored t ∧
        t.memory.currentConversationId = some "d" := by
    refine ⟨_, .head trivial rfl (.head trivial rfl (.head ?_ rfl (.head trivial rfl (.refl _)))), rfl⟩
    intro hpending
    cases hpending
  obtain ⟨t, hsteps, hid⟩ := hstored
  have hkept := (hall begun stored _ t "a" rfl hsteps rfl).assigned
  rw [hid] at hkept
  exact absurd hkept (by decide)

end ColossalCode.Conversation
