import ColossalCode.Conversation.State

/-! Saving and loading keep conversations apart. -/
namespace ColossalCode.Conversation
open Function List Option State

open Transition

variable {Meta : Type*} {encode : List ConversationMessage → String}

/-- What a load leaves is the conversation that it is of. -/
def Memory.Follows (memory : Memory Meta) (metadata : ConversationMetadata) : Prop :=
  memory.currentConversationId = some metadata.id ∧
    memory.currentConversationPath = some metadata.filePath

/-- A transcript that was saved is restored, and a load that fails leaves all as it was, unless all is
of the conversation that is loaded. -/
structure Loading.Sound (loading : Loading Meta) : Prop where
  restored : loading.loaded = true → ∀ vectors, loading.written = some vectors →
    loading.after.vectors =
      if loading.fork then vectors.pushAgent (forkNotice loading.metadata) else vectors
  failed : loading.loaded = false →
    loading.after = loading.before ∨ loading.after.Follows loading.metadata

/-- A save replaces the transcript of no other conversation. -/
def Event.Sound : Event Meta → Prop
  | .saved saving => ∀ other, saving.replaced = some other → other = saving.origin
  | .loaded loading => loading.Sound

def Intact (s : State Meta) : Prop := ∀ event ∈ s.log, event.Sound

/-- A file that is loaded can be marked, or its conversation is at hand already. -/
def Spares (s : State Meta) (metadata : ConversationMetadata) (disk : Disk) : Prop :=
  ∀ file conversation, disk.reads = true → s.files metadata.filePath = some file →
    file.content = .enhanced conversation →
      (conversation.agentConversation.isSome = true → disk.restores = true) →
        disk.writes = true ∨ s.memory.Follows metadata

def Careful (s : State Meta) : Action Meta → Prop
  | .clear _ => ∀ path, s.memory.currentConversationPath = some path → s.files path = none
  | .load saveDisk disk => s.resumeLoadPending = true → s.isForkMode = false →
      ∀ metadata, s.resumeConversations[s.resumeSelected]? = some metadata →
        Spares ({ s with resumeLoadPending := false }.autosave saveDisk) metadata disk
  | _ => True

/-- The file that is saved to is of the conversation at hand, and what was saved can be read back. -/
structure Safe (s : State Meta) : Prop where
  tracked : ∀ path file, s.memory.currentConversationPath = some path → s.files path = some file →
    file.origin = s.origin
  written : ∀ path file vectors, s.files path = some file → file.written = some vectors →
    ∃ conversation, file.content = .enhanced conversation ∧
      Vectors.ofMessages conversation.uiMessages = vectors
  intact : Intact s

section Operations

variable {s t : State Meta}

theorem Safe.congr (h : Safe s)
    (hpath : t.memory.currentConversationPath = s.memory.currentConversationPath)
    (horigin : t.origin = s.origin) (hfiles : t.files = s.files) (hlog : t.log = s.log) : Safe t := by
  refine ⟨?_, ?_, ?_⟩
  · rw [hpath, horigin, hfiles]
    exact h.tracked
  · rw [hfiles]
    exact h.written
  · rw [Intact, hlog]
    exact h.intact

/-- Where nothing is followed any file may be there. -/
theorem Safe.forget (h : Safe s) (hpath : t.memory.currentConversationPath = none)
    (hfiles : t.files = s.files) (hlog : t.log = s.log) : Safe t := by
  refine ⟨?_, ?_, ?_⟩
  · intro path file hsome
    rw [hpath] at hsome
    cases hsome
  · rw [hfiles]
    exact h.written
  · rw [Intact, hlog]
    exact h.intact

theorem Intact.snoc (h : Intact s) {event : Event Meta} (hevent : event.Sound)
    (hlog : t.log = s.log ++ [event]) : Intact t := by
  intro other hmem
  rw [hlog] at hmem
  rcases mem_append.mp hmem with hmem | hmem
  · exact h other hmem
  · rw [mem_singleton.mp hmem]
    exact hevent

theorem Safe.remove (h : Safe s) (path : String) :
    Safe { s with files := update s.files path none } := by
  have hold : ∀ path' file, update s.files path none path' = some file →
      s.files path' = some file := by
    intro path' file hfile
    by_cases hsame : path' = path
    · subst hsame
      rw [update_self] at hfile
      cases hfile
    · rw [update_of_ne hsame] at hfile
      exact hfile
  refine ⟨?_, ?_, h.intact⟩
  · intro path' file hpath hfile
    exact h.tracked path' file hpath (hold path' file hfile)
  · intro path' file vectors hfile hwritten
    exact h.written path' file vectors (hold path' file hfile) hwritten

variable {disk : Disk} {metadata : ConversationMetadata}

theorem Safe.write (h : Safe s) {id path : String} {createdAt : Nat}
    {forkedFrom : Option String} {forkedAt : Option Nat} (hlevel : s.memory.vectors.Level)
    (hown : ∀ file, s.files path = some file → file.origin = s.origin) :
    Safe (s.write disk id path createdAt forkedFrom forkedAt).1 := by
  simp only [State.write]
  split
  · refine ⟨?_, ?_, ?_⟩
    · intro path' file hpath hfile
      obtain rfl := Option.some.inj hpath
      dsimp only at hfile
      rw [update_self] at hfile
      cases hfile
      rfl
    · intro path' file vectors hfile hwritten
      dsimp only at hfile
      by_cases hsame : path' = path
      · subst hsame
        rw [update_self] at hfile
        cases hfile
        cases hwritten
        exact ⟨_, rfl, Vectors.ofMessages_uiMessages hlevel disk.now⟩
      · rw [update_of_ne hsame] at hfile
        exact h.written path' file vectors hfile hwritten
    · refine h.intact.snoc ?_ rfl
      intro other hreplaced
      obtain ⟨file, hfile, rfl⟩ := map_eq_some_iff.mp hreplaced
      exact hown file hfile
  · exact h

theorem Safe.save (h : Safe s) (hfresh : s.files (pathOf disk.uuid) = none) :
    Safe (s.save disk).1 := by
  have hreconciled : Safe (s.reconcile disk.now) := h.congr rfl rfl rfl rfl
  have hlevel : (s.reconcile disk.now).memory.vectors.Level :=
    Vectors.level_reconcile s.memory.vectors disk.now
  have hnew : ∀ file, (s.reconcile disk.now).files (pathOf disk.uuid) = some file →
      file.origin = (s.reconcile disk.now).origin := by
    intro file hfile
    cases hfresh.symm.trans hfile
  simp only [State.save]
  split
  · exact hreconciled
  · split
    · rename_i id path _ hpath
      refine hreconciled.write hlevel ?_
      intro file hfile
      exact hreconciled.tracked path file hpath hfile
    · exact hreconciled.write hlevel hnew

theorem Safe.autosave (h : Safe s) (hfresh : s.files (pathOf disk.uuid) = none) :
    Safe (s.autosave disk) := by
  have hsaved := h.save hfresh
  simp only [State.autosave]
  split
  · split
    · exact hsaved
    · exact hsaved.congr rfl rfl rfl rfl
  · exact h

/-- A load is noted as it has returned. -/
theorem Safe.noted {after : State Meta} {loaded : Bool}
    (hload : s.load encode metadata disk = (after, loaded)) (hafter : Safe after)
    (hsound : Loading.Sound ⟨metadata, s.isForkMode, (s.files metadata.filePath).bind File.written,
      loaded, s.memory, after.memory⟩) : Safe (s.resume encode metadata disk) := by
  have hnoted : Safe { after with log := after.log ++ [.loaded ⟨metadata, s.isForkMode,
      (s.files metadata.filePath).bind File.written, loaded, s.memory, after.memory⟩] } := by
    refine ⟨hafter.tracked, hafter.written, hafter.intact.snoc ?_ rfl⟩
    exact hsound
  simp only [resume, hload]
  split
  · split
    · exact hnoted.forget rfl rfl rfl
    · exact hnoted
  · exact hnoted.congr rfl rfl rfl rfl

/-- The transcript that is restored is the one that was saved. -/
theorem Safe.restored (h : Safe s) {path : String} {file : File Meta} {vectors : Vectors Meta}
    {messages : List (SavedUIMessage Meta)} {agentConversation : Option String}
    (hfile : s.files path = some file)
    (hread : file.content.read encode = some (messages, agentConversation))
    (hwritten : (s.files path).bind File.written = some vectors) :
    Vectors.ofMessages messages = vectors := by
  rw [hfile, bind_some] at hwritten
  obtain ⟨conversation, hcontent, hvectors⟩ := h.written path file vectors hfile hwritten
  rw [hcontent] at hread
  cases hread
  exact hvectors

theorem Safe.resume (h : Safe s) (hspares : s.isForkMode = false → Spares s metadata disk) :
    Safe (s.resume encode metadata disk) := by
  rcases load_cases encode s metadata disk with
    hload | ⟨file, messages, agentConversation, hreads, hfile, hread, hrestores, hload⟩
  · refine Safe.noted hload h ⟨?_, fun _ => .inl rfl⟩
    intro hloaded
    cases hloaded
  · have hrestored : ∀ vectors, (s.files metadata.filePath).bind File.written = some vectors →
        Vectors.ofMessages messages = vectors := fun _ => h.restored hfile hread
    by_cases hfork : s.isForkMode = true
    · rw [track, if_pos hfork] at hload
      refine Safe.noted hload ⟨?_, h.written, h.intact⟩ ⟨?_, ?_⟩
      · intro path other hsome
        cases hsome
      · intro _ vectors hwritten
        rw [if_pos hfork, ← hrestored vectors hwritten]
        rfl
      · intro hnot
        cases hnot
    · rw [track, if_neg hfork] at hload
      have hplain : s.isForkMode = false := Bool.eq_false_iff.mpr hfork
      have hown : ∀ path other, some metadata.filePath = some path → s.files path = some other →
          other.origin = file.origin := by
        intro path other hpath hother
        obtain rfl := Option.some.inj hpath
        rw [hfile] at hother
        cases hother
        rfl
      have hkept : ∀ vectors, (s.files metadata.filePath).bind File.written = some vectors →
          Vectors.ofMessages messages =
            if s.isForkMode then vectors.pushAgent (forkNotice metadata) else vectors := by
        intro vectors hwritten
        rw [if_neg hfork]
        exact hrestored vectors hwritten
      cases hcontent : file.content with
      | enhanced conversation =>
        simp only [hcontent] at hload
        by_cases hwrites : disk.writes = true
        · rw [if_pos hwrites] at hload
          refine Safe.noted hload ⟨?_, ?_, h.intact⟩ ⟨fun _ => hkept, ?_⟩
          · intro path other hpath hother
            obtain rfl := Option.some.inj hpath
            dsimp only at hother
            rw [update_self] at hother
            cases hother
            rfl
          · intro path other vectors hother hwritten
            dsimp only at hother
            by_cases hsame : path = metadata.filePath
            · subst hsame
              rw [update_self] at hother
              cases hother
              obtain ⟨conversation', hcontent', hvectors⟩ := h.written _ file vectors hfile hwritten
              cases hcontent.symm.trans hcontent'
              exact ⟨_, rfl, hvectors⟩
            · rw [update_of_ne hsame] at hother
              exact h.written path other vectors hother hwritten
          · intro hnot
            cases hnot
        · rw [if_neg hwrites] at hload
          -- the file is not marked, so it is the one that is followed already
          have hrestored : conversation.agentConversation.isSome = true → disk.restores = true := by
            rw [hcontent] at hread
            cases hread
            exact hrestores
          rcases hspares hplain file conversation hreads hfile hcontent hrestored with hmarked | hfollows
          · exact absurd hmarked hwrites
          · refine Safe.noted hload ⟨?_, h.written, h.intact⟩ ⟨?_, fun _ => .inr hfollows⟩
            · intro path other hpath hother
              exact hown path other (hfollows.2.symm.trans hpath) hother
            · intro hloaded
              cases hloaded
      | old conversation =>
        simp only [hcontent] at hload
        refine Safe.noted hload ⟨hown, h.written, h.intact⟩ ⟨fun _ => hkept, ?_⟩
        intro hnot
        cases hnot
      | other =>
        rw [hcontent] at hread
        cases hread

theorem files_fresh (hfresh : s.fresh disk = true) :
    s.files (pathOf disk.uuid) = none := by
  simp only [fresh, Bool.and_eq_true, isNone_iff_eq_none] at hfresh
  exact hfresh.1.2

theorem isForkMode_save (s : State Meta) (disk : Disk) :
    (s.save disk).1.isForkMode = s.isForkMode := by
  have hwritten : ∀ (t : State Meta) id path createdAt forkedFrom forkedAt,
      (t.write disk id path createdAt forkedFrom forkedAt).1.isForkMode = t.isForkMode := by
    intro t id path createdAt forkedFrom forkedAt
    simp only [write]
    split <;> rfl
  simp only [save]
  split
  · rfl
  · split
    · exact hwritten _ _ _ _ _ _
    · exact hwritten _ _ _ _ _ _

theorem isForkMode_autosave (s : State Meta) (disk : Disk) :
    (s.autosave disk).isForkMode = s.isForkMode := by
  simp only [autosave]
  split
  · split
    · exact isForkMode_save s disk
    · exact isForkMode_save s disk
  · rfl

theorem Safe.loadPending (h : Safe s) {saveDisk disk : Disk} (hfresh : s.fresh saveDisk = true)
    (hcareful : Careful s (.load saveDisk disk)) : Safe (s.loadPending encode saveDisk disk) := by
  simp only [State.loadPending]
  split
  · rename_i hpending
    have hready : Safe { s with resumeLoadPending := false } := h.congr rfl rfl rfl rfl
    split
    · exact hready
    · rename_i metadata hmetadata
      have hsaved := hready.autosave (files_fresh hfresh)
      refine hsaved.resume ?_
      intro hplain
      have hsame := isForkMode_autosave { s with resumeLoadPending := false } saveDisk
      exact hcareful hpending (hsame.symm.trans hplain) metadata hmetadata
  · exact h

end Operations

variable {action : Action Meta}

theorem Safe.press {s t : State Meta} (h : Safe s)
    (hcareful : Careful s action) (hpress : press s action = some t) : Safe t := by
  cases action with
  | talk | think | compact | choose | exit | tick =>
    cases hpress
    exact h.congr rfl rfl rfl rfl
  | submit text disk =>
    simp only [Conversation.press] at hpress
    split at hpress
    · cases hpress
      have hensured : Safe (s.ensureConversationId disk) := by
        simp only [ensureConversationId]
        split
        · exact h.congr rfl rfl rfl rfl
        · exact h
      exact hensured.congr rfl rfl rfl rfl
    · cases hpress
  | clear command =>
    cases hpress
    refine ⟨?_, h.written, h.intact⟩
    intro path file hpath hfile
    cases (hcareful path hpath).symm.trans hfile
  | saveTodos todos written =>
    cases hpress
    simp only [saveTodos]
    split
    · exact h
    · split
      · exact h.congr rfl rfl rfl rfl
      · exact h
  | list conversations fork =>
    simp only [Conversation.press] at hpress
    split at hpress
    · cases hpress
      exact h.congr rfl rfl rfl rfl
    · cases hpress
  | fork selected now =>
    obtain ⟨metadata, -, rfl⟩ := map_eq_some_iff.mp hpress
    exact h.congr rfl rfl rfl rfl
  | delete selected removed =>
    obtain ⟨metadata, -, rfl⟩ := map_eq_some_iff.mp hpress
    split
    · exact h.remove metadata.filePath
    · exact h
  | load | save | restart => cases hpress

theorem Safe.step {s t : State Meta} (h : Safe s)
    (hcareful : Careful s action) (hstep : step encode s action = some t) : Safe t := by
  cases does_of_step hstep with
  | @load saveDisk disk _ hfresh =>
    have hloaded : Safe (s.loadPending encode saveDisk disk) := h.loadPending hfresh hcareful
    exact hloaded.congr rfl rfl rfl rfl
  | @save disk _ hfresh =>
    have hsaved : Safe (s.saveIfPending disk) := by
      have hready : Safe { s with savePending := false } := h.congr rfl rfl rfl rfl
      simp only [saveIfPending]
      split
      · exact hready.save (files_fresh hfresh)
      · exact h
    exact hsaved.congr rfl rfl rfl rfl
  | restart => exact h.forget rfl rfl rfl
  | press _ hpress => exact h.press hcareful hpress

theorem safe_new (files : String → Option (Content Meta)) (todos : String → Option String) :
    Safe (.new files todos) := by
  refine ⟨?_, ?_, ?_⟩
  · intro path file hpath
    cases hpath
  · intro path file vectors hfile hwritten
    obtain ⟨content, -, rfl⟩ := map_eq_some_iff.mp hfile
    cases hwritten
  · intro event hmem
    cases hmem

/-- A conversation that is found on disk. -/
def found : EnhancedSavedConversation Unit where
  id := "a"
  createdAt := 1
  updatedAt := 1
  messageCount := 1
  preview := "hello"
  uiMessages := [⟨"hello", .user, .sent, 1, none⟩]
  agentConversation := none
  forkedFrom := none
  forkedAt := none

def onDisk (path : String) : Option (Content Unit) :=
  if path = "conversations/a.json" then some (.enhanced found) else none

def resumed : List (Action Unit) :=
  [.list [⟨"a", "hello", "conversations/a.json"⟩] false, .choose 0, .tick,
    .load (steady "b") (steady "c"), .save (steady "d")]

def closing : List (Action Unit) := [.exit, .tick, .load (steady "b") (steady "c"), .save (steady "d")]

end ColossalCode.Conversation
