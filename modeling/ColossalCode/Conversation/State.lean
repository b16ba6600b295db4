import ColossalCode.Conversation.Vectors
import ColossalCode.Transition.Run
import Mathlib.Logic.Function.Basic

/-! Conversations in memory and on disk: submitting, saving, loading, forking, clearing. -/
namespace ColossalCode.Conversation

variable {Meta : Type*}

structure EnhancedSavedConversation (Meta : Type*) where
  id : String
  createdAt : Nat
  updatedAt : Nat
  messageCount : Nat
  preview : String
  uiMessages : List (SavedUIMessage Meta)
  agentConversation : Option String
  forkedFrom : Option String
  forkedAt : Option Nat

structure ConversationMessage where
  role : String
  content : String

/-- The format of earlier versions. -/
structure SavedConversation where
  id : String
  createdAt : Nat
  preview : String
  messages : List ConversationMessage

/-- What a file is read as; what has been written in a format is read back as it was. -/
inductive Content (Meta : Type*) where
  | enhanced (conversation : EnhancedSavedConversation Meta)
  | old (conversation : SavedConversation)
  | other

/-- A conversation is one that is found on disk, or one that has been begun since. -/
inductive Origin where
  | found (path : String)
  | begun (number : Nat)
  deriving DecidableEq

/-- A file, whose conversation it holds, and the transcript that was saved to it. -/
structure File (Meta : Type*) where
  content : Content Meta
  origin : Origin
  written : Option (Vectors Meta)

structure ConversationMetadata where
  id : String
  preview : String
  filePath : String
  deriving DecidableEq

def Content.metadata (path : String) : Content Meta → Option ConversationMetadata
  | .enhanced conversation => some ⟨conversation.id, conversation.preview, path⟩
  | .old conversation => some ⟨conversation.id, conversation.preview, path⟩
  | .other => none

def File.enhanced (file : File Meta) : Option (EnhancedSavedConversation Meta) :=
  match file.content with
  | .enhanced conversation => some conversation
  | _ => none

def ConversationMessage.uiMessage (createdAt : Nat) (message : ConversationMessage) :
    SavedUIMessage Meta where
  content := message.content
  messageType := if message.role = "user" then .user else .agent
  messageState := .sent
  timestamp := createdAt
  metadata := none

/-- What is restored from a file; the messages of the old format are encoded anew. -/
def Content.read (encode : List ConversationMessage → String) :
    Content Meta → Option (List (SavedUIMessage Meta) × Option String)
  | .enhanced conversation => some (conversation.uiMessages, conversation.agentConversation)
  | .old conversation =>
    some (conversation.messages.map (·.uiMessage conversation.createdAt),
      some (encode conversation.messages))
  | .other => none

/-- The transcript, the context of the agent, and where the conversation is saved. -/
@[ext] structure Memory (Meta : Type*) where
  vectors : Vectors Meta
  context : Option String
  currentConversationId : Option String
  currentConversationPath : Option String

/-- A save, by the conversation that it writes, and the one that the file held. -/
structure Saving (Meta : Type*) where
  origin : Origin
  replaced : Option Origin
  id : String
  path : String
  before : Memory Meta
  after : Memory Meta

/-- A load, up to its return; it is of a file that some transcript may have been saved to. -/
structure Loading (Meta : Type*) where
  metadata : ConversationMetadata
  fork : Bool
  written : Option (Vectors Meta)
  loaded : Bool
  before : Memory Meta
  after : Memory Meta

inductive Event (Meta : Type*) where
  | saved (saving : Saving Meta)
  | loaded (loading : Loading Meta)

/-- A summary, with the id of the conversation that it was made in. -/
structure CompactionEntry where
  id : Option String
  summary : String
  deriving DecidableEq

/-- Keys come between the rounds, in each of which a load and then a save may be due. -/
inductive Stage where
  | keys
  | load
  | save
  deriving DecidableEq

/-- The origin of the transcript, the ids of the summaries, the todos noted for each file, and the log,
are nothing that the program keeps; the ids used are those handed out before. -/
structure State (Meta : Type*) where
  memory : Memory Meta
  origin : Origin
  begun : Nat
  isForkMode : Bool
  forkedFrom : Option String
  forkedAt : Option Nat
  savePending : Bool
  resumeLoadPending : Bool
  resumeSelected : Nat
  resumeConversations : List ConversationMetadata
  compactionHistory : List CompactionEntry
  files : String → Option (File Meta)
  todos : String → Option String
  noted : String → Option String
  used : List String
  stage : Stage
  log : List (Event Meta)

/-- What the system answers to an operation, and a new id should it need one. -/
structure Disk where
  reads : Bool
  writes : Bool
  restores : Bool
  now : Nat
  uuid : String
  error : String

/-- A system on which nothing fails. -/
def steady (uuid : String) : Disk := ⟨true, true, true, 2, uuid, ""⟩

def pathOf (id : String) : String := "conversations/" ++ id ++ ".json"

namespace State

def new (files : String → Option (Content Meta)) (todos : String → Option String) : State Meta where
  memory := ⟨.empty, none, none, none⟩
  origin := .begun 0
  begun := 1
  isForkMode := false
  forkedFrom := none
  forkedAt := none
  savePending := false
  resumeLoadPending := false
  resumeSelected := 0
  resumeConversations := []
  compactionHistory := []
  files path := (files path).map fun content => ⟨content, .found path, none⟩
  todos
  noted _ := none
  used := []
  stage := .keys
  log := []

/-- The part of `save_conversation` that writes the file. -/
def write (s : State Meta) (disk : Disk) (id path : String) (createdAt : Nat)
    (forkedFrom : Option String) (forkedAt : Option Nat) : State Meta × Bool :=
  let vectors := s.memory.vectors
  let conversation : EnhancedSavedConversation Meta :=
    { id, createdAt, forkedFrom, forkedAt
      updatedAt := disk.now
      messageCount := (vectors.uiMessages disk.now).length
      preview := vectors.preview
      uiMessages := vectors.uiMessages disk.now
      agentConversation := s.memory.context }
  let memory := { s.memory with
    currentConversationId := some id
    currentConversationPath := some path }
  if disk.writes then
    ({ s with
      memory
      files := Function.update s.files path (some ⟨.enhanced conversation, s.origin, some vectors⟩)
      used := id :: s.used
      log := s.log ++ [.saved ⟨s.origin, (s.files path).map File.origin, id, path, s.memory, memory⟩] },
      true)
  else (s, false)

def reconcile (s : State Meta) (now : Nat) : State Meta :=
  { s with memory := { s.memory with vectors := s.memory.vectors.reconcile now } }

/-- `save_conversation` -/
def save (s : State Meta) (disk : Disk) : State Meta × Bool :=
  let s := s.reconcile disk.now
  if s.memory.vectors.messages.isEmpty then (s, true)
  else match s.memory.currentConversationId, s.memory.currentConversationPath with
    | some id, some path =>
      let existing := if disk.reads then (s.files path).bind File.enhanced else none
      s.write disk id path (existing.elim disk.now (·.createdAt)) (existing.bind (·.forkedFrom))
        (existing.bind (·.forkedAt))
    | _, _ => s.write disk disk.uuid (pathOf disk.uuid) disk.now s.forkedFrom s.forkedAt

def pushAgent (s : State Meta) (text : String) : State Meta :=
  { s with memory := { s.memory with vectors := s.memory.vectors.pushAgent text } }

def forkNotice (metadata : ConversationMetadata) : String :=
  " ⎇ conversation forked from '" ++ metadata.preview ++ "'"

/-- Once the transcript is there, the file is marked and the conversation followed, or forked. -/
def track (s : State Meta) (metadata : ConversationMetadata) (file : File Meta) (disk : Disk) :
    State Meta × Bool :=
  let followed := { s with memory := { s.memory with
    currentConversationId := some metadata.id
    currentConversationPath := some metadata.filePath } }
  if s.isForkMode then
    ({ s.pushAgent (forkNotice metadata) with
      memory := { (s.pushAgent (forkNotice metadata)).memory with
        currentConversationId := none
        currentConversationPath := none }
      origin := .begun s.begun
      begun := s.begun + 1
      isForkMode := false
      savePending := true }, true)
  else match file.content with
    | .enhanced conversation =>
      let marked := { file with content := .enhanced { conversation with updatedAt := disk.now } }
      if disk.writes then
        ({ followed with files := Function.update s.files metadata.filePath (some marked) }, true)
      else (s, false)
    | _ => (followed, true)

/-- `load_conversation` -/
def load (encode : List ConversationMessage → String) (s : State Meta)
    (metadata : ConversationMetadata) (disk : Disk) : State Meta × Bool :=
  match if disk.reads then s.files metadata.filePath else none with
  | none => (s, false)
  | some file =>
    match file.content.read encode with
    | none => (s, false)
    | some (messages, agentConversation) =>
      if agentConversation.isSome && !disk.restores then (s, false)
      else
        { s with
          memory := { s.memory with
            vectors := .ofMessages messages
            context := agentConversation <|> s.memory.context }
          origin := file.origin }.track metadata file disk

/-- The conversation at hand is saved before another one is loaded. -/
def autosave (s : State Meta) (disk : Disk) : State Meta :=
  if s.memory.currentConversationId.isSome && !s.memory.vectors.messages.isEmpty then
    let (saved, done) := s.save disk
    if done then saved
    else saved.pushAgent (" ⎿ Warning: Failed to auto-save before resume: " ++ disk.error)
  else s

/-- The conversation that has been chosen is loaded, and the load noted. -/
def resume (encode : List ConversationMessage → String) (s : State Meta)
    (metadata : ConversationMetadata) (disk : Disk) : State Meta :=
  let (after, loaded) := s.load encode metadata disk
  let noted := { after with
    log := after.log ++ [.loaded ⟨metadata, s.isForkMode, (s.files metadata.filePath).bind File.written,
      loaded, s.memory, after.memory⟩] }
  if loaded then
    if s.isForkMode then
      { noted with memory := { noted.memory with
        currentConversationId := none
        currentConversationPath := none } }
    else noted
  else noted.pushAgent (" ⎿ Error loading conversation: " ++ disk.error)

/-- A load that is due. -/
def loadPending (encode : List ConversationMessage → String) (s : State Meta)
    (saveDisk disk : Disk) : State Meta :=
  if s.resumeLoadPending then
    let s := { s with resumeLoadPending := false }
    match s.resumeConversations[s.resumeSelected]? with
    | none => s
    | some metadata => (s.autosave saveDisk).resume encode metadata disk
  else s

/-- A save that is due. -/
def saveIfPending (s : State Meta) (disk : Disk) : State Meta :=
  if s.savePending then ({ s with savePending := false }.save disk).1 else s

def ensureConversationId (s : State Meta) (disk : Disk) : State Meta :=
  if s.memory.currentConversationId.isNone && disk.writes then
    { s with
      memory := { s.memory with currentConversationId := some disk.uuid }
      used := disk.uuid :: s.used }
  else s

def submit (s : State Meta) (text : String) (disk : Disk) : State Meta :=
  let s := s.ensureConversationId disk
  { s with memory := { s.memory with vectors := s.memory.vectors.submit text } }

/-- What is cleared was one conversation; what follows is another. -/
def clear (s : State Meta) (command : String) : State Meta :=
  { s with
    memory := { s.memory with vectors := s.memory.vectors.clear command }
    origin := .begun s.begun
    begun := s.begun + 1
    savePending := true }

def saveTodos (s : State Meta) (todos : String) (written : Bool) : State Meta :=
  match s.memory.currentConversationId with
  | none => s
  | some id =>
    if written then
      { s with
        todos := Function.update s.todos id (some todos)
        noted := s.memory.currentConversationPath.elim s.noted fun path =>
          Function.update s.noted path (some todos) }
    else s

/-- `load_todos`, without what it makes of the text. -/
def loadTodos (s : State Meta) : Option String := s.memory.currentConversationId.bind s.todos

/-- A summary is added to the history, which keeps the last ten. -/
def compact (s : State Meta) (summary : String) : State Meta :=
  let history := s.compactionHistory ++ [⟨s.memory.currentConversationId, summary⟩]
  { s with compactionHistory := if history.length > 10 then history.tail else history }

/-- What another process begins with. -/
def restart (s : State Meta) : State Meta :=
  { s with
    memory := ⟨.empty, none, none, none⟩
    origin := .begun s.begun
    begun := s.begun + 1
    isForkMode := false
    forkedFrom := none
    forkedAt := none
    savePending := false
    resumeLoadPending := false
    resumeSelected := 0
    resumeConversations := []
    compactionHistory := []
    stage := .keys }

/-- An id that nothing has had before. -/
def fresh (s : State Meta) (disk : Disk) : Bool :=
  !s.used.contains disk.uuid && (s.files (pathOf disk.uuid)).isNone && (s.todos disk.uuid).isNone

/-- Whether the list shows what is on disk. -/
def lists (s : State Meta) (conversations : List ConversationMetadata) : Bool :=
  conversations.all fun metadata =>
    (s.files metadata.filePath).bind (·.content.metadata metadata.filePath) == some metadata

end State

/-- A load goes as far as the transcript, or does nothing. -/
theorem load_cases (encode : List ConversationMessage → String) (s : State Meta)
    (metadata : ConversationMetadata) (disk : Disk) :
    s.load encode metadata disk = (s, false) ∨
      ∃ file messages agentConversation, disk.reads = true ∧
        s.files metadata.filePath = some file ∧
        file.content.read encode = some (messages, agentConversation) ∧
        (agentConversation.isSome = true → disk.restores = true) ∧
        s.load encode metadata disk = { s with
          memory := { s.memory with
            vectors := .ofMessages messages
            context := agentConversation <|> s.memory.context }
          origin := file.origin }.track metadata file disk := by
  by_cases hreads : disk.reads = true
  · cases hfile : s.files metadata.filePath with
    | none =>
      left
      simp only [State.load, if_pos hreads, hfile]
    | some file =>
      cases hread : file.content.read encode with
      | none =>
        left
        simp only [State.load, if_pos hreads, hfile, hread]
      | some restored =>
        obtain ⟨messages, agentConversation⟩ := restored
        by_cases hrestores : (agentConversation.isSome && !disk.restores) = true
        · left
          simp only [State.load, if_pos hreads, hfile, hread, if_pos hrestores]
        · right
          refine ⟨file, messages, agentConversation, hreads, rfl, hread, ?_, ?_⟩
          · intro hsome
            rw [hsome, Bool.true_and, Bool.not_eq_true', Bool.not_eq_false] at hrestores
            exact hrestores
          · simp only [State.load, if_pos hreads, hfile, hread, if_neg hrestores]
  · left
    simp only [State.load, if_neg hreads]

/-- Talking is all that else happens to the transcript of a conversation, thinking what happens to
the context of the agent. -/
inductive Action (Meta : Type*) where
  | talk (vectors : Vectors Meta)
  | think (context : Option String)
  | submit (text : String) (disk : Disk)
  | clear (command : String)
  | saveTodos (todos : String) (written : Bool)
  | compact (summary : String)
  | list (conversations : List ConversationMetadata) (fork : Bool)
  | choose (selected : Nat)
  | fork (selected : Nat) (now : Nat)
  | delete (selected : Nat) (removed : Bool)
  | exit
  | tick
  | load (saveDisk disk : Disk)
  | save (disk : Disk)
  | restart

def press (s : State Meta) : Action Meta → Option (State Meta)
  | .talk vectors => some { s with memory := { s.memory with vectors } }
  | .think context => some { s with memory := { s.memory with context } }
  | .submit text disk => if s.fresh disk then some (s.submit text disk) else none
  | .clear command => some (s.clear command)
  | .saveTodos todos written => some (s.saveTodos todos written)
  | .compact summary => some (s.compact summary)
  | .list conversations fork =>
    if s.lists conversations then
      some { s with
        resumeConversations := conversations
        isForkMode := fork
        resumeSelected := 0 }
    else none
  | .choose selected => some { s with resumeSelected := selected, resumeLoadPending := true }
  | .fork selected now =>
    (s.resumeConversations[selected]?).map fun metadata =>
      { s with
        resumeSelected := selected
        forkedFrom := some metadata.id
        forkedAt := some now
        isForkMode := true
        resumeLoadPending := true }
  | .delete selected removed =>
    (s.resumeConversations[selected]?).map fun metadata =>
      if removed then { s with files := Function.update s.files metadata.filePath none } else s
  | .exit => some { s with savePending := true }
  | .tick => some { s with stage := .load }
  | _ => none

def step (encode : List ConversationMessage → String) (s : State Meta) (action : Action Meta) :
    Option (State Meta) :=
  match s.stage, action with
  | .load, .load saveDisk disk =>
    if s.fresh saveDisk then some { s.loadPending encode saveDisk disk with stage := .save } else none
  | .save, .save disk =>
    if s.fresh disk then some { s.saveIfPending disk with stage := .keys } else none
  | _, .restart => some s.restart
  | .keys, action => press s action
  | _, _ => none

/-- What an action does, by the stage that it comes in. -/
inductive Does (encode : List ConversationMessage → String) (s : State Meta) :
    Action Meta → State Meta → Prop
  | load {saveDisk disk : Disk} (hstage : s.stage = .load) (hfresh : s.fresh saveDisk = true) :
      Does encode s (.load saveDisk disk)
        { s.loadPending encode saveDisk disk with stage := .save }
  | save {disk : Disk} (hstage : s.stage = .save) (hfresh : s.fresh disk = true) :
      Does encode s (.save disk) { s.saveIfPending disk with stage := .keys }
  | restart : Does encode s .restart s.restart
  | press {action : Action Meta} {t : State Meta} (hstage : s.stage = .keys)
      (hpress : press s action = some t) : Does encode s action t

theorem does_of_step {encode : List ConversationMessage → String} {s t : State Meta}
    {action : Action Meta} (h : step encode s action = some t) : Does encode s action t := by
  have hrestart : ∀ stage, s.stage = stage → action = .restart → Does encode s action t := by
    rintro stage hstage rfl
    cases stage <;> simp only [step, hstage] at h <;> cases h <;> exact .restart
  cases action with
  | restart => exact hrestart s.stage rfl rfl
  | load saveDisk disk =>
    cases hstage : s.stage with
    | load =>
      simp only [step, hstage] at h
      split at h
      · rename_i hfresh
        cases h
        exact .load hstage hfresh
      · cases h
    | keys | save =>
      simp only [step, hstage] at h
      cases h
  | save disk =>
    cases hstage : s.stage with
    | save =>
      simp only [step, hstage] at h
      split at h
      · rename_i hfresh
        cases h
        exact .save hstage hfresh
      · cases h
    | keys | load =>
      simp only [step, hstage] at h
      cases h
  | talk | think | submit | clear | saveTodos | compact | list | choose | fork | delete | exit | tick =>
    cases hstage : s.stage with
    | keys =>
      simp only [step, hstage] at h
      exact .press hstage h
    | load | save =>
      simp only [step, hstage] at h
      cases h

end ColossalCode.Conversation
