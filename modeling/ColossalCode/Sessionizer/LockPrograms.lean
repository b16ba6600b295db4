import ColossalCode.Locks.Threads
import ColossalCode.Sessionizer.Lifecycle

/-! The locks that the operations of the manager take. -/
namespace ColossalCode.Sessionizer

open Locks (Action within)

/-- The cells of a shell have locks of their own. -/
inductive Cell where
  | cwd
  | env
  | listeners
  | history
  | historyPosition
  deriving DecidableEq

inductive Lock where
  | sessions
  | persistentShellSessions
  | managedNuSessions
  | semanticSearchSessions
  | sessionMetadata
  | runtime (sessionId : SessionId)
  | shell (sessionId : SessionId) (cell : Cell)
  deriving DecidableEq

/-- A lock that is taken and given back. -/
def touch (lock : Lock) : List (Action Lock) := within lock []

/-- An operation, with what it meets on its way that the tables do not say. -/
inductive Operation where
  | saveSessionState (snapshots : SessionId → Except ColossalErr PersistentSessionState)
  | loadSessionState (states : List PersistentSessionState)
  | snapshotShellSession (sessionId : SessionId) (stops : Nat)
  | getSessionInfo (sessionId : SessionId)
  | listSessionsDetailed
  | cleanupTimedOutSessions
  | terminateSession (sessionId : SessionId)

def hasSession {α : Type} (table : List (SessionId × α)) (sessionId : SessionId) : Bool :=
  (findSession table sessionId).isSome

def metadataOf (m : SessionManager) (sessionId : SessionId) : Bool :=
  hasSession m.sessionMetadata sessionId

/-- The runtimes that are asked for their state: none after one that fails. -/
def asked (snapshots : SessionId → Except ColossalErr PersistentSessionState) :
    List SessionId → List SessionId
  | [] => []
  | sessionId :: sessionIds =>
    sessionId :: if (snapshots sessionId).isOk then asked snapshots sessionIds else []

/-- The table of managed runtimes is copied and given back at once. -/
def saveLocks (m : SessionManager)
    (snapshots : SessionId → Except ColossalErr PersistentSessionState) : List (Action Lock) :=
  within .persistentShellSessions (within .sessionMetadata
    (m.persistentShellSessions.flatMap fun entry =>
      touch (.shell entry.1 .env) ++ touch (.shell entry.1 .cwd))) ++
  touch .managedNuSessions ++
  within .sessionMetadata
    ((asked snapshots (m.managedNuSessions.map Prod.fst)).flatMap fun sessionId =>
      touch (.runtime sessionId))

def loadStateLocks (state : PersistentSessionState) : List (Action Lock) :=
  if isManagedNuShell state.shellPath then touch .managedNuSessions ++ touch .sessionMetadata
  else
    (state.envVars.flatMap fun _ =>
      touch (.shell state.sessionId .env) ++ touch (.shell state.sessionId .listeners)) ++
    touch (.shell state.sessionId .cwd) ++ touch (.shell state.sessionId .listeners) ++
    touch .persistentShellSessions ++ touch .sessionMetadata

/-- The command by which a shell is asked for its directory, a part for each time the table of
shells or metadata is looked at. -/
def execLocks (sessionId : SessionId) : List (List (Action Lock)) :=
  [touch .managedNuSessions, touch .persistentShellSessions, touch .persistentShellSessions,
    within .persistentShellSessions
      (within (.shell sessionId .history) (touch (.shell sessionId .historyPosition))),
    touch .persistentShellSessions, touch .persistentShellSessions, touch .sessionMetadata]

/-- A shell that is no managed runtime is asked by a command, which may stop on its way. -/
def snapshotLocks (m : SessionManager) (sessionId : SessionId) (stops : Nat) :
    List (Action Lock) :=
  within .sessionMetadata (touch .managedNuSessions) ++
  if hasSession m.managedNuSessions sessionId then touch (.runtime sessionId)
  else
    within .sessionMetadata (within .persistentShellSessions
      (if hasSession m.persistentShellSessions sessionId then touch (.shell sessionId .env)
        else [])) ++
    if hasSession m.persistentShellSessions sessionId then
      ((execLocks sessionId).take stops).flatten
    else []

/-- What is looked at in a table, and the tables after it if nothing is found there. -/
def lookup (lock : Lock) (found : Bool) (answer others : List (Action Lock)) : List (Action Lock) :=
  within lock (if found then answer else []) ++ if found then [] else others

def infoLocks (m : SessionManager) (sessionId : SessionId) : List (Action Lock) :=
  let noted := metadataOf m sessionId
  within .sessionMetadata
    (lookup .sessions (hasSession m.sessions sessionId && noted) []
      (lookup .persistentShellSessions (hasSession m.persistentShellSessions sessionId && noted)
        (touch (.shell sessionId .cwd))
        (lookup .managedNuSessions (hasSession m.managedNuSessions sessionId && noted)
          (touch (.runtime sessionId))
          (touch .semanticSearchSessions))))

def listLocks (m : SessionManager) : List (Action Lock) :=
  within .sessions (within .persistentShellSessions (within .semanticSearchSessions
    (within .sessionMetadata (within .managedNuSessions
      (((m.managedNuSessions.map Prod.fst).filter (metadataOf m)).flatMap fun sessionId =>
        touch (.runtime sessionId))))))

def terminateLocks (m : SessionManager) (sessionId : SessionId) : List (Action Lock) :=
  touch .sessions ++
  if hasSession m.sessions sessionId then []
  else touch .persistentShellSessions ++
    if hasSession m.persistentShellSessions sessionId then []
    else touch .managedNuSessions ++
      if hasSession m.managedNuSessions sessionId then [] else touch .semanticSearchSessions

/-- `is_session_timed_out` takes the lock that the search holds. -/
def cleanupLocks (m : SessionManager) (timedOut : List SessionId) : List (Action Lock) :=
  within .sessionMetadata (m.sessionMetadata.flatMap fun _ => touch .sessionMetadata) ++
  timedOut.flatMap (terminateLocks m)

/-- What an operation takes that finds the tables of `m`. -/
def Operation.locks (host : Host) (m : SessionManager) : Operation → List (Action Lock)
  | .saveSessionState snapshots => saveLocks m snapshots
  | .loadSessionState states => states.flatMap loadStateLocks
  | .snapshotShellSession sessionId stops => snapshotLocks m sessionId stops
  | .getSessionInfo sessionId => infoLocks m sessionId
  | .listSessionsDetailed => listLocks m
  | .cleanupTimedOutSessions =>
    cleanupLocks m ((m.sessionMetadata.map Prod.fst).filter (isSessionTimedOut host m))
  | .terminateSession sessionId => terminateLocks m sessionId

end ColossalCode.Sessionizer
