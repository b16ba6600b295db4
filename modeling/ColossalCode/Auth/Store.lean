import ColossalCode.Protocol.Text
import ColossalCode.Transition.Run
import Mathlib.Data.List.Sort

/-! The store of credentials: a file of connections, the keyring with their secrets, and the two
components that write them. Of a connection only what finds, sorts or authorises it is kept. -/
namespace ColossalCode.Auth

inductive SecretField where
  | apiKey
  | accessToken
  | refreshToken
  deriving DecidableEq

def secretFieldNames : List SecretField := [.apiKey, .accessToken, .refreshToken]

structure StoredConnection where
  id : String
  providerName : String
  secrets : SecretField → Option String

abbrev AuthStore := List StoredConnection

/-- `find(|entry| entry.id == id)` and a change of what it finds. -/
def modifyFirst (id : String) (change : StoredConnection → StoredConnection) :
    AuthStore → AuthStore
  | [] => []
  | c :: store => if c.id = id then change c :: store else c :: modifyFirst id change store

def upsertConnection (store : AuthStore) (connection : StoredConnection) : AuthStore :=
  if store.any fun existing => existing.id = connection.id then
    modifyFirst connection.id (fun _ => connection) store
  else (store ++ [connection]).insertionSort fun a b => a.providerName ≤ b.providerName

/-- The secret of the first connection with that id. -/
def secretOf (store : AuthStore) (id : String) (field : SecretField) : Option String :=
  (store.find? fun c => c.id = id).bind fun c => c.secrets field

abbrev Keyring := String → SecretField → Option String

/-- `value.filter(|value| !value.trim().is_empty())` -/
def present (value : Option String) : Option String :=
  value.filter fun value => !(Text.trim value).isEmpty

/-- A secret that is set in the keyring or deleted from it. -/
structure SecretWrite where
  id : String
  field : SecretField
  value : Option String

def persistConnectionSecret (keyring : Keyring) (write : SecretWrite) : Keyring :=
  fun id field => if id = write.id ∧ field = write.field then present write.value
    else keyring id field

/-- The writes of `persist_store_secrets` in their order. -/
def secretWrites (store : AuthStore) : List SecretWrite :=
  store.flatMap fun c => secretFieldNames.map fun field => ⟨c.id, field, c.secrets field⟩

/-- `reads` tells which entries of the keyring can be read. -/
def hydrate (keyring : Keyring) (reads : String → SecretField → Bool) (c : StoredConnection) :
    StoredConnection :=
  { c with
    secrets := fun field =>
      (if reads c.id field then present (keyring c.id field) else none).or (c.secrets field) }

def scrub (c : StoredConnection) : StoredConnection := { c with secrets := fun _ => none }

/-- The interface keeps the connections it has loaded in memory. What has been written last is noted
for each secret, whoever has written it. -/
structure State where
  file : Option AuthStore
  keyring : Keyring
  memory : AuthStore
  written : Keyring

/-- Before the first connection. -/
def fresh : State := ⟨none, fun _ _ => none, [], fun _ _ => none⟩

/-- A file that cannot be read or parsed is an empty store, as is no file. -/
inductive Action where
  | load (readable : Bool) (reads : String → SecretField → Bool)
  | save (connection : Option StoredConnection) (fails : Option Nat)
  | refresh (readable : Bool) (id accessToken refreshToken : String)

def loadAuthStore (s : State) (readable : Bool) (reads : String → SecretField → Bool) : AuthStore :=
  if readable then (s.file.getD []).map (hydrate s.keyring reads) else []

/-- What is saved: the connections in memory, with a new connection or with another model of one of
them. -/
def State.toSave (s : State) (connection : Option StoredConnection) : AuthStore :=
  match connection with
  | some connection => upsertConnection s.memory connection
  | none => s.memory

/-- A save that fails has done the keyring writes before the one that failed. -/
def saveAuthStore (s : State) (connection : Option StoredConnection) (fails : Option Nat) :
    Option State :=
  let store := s.toSave connection
  let writes := secretWrites store
  match fails with
  | none => some {
      file := some (store.map scrub)
      keyring := writes.foldl persistConnectionSecret s.keyring
      memory := store
      written := fun id field =>
        match connection with
        | some connection =>
          if id = connection.id then present (connection.secrets field) else s.written id field
        | none => s.written id field }
  | some n =>
    if n < writes.length then
      some { s with keyring := (writes.take n).foldl persistConnectionSecret s.keyring }
    else none

/-- The tokens of a refresh. -/
def refreshed (accessToken refreshToken : String) (secrets : SecretField → Option String) :
    SecretField → Option String
  | .accessToken => some accessToken
  | .refreshToken => some refreshToken
  | .apiKey => secrets .apiKey

def persistRefreshedTokens (s : State) (readable : Bool) (id accessToken refreshToken : String) :
    State :=
  match s.file with
  | none => s
  | some store =>
    if readable && store.any fun c => c.id = id then
      { s with
        file := some (modifyFirst id
          (fun c => { c with secrets := refreshed accessToken refreshToken c.secrets }) store)
        written := fun other => if other = id then refreshed accessToken refreshToken (s.written id)
          else s.written other }
    else s

def step (s : State) : Action → Option State
  | .load readable reads => some { s with memory := loadAuthStore s readable reads }
  | .save connection fails => saveAuthStore s connection fails
  | .refresh readable id accessToken refreshToken =>
    some (persistRefreshedTokens s readable id accessToken refreshToken)

/-- What a load returns that can read the file and the keyring. -/
def State.stored (s : State) : AuthStore := loadAuthStore s true fun _ _ => true

def State.plaintext (s : State) : AuthStore := s.file.getD []

/-- What is stored has been written last, and what the keyring holds is not in the file. -/
structure Sound (s : State) : Prop where
  returned : ∀ id field, secretOf s.stored id field = s.written id field
  hidden : ∀ id field, (s.keyring id field).isSome = true → secretOf s.plaintext id field = none

/-- A save has in memory what is stored of the connections it does not set, and where it fails it has
changed no secret that is stored; a refresh is of tokens that are not in the keyring. -/
def Keeps (s : State) : Action → Prop
  | .load .. => True
  | .save connection none => ∀ id, (∀ c, connection = some c → c.id ≠ id) →
      ∀ field, present (secretOf s.memory id field) = secretOf s.stored id field
  | .save connection (some n) => ∀ write ∈ (secretWrites (s.toSave connection)).take n,
      write.id ∈ s.plaintext.map StoredConnection.id →
        present write.value = s.keyring write.id write.field
  | .refresh readable id .. => readable = true → id ∈ s.plaintext.map StoredConnection.id →
      s.keyring id .accessToken = none ∧ s.keyring id .refreshToken = none

end ColossalCode.Auth
