/-
  Shardlite.Net.Auth

  Who may connect, and what each request demands of the connection that makes it.  The
  server keeps a key for each user and sends a fresh nonce to each connection; a client
  proves that it holds the key with the keyed hash of the nonce.

  The keyed hash is outside this repository and is a parameter.
-/
import Shardlite.Storage.Statement
import Shardlite.Net.Forward

namespace Shardlite.Net

open Storage

abbrev Bytes32 := Vector UInt8 32

/-! ## Roles -/

inductive Role where
  | read
  | write
  | admin
  | cluster
  deriving DecidableEq, Repr

/-- What a request demands of the connection making it. -/
inductive Requirement where
  | handshake
  | read
  | write
  | admin
  | cluster
  deriving DecidableEq, Repr

/-- Reading, writing and administration are a ladder; the cluster role is not on it. -/
def Role.permits (role : Role) : Requirement → Bool
  | .handshake => true
  | .read => role = .read ∨ role = .write ∨ role = .admin
  | .write => role = .write ∨ role = .admin
  | .admin => role = .admin
  | .cluster => role = .cluster

def Role.toText : Role → String
  | .read => "read"
  | .write => "write"
  | .admin => "admin"
  | .cluster => "cluster"

def Requirement.debug : Requirement → String
  | .handshake => "Handshake"
  | .read => "Read"
  | .write => "Write"
  | .admin => "Admin"
  | .cluster => "Cluster"

/-! ## Requests -/

/-- A topology command; only the one that a bearer token admits is told apart. -/
inductive CatalogCommand where
  | joinWithToken (token : String) (node incarnation : Nat) (address : String)
  | other
  deriving DecidableEq, Repr

/-- A request, with the data that permissions and the user store read. -/
inductive Request where
  | hello (version : Nat)
  | joinWithToken (token : String) (node incarnation : Nat) (address : String)
  | query (shard : ShardId) (statement : Statement)
  | queryAll (statement : Statement)
  | run (statement : Statement)
  | shardBatch (shards : List ShardId) (statement : Statement) (write : Bool)
  | execute (shard : ShardId) (statements : List Statement)
  | executeAll (statement : Statement)
  | transaction (shard : ShardId) (statements : List Statement)
  | route (key : List UInt8)
  | info
  | subscribe (node : NodeId) (shard : ShardId)
  | snapshotBegin (shard : ShardId)
  | snapshotRead (shard : ShardId)
  | snapshotEnd (shard : ShardId)
  | splitImageInfo (operation : Nat)
  | splitImageRead (operation : Nat)
  | schemaApply (shard : ShardId) (ddl : Statement)
  | schemaVersions (shards : List ShardId)
  | direct (request : Request)
  | routedDirect (routingEpoch : Nat) (request : Request)
  | auth (name : String) (proof : Bytes32)
  | createUser (name : String) (key : Bytes32) (role : Role)
  | dropUser (name : String)
  | listUsers
  | vote
  | beat
  | catalogGet
  | catalogPrepare
  | catalogCommit
  | catalogCommand (command : CatalogCommand)
  | catalogInstall
  deriving DecidableEq, Repr

/-- `char::is_whitespace`: the characters with the Unicode property `White_Space`. -/
def isWhitespace (c : Char) : Bool :=
  let n := c.toNat
  (0x9 ≤ n ∧ n ≤ 0xD) ∨ n = 0x20 ∨ n = 0x85 ∨ n = 0xA0 ∨ n = 0x1680 ∨ (0x2000 ≤ n ∧ n ≤ 0x200A) ∨
    n = 0x2028 ∨ n = 0x2029 ∨ n = 0x202F ∨ n = 0x205F ∨ n = 0x3000

/-- The leading keyword in upper case.  It does not see past a leading comment. -/
def firstKeyword (sql : String) : String :=
  let rest := sql.toList.dropWhile isWhitespace
  let word := rest.takeWhile fun c => ¬ (isWhitespace c ∨ c = '(' ∨ c = ';')
  String.ofList (word.map Char.toUpper)

/-- A routed statement demands what its first word says. -/
def requiredToRun (keyword : String) : Requirement :=
  if keyword ∈ ["CREATE", "DROP", "ALTER"] then .admin
  else if keyword ∈ ["INSERT", "UPDATE", "DELETE", "REPLACE"] then .write
  else .read

def required : Request → Requirement
  | .hello _ | .auth _ _ | .joinWithToken _ _ _ _ => .handshake
  | .query _ _ | .queryAll _ | .route _ | .info => .read
  | .execute _ _ | .transaction _ _ => .write
  | .run statement => requiredToRun (firstKeyword statement.sql)
  | .executeAll _ | .schemaApply _ _ => .admin
  | .createUser _ _ _ | .dropUser _ | .listUsers => .admin
  | .subscribe _ _ | .snapshotBegin _ | .snapshotRead _ | .snapshotEnd _ => .cluster
  | .splitImageInfo _ | .splitImageRead _ => .cluster
  | .vote | .beat => .cluster
  | .catalogGet | .catalogPrepare | .catalogCommit | .catalogCommand _ | .catalogInstall => .cluster
  | .shardBatch _ _ _ | .schemaVersions _ | .direct _ | .routedDirect _ _ => .cluster

/-! ## The user store -/

inductive AuthError where
  | manifest (message : String)
  | protocol (message : String)
  deriving DecidableEq, Repr

def AuthError.toText : AuthError → String
  | .manifest message => message
  | .protocol message => s!"protocol: {message}"

structure User where
  key : Bytes32
  role : Role
  deriving DecidableEq, Repr

structure AuthConfig where
  users : OrdMap String User
  /-- What the users file holds; `none` for a store that is kept in memory only. -/
  file : Option (OrdMap String User)

namespace AuthConfig

variable (auth : AuthConfig) (failure : Option String)

/-- Empty means that authentication is not configured. -/
def isEmpty : Bool := auth.users.isEmpty

/-- Write the users to the file, if there is one.  A failure leaves the file as it was. -/
def save : AuthConfig × Except AuthError Unit :=
  match auth.file, failure with
  | none, _ => (auth, .ok ())
  | some _, none => ({ auth with file := some auth.users }, .ok ())
  | some _, some message => (auth, .error (.manifest message))

def create (name : String) (key : Bytes32) (role : Role) : AuthConfig × Except AuthError Unit :=
  if name.isEmpty ∨ name.toList.any isWhitespace then
    (auth, .error (.protocol "a user name must be non-empty and contain no whitespace"))
  else { auth with users := auth.users.insert name ⟨key, role⟩ }.save failure

/-- Whether the user existed.  The user is gone even if the file could not be written. -/
def dropUser (name : String) : AuthConfig × Except AuthError Bool :=
  if auth.users.contains name then
    let (auth, saved) := { auth with users := auth.users.erase name }.save failure
    (auth, saved.map fun _ => true)
  else (auth, .ok false)

def list : List (String × Role) :=
  auth.users.entries.map fun (name, user) => (name, user.role)

def verify (keyedHash : Bytes32 → Bytes32 → Bytes32) (auth : AuthConfig) (name : String)
    (nonce proof : Bytes32) : Option Role :=
  (auth.users.get? name).bind fun user =>
    if keyedHash user.key nonce = proof then some user.role else none

variable {auth : AuthConfig}

@[simp] theorem users_save (auth : AuthConfig) (failure : Option String) :
    (auth.save failure).1.users = auth.users := by
  unfold save
  split <;> rfl

theorem isEmpty_create (h : auth.isEmpty = false) (failure : Option String)
    (name : String) (key : Bytes32) (role : Role) :
    (auth.create failure name key role).1.isEmpty = false := by
  unfold create
  split_ifs
  · exact h
  · rw [isEmpty, users_save]
    exact OrdMap.isEmpty_insert ..

/-- Dropping a user leaves the store with one, unless it had no other. -/
theorem isEmpty_dropUser {name : String} (h : auth.isEmpty = false)
    (hother : auth.users.keys ≠ [name]) (failure : Option String) :
    (auth.dropUser failure name).1.isEmpty = false := by
  unfold dropUser
  split_ifs
  · show (save _ failure).1.isEmpty = false
    rw [isEmpty, users_save]
    exact OrdMap.isEmpty_erase h hother
  · exact h

end AuthConfig

end Shardlite.Net
