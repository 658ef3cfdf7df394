/-
  Shardlite.Net.Doorman

  The connections of a server, and which of their requests are handled.  Whether a
  connection is gated at all is decided when it is accepted, from the users that the store
  holds at that moment: with no user, authentication counts as not configured, and the
  connection is open for as long as it lasts.

  Users are created and dropped while the server runs.  Dropping the only one therefore
  opens the server to everyone who connects from then on.
-/
import Shardlite.Net.Auth
import Shardlite.Lib.Machine

namespace Shardlite.Net

def protocolVersion : Nat := 10

/-! ## Handling a request -/

/-- What a request that was served is answered with. -/
inductive Answer where
  | welcome (version shardCount : Nat) (epoch : Option Nat)
  | challenge (nonce : Bytes32)
  | ok
  | users (users : List (String × Role))
  /-- The answer to a request that neither the doorman nor the user store looks at. -/
  | data
  deriving DecidableEq, Repr

/-- What the rest of the node contributes to the handling of one request. -/
structure Env where
  /-- The random bytes, if there are any. -/
  nonce : Option Bytes32
  /-- Why the users file cannot be written. -/
  saveFailure : Option String
  /-- The routing epoch of the committed catalog, if there is a catalog. -/
  catalogEpoch : Option Nat
  shardCount : Nat
  epoch : Option Nat
  /-- How every other request is answered. -/
  other : Response Answer

def errorResponse {α : Type} (answer : α → Response Answer) : Except AuthError α → Response Answer
  | .ok a => answer a
  | .error e => .error e.toText false

/-- `handle_local`, as far as the user store is concerned. -/
def handleLocal (env : Env) (auth : Option AuthConfig) :
    Request → Option AuthConfig × Response Answer
  | .direct inner => handleLocal env auth inner
  | .routedDirect _ _ =>
    (auth, .error "a routed direct request must pass through the forwarding epoch check" true)
  | .auth _ _ => (auth, .error "authentication is not enabled on this server" false)
  | .createUser name key role =>
    match auth with
    | none => (none, .error ("authentication is not enabled on this server, so there are no users" ++
        "                           to manage") false)
    | some store =>
      -- credentials of machines are not created over the wire
      if role = .cluster then
        (auth, .error ("an admin may not create a cluster user; cluster credentials" ++
          "                                   are provisioned at deploy time, not over the wire") false)
      else
        let (store, result) := store.create env.saveFailure name key role
        (some store, errorResponse (fun _ => .served .ok) result)
  | .dropUser name =>
    match auth with
    | none => (none, .error "authentication is not enabled on this server" false)
    | some store =>
      let (store, result) := store.dropUser env.saveFailure name
      (some store, errorResponse (fun existed =>
        if existed then .served .ok else .error s!"no such user: {name}" false) result)
  | .listUsers =>
    match auth with
    | none => (none, .error "authentication is not enabled on this server" false)
    | some store => (auth, .served (.users store.list))
  | _ => (auth, env.other)

/-- `handle`: a forwarded request is handled here if it was routed under the epoch that this
    node has. -/
def handleRequest (env : Env) (auth : Option AuthConfig) :
    Request → Option AuthConfig × Response Answer
  | .routedDirect routingEpoch request =>
    let current := env.catalogEpoch.getD routingEpoch
    if routingEpoch ≠ current then
      (auth, .error (s!"request was routed under epoch {routingEpoch}, but this node has " ++
        s!"committed epoch {current}; refresh routing and retry") true)
    else handleLocal env auth request
  | request => handleLocal env auth request

/-! ## One connection -/

/-- Where a connection stands with the doorman. -/
inductive Gate where
  /-- No authentication configured when it was accepted. -/
  | open
  | fresh
  | challenged (nonce : Bytes32)
  | authed (role : Role)
  deriving DecidableEq, Repr

structure Conn where
  gate : Gate
  /-- History: the client has proved that it holds the key of a user. -/
  proved : Bool
  deriving DecidableEq, Repr

structure Served where
  /-- `none` once the connection is closed. -/
  conn : Option Conn
  auth : Option AuthConfig
  /-- `none` when it is closed without an answer. -/
  response : Option (Response Answer)
  /-- The request that was handed on to be handled. -/
  handled : Option Request

def accept (auth : Option AuthConfig) : Conn where
  gate := if auth.any fun store => ¬ store.isEmpty then .fresh else .open
  proved := false

section Serve

variable (keyedHash : Bytes32 → Bytes32 → Bytes32) (env : Env) (auth : Option AuthConfig)

/-- The request is handed on, and the connection stays. -/
def pass (conn : Conn) (req : Request) : Served :=
  let (auth, response) := handleRequest env auth req
  ⟨some conn, auth, some response, some req⟩

def refuse (conn : Conn) (message : String) : Served :=
  ⟨some conn, auth, some (.error message false), none⟩

/-- Only the greeting and the one-shot admission by token are accepted. -/
def serveFresh (conn : Conn) : Request → Served
  | .hello version =>
    if version ≠ protocolVersion then
      refuse auth conn (s!"protocol version {version} is not supported; " ++
        s!"this server speaks {protocolVersion}")
    else
      match env.nonce with
      | none => ⟨none, auth, none, none⟩
      | some nonce =>
        ⟨some { conn with gate := .challenged nonce }, auth, some (.served (.challenge nonce)), none⟩
  | .joinWithToken token node incarnation address =>
    let join := Request.catalogCommand (.joinWithToken token node incarnation address)
    let (auth, response) := handleRequest env auth join
    ⟨none, auth, some response, some join⟩
  | _ => refuse auth conn "authentication required"

/-- Only the proof is accepted, and a wrong one ends the connection.  The users asked are
    those of the moment. -/
def serveChallenged (conn : Conn) (nonce : Bytes32) : Request → Served
  | .auth name proof =>
    match auth.bind fun store => store.verify keyedHash name nonce proof with
    | some role =>
      ⟨some ⟨.authed role, true⟩, auth,
        some (.served (.welcome protocolVersion env.shardCount env.epoch)), none⟩
    | none => ⟨none, auth, some (.error "authentication failed" false), none⟩
  | _ => refuse auth conn "authentication required"

def serve (conn : Conn) (req : Request) : Served :=
  match conn.gate with
  | .open => pass env auth conn req
  | .authed role =>
    let need := required req
    if role.permits need then pass env auth conn req
    else refuse auth conn (s!"not permitted: this connection is authenticated with the " ++
      s!"{role.toText} role, and this request requires {need.debug}")
  | .fresh => serveFresh env auth conn req
  | .challenged nonce => serveChallenged keyedHash env auth conn nonce req

end Serve

/-! ## The server -/

/-- A request that was handled, and whether its connection had proved a key. -/
structure Handled where
  proved : Bool
  request : Request
  deriving DecidableEq, Repr

/-- The server: its users and its connections. -/
structure Server where
  auth : Option AuthConfig
  conns : OrdMap Nat Conn
  /-- History: the requests handled so far, the latest first. -/
  handled : List Handled

inductive ServerAct where
  | connect (conn : Nat)
  | request (conn : Nat) (env : Env) (req : Request)
  | disconnect (conn : Nat)
  /-- A request that comes in over the HTTP gateway or as JSON and that the gate there lets
      through. -/
  | elsewhere (env : Env) (req : Request)

namespace Server

def init (store : AuthConfig) : Server := ⟨some store, .empty, []⟩

def connect (w : Server) (c : Nat) : Server :=
  if w.conns.contains c then w else { w with conns := w.conns.insert c (accept w.auth) }

def disconnect (w : Server) (c : Nat) : Server := { w with conns := w.conns.erase c }

variable (keyedHash : Bytes32 → Bytes32 → Bytes32)

def request (w : Server) (c : Nat) (env : Env) (req : Request) : Server :=
  match w.conns.get? c with
  | none => w
  | some conn =>
    let served := serve keyedHash env w.auth conn req
    { auth := served.auth
      conns := match served.conn with
        | some conn => w.conns.insert c conn
        | none => w.conns.erase c
      handled := (served.handled.map fun r => ⟨conn.proved, r⟩).toList ++ w.handled }

def elsewhere (w : Server) (env : Env) (req : Request) : Server :=
  { w with auth := (handleRequest env w.auth req).1 }

def step (w : Server) : ServerAct → Server
  | .connect c => w.connect c
  | .request c env req => w.request keyedHash c env req
  | .disconnect c => w.disconnect c
  | .elsewhere env req => w.elsewhere env req

def runs (store : AuthConfig) (acts : List ServerAct) : Server :=
  Machine.run (step keyedHash) (init store) acts

end Server

/-! ## What must hold of a step -/

/-- The user that `handle_local` drops for the request. -/
def Request.dropsHere : Request → Option String
  | .direct inner => inner.dropsHere
  | .dropUser name => some name
  | _ => none

def Request.drops (env : Env) : Request → Option String
  | .routedDirect routingEpoch request =>
    if routingEpoch = env.catalogEpoch.getD routingEpoch then request.dropsHere else none
  | request => request.dropsHere

/-- Whether a connection in this state may ask for it. -/
def Gate.admits (req : Request) : Gate → Bool
  | .open => true
  | .authed role => role.permits (required req)
  | _ => false

namespace Server

/-- The user that the request drops, if it drops one, is not the only one. -/
def KeepsUser (w : Server) (env : Env) (req : Request) : Prop :=
  ∀ store ∈ w.auth, ∀ name ∈ req.drops env, store.users.keys ≠ [name]

instance (w : Server) (env : Env) (req : Request) : Decidable (w.KeepsUser env req) :=
  inferInstanceAs (Decidable (∀ store ∈ w.auth, _))

/-- A request that is let through drops only a user beside whom there is another. -/
def Guarded (w : Server) : ServerAct → Prop
  | .request c env req => ∀ conn ∈ w.conns.get? c, conn.gate.admits req = true → w.KeepsUser env req
  | .elsewhere env req => w.KeepsUser env req
  | _ => True

instance (w : Server) (a : ServerAct) : Decidable (w.Guarded a) := by
  unfold Guarded
  split <;> infer_instance

end Server

/-! ## The user store keeps a user -/

def HasUser (auth : Option AuthConfig) : Prop := ∃ store, auth = some store ∧ store.isEmpty = false

section Handling

variable {env : Env} {auth : Option AuthConfig}

theorem HasUser.handleLocal (h : HasUser auth) (req : Request)
    (hdrop : ∀ store ∈ auth, ∀ name ∈ req.dropsHere, store.users.keys ≠ [name]) :
    HasUser (handleLocal env auth req).1 := by
  obtain ⟨store, rfl, hne⟩ := h
  -- a forwarded request is unwrapped until it is one of the others
  induction req with
  | direct inner ih => exact ih hdrop
  | createUser name key role =>
    simp only [Net.handleLocal]
    split_ifs
    · exact ⟨store, rfl, hne⟩
    · exact ⟨_, rfl, AuthConfig.isEmpty_create hne ..⟩
  | dropUser name =>
    exact ⟨_, rfl, AuthConfig.isEmpty_dropUser hne (hdrop store rfl name rfl) _⟩
  | _ => exact ⟨store, rfl, hne⟩

theorem HasUser.handleRequest (h : HasUser auth) (req : Request)
    (hdrop : ∀ store ∈ auth, ∀ name ∈ req.drops env, store.users.keys ≠ [name]) :
    HasUser (handleRequest env auth req).1 := by
  cases req with
  | routedDirect routingEpoch inner =>
    simp only [Net.handleRequest]
    split_ifs with hepoch
    · exact h
    · refine h.handleLocal inner fun store hs name hname => hdrop store hs name ?_
      rw [Request.drops, if_pos (by simpa using hepoch)]
      exact hname
  | _ => exact h.handleLocal _ hdrop

end Handling

/-! ## One request -/

/-- The connection is gated, and was let in on a proof only. -/
def Conn.Gated (conn : Conn) : Prop :=
  conn.gate ≠ .open ∧ ∀ role, conn.gate = .authed role → conn.proved = true

/-- A join that carries its own proof, a token. -/
def Request.isTokenJoin : Request → Bool
  | .catalogCommand (.joinWithToken _ _ _ _) => true
  | _ => false

theorem HasUser.accept_gated {auth : Option AuthConfig} (h : HasUser auth) :
    (accept auth).Gated := by
  obtain ⟨store, rfl, hne⟩ := h
  have hgate : (accept (some store)).gate = .fresh := by simp [accept, hne]
  rw [Conn.Gated, hgate]
  exact ⟨Gate.noConfusion, fun _ => Gate.noConfusion⟩

structure Served.Sound (conn : Conn) (served : Served) : Prop where
  auth : HasUser served.auth
  gated : ∀ conn' ∈ served.conn, conn'.Gated
  handled : ∀ req ∈ served.handled, conn.proved = true ∨ req.isTokenJoin = true

variable {req : Request}

section Serving

variable {keyedHash : Bytes32 → Bytes32 → Bytes32} {env : Env} {auth : Option AuthConfig} {conn : Conn}

section

variable (h : HasUser auth)

include h

section

variable (hconn : conn.Gated)

include hconn

theorem refuse_sound (message : String) :
    (refuse auth conn message).Sound conn where
  auth := h
  gated conn' hmem := by
    obtain rfl : conn = conn' := Option.some.inj hmem
    exact hconn
  handled := nofun

theorem pass_sound (hproved : conn.proved = true)
    (hdrop : ∀ store ∈ auth, ∀ name ∈ req.drops env, store.users.keys ≠ [name]) :
    (pass env auth conn req).Sound conn where
  auth := h.handleRequest req hdrop
  gated conn' hmem := by
    obtain rfl : conn = conn' := Option.some.inj hmem
    exact hconn
  handled _ _ := .inl hproved

theorem serveFresh_sound (req : Request) :
    (serveFresh env auth conn req).Sound conn := by
  cases req with
  | hello version =>
    simp only [serveFresh]
    split_ifs
    · exact refuse_sound h hconn _
    · split
      · exact ⟨h, nofun, nofun⟩
      · refine ⟨h, fun conn' hmem => ?_, nofun⟩
        cases hmem
        exact ⟨Gate.noConfusion, fun _ => Gate.noConfusion⟩
  | joinWithToken token node incarnation address =>
    let join := Request.catalogCommand (.joinWithToken token node incarnation address)
    have hauth : HasUser (handleRequest env auth join).1 :=
      h.handleRequest join fun _ _ _ hname => absurd hname (Option.not_mem_none _)
    refine ⟨hauth, nofun, fun req hmem => ?_⟩
    obtain rfl : join = req := Option.some.inj hmem
    exact .inr rfl
  | _ => exact refuse_sound h hconn _

theorem serveChallenged_sound (nonce : Bytes32)
    (req : Request) : (serveChallenged keyedHash env auth conn nonce req).Sound conn := by
  cases req with
  | auth name proof =>
    simp only [serveChallenged]
    split
    · refine ⟨h, fun conn' hmem => ?_, nofun⟩
      cases hmem
      exact ⟨Gate.noConfusion, fun _ _ => rfl⟩
    · exact ⟨h, nofun, nofun⟩
  | _ => exact refuse_sound h hconn _

theorem serve_sound (hdrop : conn.gate.admits req = true →
      ∀ store ∈ auth, ∀ name ∈ req.drops env, store.users.keys ≠ [name]) :
    (serve keyedHash env auth conn req).Sound conn := by
  unfold serve
  split
  · next hgate => exact absurd hgate hconn.1
  · next role hgate =>
      simp only
      split_ifs with hpermit
      · refine pass_sound h hconn (hconn.2 role hgate) (hdrop ?_)
        rw [hgate]
        exact hpermit
      · exact refuse_sound h hconn _
  · exact serveFresh_sound h hconn req
  · exact serveChallenged_sound h hconn _ req

end

end

end Serving

/-! ## Whole runs -/

namespace Server

structure Inv (w : Server) : Prop where
  users : HasUser w.auth
  gated : ∀ c conn, w.conns.get? c = some conn → conn.Gated
  handled : ∀ e ∈ w.handled, e.proved = true ∨ e.request.isTokenJoin = true

variable {keyedHash : Bytes32 → Bytes32 → Bytes32} {w : Server}

theorem Inv.connect (h : w.Inv) (c : Nat) : (w.connect c).Inv := by
  unfold Server.connect
  split_ifs
  · exact h
  · refine ⟨h.users, fun c' conn hconn => ?_, h.handled⟩
    rw [OrdMap.get?_insert] at hconn
    split_ifs at hconn
    · cases hconn
      exact h.users.accept_gated
    · exact h.gated c' conn hconn

theorem Inv.request (h : w.Inv) {c : Nat} {env : Env} (hg : w.Guarded (.request c env req)) :
    (w.request keyedHash c env req).Inv := by
  unfold Server.request
  split
  · exact h
  · next conn hconn =>
      have hsound : (serve keyedHash env w.auth conn req).Sound conn :=
        serve_sound h.users (h.gated c conn hconn) (hg conn hconn)
      refine ⟨hsound.auth, fun c' conn' hconn' => ?_, fun e he => ?_⟩
      · simp only at hconn'
        split at hconn'
        · next after hafter =>
            rw [OrdMap.get?_insert] at hconn'
            split_ifs at hconn'
            · cases hconn'
              exact hsound.gated _ hafter
            · exact h.gated c' conn' hconn'
        · exact h.gated c' conn' (OrdMap.get?_of_erase hconn')
      · rcases List.mem_append.1 he with he | he
        · obtain ⟨r, hr, rfl⟩ := Option.map_eq_some_iff.1 (Option.mem_toList.1 he)
          exact hsound.handled r hr
        · exact h.handled e he

theorem Inv.step (h : w.Inv) {a : ServerAct} (hg : w.Guarded a) : (w.step keyedHash a).Inv := by
  cases a with
  | connect c => exact h.connect c
  | request c env req => exact h.request hg
  | disconnect c =>
    exact ⟨h.users, fun c' conn hconn => h.gated c' conn (OrdMap.get?_of_erase hconn), h.handled⟩
  | elsewhere env req => exact ⟨h.users.handleRequest req hg, h.gated, h.handled⟩

theorem inv_init {store : AuthConfig} (hne : store.isEmpty = false) : (init store).Inv where
  users := ⟨store, rfl, hne⟩
  gated _ _ hconn := (Option.some_ne_none _ hconn.symm).elim
  handled _ he := (List.not_mem_nil he).elim

/-- **User management does not switch authentication off.**  In every run of a server that
    starts with a user, over all connections, requests and changes to the users, every
    request that was handled came from a connection that had proved a key, or was the
    admission of a node by token, if no request drops the only user. -/
theorem unproved_handles_token_join (store : AuthConfig) (hne : store.isEmpty = false)
    (acts : List ServerAct)
    (hg : Machine.Meets (step keyedHash) (fun w a => w.Guarded a) (init store) acts) :
    ∀ e ∈ (runs keyedHash store acts).handled, e.proved = true ∨ e.request.isTokenJoin = true := by
  have hinv : (runs keyedHash store acts).Inv :=
    Machine.invariant_run (step keyedHash) (fun w a hok h => h.step hok) (inv_init hne) hg
  exact hinv.handled

def key (byte : UInt8) : Bytes32 := Vector.replicate 32 byte

def onlyRoot : AuthConfig := ⟨OrdMap.empty.insert "root" ⟨key 1, .admin⟩, none⟩

def quiet : Env := ⟨some (key 7), none, none, 4, none, .served .data⟩

/-- The administrator connects and proves the key; here the keyed hash is the key. -/
def rootConnects : List ServerAct :=
  [.connect 0, .request 0 quiet (.hello protocolVersion), .request 0 quiet (.auth "root" (key 1))]

def managesUsers : List ServerAct :=
  rootConnects ++ [.request 0 quiet (.createUser "app" (key 2) .write),
    .request 0 quiet (.dropUser "root"), .connect 1,
    .request 1 quiet (.executeAll (.new "DROP TABLE t"))]

theorem managesUsers_gated :
    (∀ e ∈ (runs (fun k _ => k) onlyRoot managesUsers).handled,
        e.proved = true ∨ e.request.isTokenJoin = true) ∧
      (runs (fun k _ => k) onlyRoot managesUsers).handled.length = 2 :=
  ⟨unproved_handles_token_join onlyRoot (by decide +kernel) managesUsers (by decide +kernel),
    by decide +kernel⟩

/-- The administrator drops the only user, and the next connection is open. -/
def dropsOnlyUser : List ServerAct :=
  rootConnects ++ [.request 0 quiet (.dropUser "root"), .connect 1,
    .request 1 quiet (.executeAll (.new "DROP TABLE t"))]

theorem dropsOnlyUser_opens :
    onlyRoot.isEmpty = false ∧
      ∃ e ∈ (runs (fun k _ => k) onlyRoot dropsOnlyUser).handled,
        e.proved = false ∧ e.request.isTokenJoin = false := by
  decide +kernel

end Server

end Shardlite.Net
