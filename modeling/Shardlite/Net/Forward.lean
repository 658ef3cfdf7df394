/-
  Shardlite.Net.Forward

  Sending a request to the node that owns the shard.  A request is sent on the cached
  connection to the owner, if there is one, and sent again on a new connection when that
  failed.  The client returns an error both for a link that failed and for an answer that
  is an error, and neither says that the owner did not carry the request out.

  A call is judged by how often the owner carried its request out.  What the network and
  the owner do with each of the two sends is an argument.
-/
import Shardlite.Lib.OrdMap
import Shardlite.Base

namespace Shardlite.Net

/-- The owner's answer, with what it carries for a request that was served. -/
inductive Response (A : Type) where
  | served (answer : A)
  | error (message : String) (retryable : Bool)
  deriving DecidableEq, Repr

/-- A request as it travels: handled where it arrives, or refused. -/
inductive Forwarded (Q : Type) where
  | direct (request : Q)
  | routedDirect (routingEpoch : Nat) (request : Q)
  deriving DecidableEq, Repr

/-- What the owner's own handler makes of a request: whether it carries it out, and
    what it answers.  A write that is committed but not confirmed by a quorum is carried
    out and answered with an error. -/
structure Handling (A : Type) where
  carriedOut : Bool
  response : Response A
  deriving DecidableEq, Repr

/-- `handle` on a request that was forwarded, at a node whose catalog has committed the
    routing epoch `catalog`, if it has a catalog. -/
def handle {Q A : Type} (catalog : Option Nat) (handleLocal : Q → Handling A) :
    Forwarded Q → Handling A
  | .direct request => handleLocal request
  | .routedDirect routingEpoch request =>
    let current := catalog.getD routingEpoch
    if routingEpoch ≠ current then
      ⟨false, .error (s!"request was routed under epoch {routingEpoch}, but this node has " ++
        s!"committed epoch {current}; refresh routing and retry") true⟩
    else handleLocal request

/-! ## One send -/

/-- What becomes of a request that is sent on a connection. -/
inductive Delivery (Q A : Type) where
  /-- It never reaches the owner. -/
  | lost (failure : String)
  /-- The owner handles it, with this catalog; its answer is lost or too late. -/
  | unanswered (catalog : Option Nat) (handleLocal : Q → Handling A) (failure : String)
  | answered (catalog : Option Nat) (handleLocal : Q → Handling A)

inductive ForwardError where
  | noOwner (shard : String)
  | busy (message : String)
  | protocol (message : String)
  deriving DecidableEq, Repr

variable {Q A : Type}

/-- The owner handled the request, whether or not it was heard. -/
def Delivery.CarriesOut (request : Forwarded Q) : Delivery Q A → Prop
  | .lost _ => False
  | .unanswered catalog handleLocal _ => (handle catalog handleLocal request).carriedOut = true
  | .answered catalog handleLocal => (handle catalog handleLocal request).carriedOut = true

instance (request : Forwarded Q) : ∀ d : Delivery Q A, Decidable (d.CarriesOut request)
  | .lost _ => isFalse id
  | .unanswered _ _ _ => inferInstanceAs (Decidable (_ = _))
  | .answered _ _ => inferInstanceAs (Decidable (_ = _))

/-- An answer other than an error comes back. -/
def Delivery.Succeeds (request : Forwarded Q) : Delivery Q A → Prop
  | .answered catalog handleLocal =>
    ∃ answer, (handle catalog handleLocal request).response = .served answer
  | _ => False

/-- An error answer is an error to the client, as a failed link is. -/
def Response.result : Response A → Except ForwardError A
  | .served answer => .ok answer
  | .error message true => .error (.busy message)
  | .error message false => .error (.protocol message)

/-- `Client::round_trip`. -/
def roundTrip (request : Forwarded Q) : Delivery Q A → Except ForwardError A
  | .lost failure => .error (.protocol failure)
  | .unanswered _ _ failure => .error (.protocol failure)
  | .answered catalog handleLocal => (handle catalog handleLocal request).response.result

theorem Response.result_eq_ok {response : Response A} {answer : A} :
    response.result = .ok answer ↔ response = .served answer := by
  cases response with
  | served a => exact ⟨fun h => congrArg _ (Except.ok.inj h), fun h => congrArg result h⟩
  | error message retryable =>
    cases retryable <;> exact ⟨nofun, nofun⟩

theorem succeeds_iff {request : Forwarded Q} {d : Delivery Q A} :
    d.Succeeds request ↔ ∃ answer, roundTrip request d = .ok answer := by
  cases d with
  | lost failure
  | unanswered catalog handleLocal failure => exact ⟨False.elim, fun ⟨_, h⟩ => (by cases h)⟩
  | answered catalog handleLocal => exact exists_congr fun _ => Response.result_eq_ok.symm

/-! ## The router -/

/-- What a router reads of its node, its cached connections, and its counters. -/
structure Router where
  /-- The placement. -/
  owner : ShardId → Option NodeId
  peerAddr : NodeId → Option String
  catalogRoutingEpoch : Option Nat
  /-- Peers with a cached connection. -/
  links : OrdMap NodeId Unit
  forwarded : Nat := 0
  failed : Nat := 0

/-- What the network does during one call: with the send on the cached connection, and
    with the connection attempt and the send on the new one. -/
structure Weather (Q A : Type) where
  cached : Delivery Q A
  fresh : Except ForwardError (Delivery Q A)

structure Call (A : Type) where
  result : Except ForwardError A
  router : Router
  /-- How often the owner carried the request out. -/
  carriedOut : Nat

namespace Router

variable (r : Router)

/-- Wrapped so that the far side answers rather than forwarding again. -/
def wrap (request : Q) : Forwarded Q :=
  match r.catalogRoutingEpoch with
  | some routingEpoch => .routedDirect routingEpoch request
  | none => .direct request

def count (request : Forwarded Q) (d : Delivery Q A) : Nat := if d.CarriesOut request then 1 else 0

def park (owner : NodeId) : Router := { r with links := r.links.insert owner () }

def reconnect (owner : NodeId) (request : Forwarded Q) :
    Except ForwardError (Delivery Q A) → Call A
  | .ok d =>
    match roundTrip request d with
    | .ok answer => ⟨.ok answer, r.park owner, count request d⟩
    | .error e => ⟨.error e, { r with failed := r.failed + 1 }, count request d⟩
  | .error e => ⟨.error e, { r with failed := r.failed + 1 }, 0⟩

/-- The wrapped request on the cached connection first, which leaves the map meanwhile. -/
def send (owner : NodeId) (request : Forwarded Q) (weather : Weather Q A) : Call A :=
  let out := { r with links := r.links.erase owner }
  if r.links.contains owner then
    match roundTrip request weather.cached with
    | .ok answer => ⟨.ok answer, out.park owner, count request weather.cached⟩
    | .error _ =>
      let again := out.reconnect owner request weather.fresh
      { again with carriedOut := count request weather.cached + again.carriedOut }
  else out.reconnect owner request weather.fresh

/-- Send `request` to the node that owns `shard` and return its answer. -/
def forward (shard : ShardId) (request : Q) (weather : Weather Q A) : Call A :=
  match r.owner shard with
  | none => ⟨.error (.noOwner (shardName shard)), r, 0⟩
  | some owner =>
    match r.peerAddr owner with
    | none =>
      ⟨.error (.noOwner
          s!"{shardName shard} (owner is node {owner}, whose address is unknown)"),
        { r with failed := r.failed + 1 }, 0⟩
    | some _ =>
      ({ r with forwarded := r.forwarded + 1 } : Router).send owner (r.wrap request) weather

/-! ## How often a request is carried out -/

/-- The owner carries the request out on the cached connection, no answer other than an
    error comes back from it, and the owner carries it out again on the new one. -/
def Resent (shard : ShardId) (request : Q) (weather : Weather Q A) : Prop :=
  ∃ owner, r.owner shard = some owner ∧ (r.peerAddr owner).isSome = true ∧
    r.links.contains owner = true ∧
    weather.cached.CarriesOut (r.wrap request) ∧ ¬ weather.cached.Succeeds (r.wrap request) ∧
    ∃ d, weather.fresh = .ok d ∧ d.CarriesOut (r.wrap request)

theorem count_le_one (request : Forwarded Q) (d : Delivery Q A) : count request d ≤ 1 := by
  unfold count
  split_ifs <;> omega

theorem carriedOut_reconnect (owner : NodeId) (request : Forwarded Q)
    (fresh : Except ForwardError (Delivery Q A)) :
    (r.reconnect owner request fresh).carriedOut ≤ 1 ∧
      (1 ≤ (r.reconnect owner request fresh).carriedOut ↔
        ∃ d, fresh = .ok d ∧ d.CarriesOut request) := by
  cases fresh with
  | error e =>
    exact ⟨Nat.zero_le _, fun h => absurd h (Nat.not_succ_le_zero _), fun ⟨_, h, _⟩ => (by cases h)⟩
  | ok d =>
    have hcount : (r.reconnect owner request (.ok d)).carriedOut = count request d := by
      simp only [reconnect]
      split <;> rfl
    rw [hcount]
    refine ⟨count_le_one request d, ?_⟩
    unfold count
    split_ifs with hd
    · exact ⟨fun _ => ⟨d, rfl, hd⟩, fun _ => le_rfl⟩
    · refine ⟨fun h => absurd h (by omega), ?_⟩
      rintro ⟨d', heq, hd'⟩
      obtain rfl := Except.ok.inj heq
      exact absurd hd' hd

/-- The only way to a second execution is a first one that brought no answer. -/
theorem carriedOut_send (owner : NodeId) (request : Forwarded Q) (weather : Weather Q A) :
    (r.send owner request weather).carriedOut ≤ 1 ↔
      ¬ (r.links.contains owner = true ∧ weather.cached.CarriesOut request ∧
        ¬ weather.cached.Succeeds request ∧
        ∃ d, weather.fresh = .ok d ∧ d.CarriesOut request) := by
  obtain ⟨hle, hone⟩ := carriedOut_reconnect { r with links := r.links.erase owner } owner request
    weather.fresh
  unfold send
  by_cases hlink : r.links.contains owner = true
  · rw [if_pos hlink]
    rw [succeeds_iff]
    cases htrip : roundTrip request weather.cached with
    | ok answer =>
      exact ⟨fun _ h => h.2.2.1 ⟨answer, rfl⟩, fun _ => count_le_one request weather.cached⟩
    | error e =>
      show count request weather.cached + _ ≤ 1 ↔ _
      rw [← hone]
      unfold count
      split_ifs with hcached
      · constructor
        · intro h hall
          have := hall.2.2.2
          omega
        · intro h
          by_contra hgt
          exact h ⟨hlink, hcached, fun ⟨_, hok⟩ => (by cases hok), by omega⟩
      · exact ⟨fun _ h => hcached h.2.1, fun _ => by omega⟩
  · rw [if_neg hlink]
    exact ⟨fun _ h => hlink h.1, fun _ => hle⟩

/-- **When a forwarded request is carried out at most once.** -/
theorem forward_carried_out_once_iff (shard : ShardId) (request : Q) (weather : Weather Q A) :
    (r.forward shard request weather).carriedOut ≤ 1 ↔ ¬ r.Resent shard request weather := by
  unfold forward Resent
  cases howner : r.owner shard with
  | none => exact ⟨fun _ ⟨_, h, _⟩ => (by cases h), fun _ => Nat.zero_le _⟩
  | some owner =>
    simp only
    cases haddr : r.peerAddr owner with
    | none =>
      refine ⟨fun _ ⟨owner', h, haddr', _⟩ => ?_, fun _ => Nat.zero_le _⟩
      cases h
      rw [haddr] at haddr'
      cases haddr'
    | some addr =>
      refine (carriedOut_send _ owner (r.wrap request) weather).trans (not_congr ?_)
      constructor
      · exact fun ⟨hlink, hrest⟩ => ⟨owner, rfl, by rw [haddr]; rfl, hlink, hrest⟩
      · rintro ⟨owner', h, -, hlink, hrest⟩
        cases h
        exact ⟨hlink, hrest⟩

/-- Shard 0 is owned by node 2, to which a connection is cached. -/
def linked : Router where
  owner s := if s = 0 then some 2 else none
  peerAddr n := if n = 2 then some "b:1" else none
  catalogRoutingEpoch := none
  links := .ofList [(2, ())]

def committed (_ : String) : Handling Nat := ⟨true, .served 1⟩

/-- The owner commits the write, and cannot have it confirmed by a quorum. -/
def unconfirmed (_ : String) : Handling Nat := ⟨true, .error "not confirmed by a quorum" false⟩

theorem linked_carries_out_twice :
    (linked.forward 0 "UPDATE t SET n = n + 1"
        ⟨.unanswered none committed "timed out", .ok (.answered none committed)⟩).carriedOut = 2 ∧
      (linked.forward 0 "UPDATE t SET n = n + 1"
        ⟨.answered none unconfirmed, .ok (.answered none unconfirmed)⟩).carriedOut = 2 := by
  decide +kernel

end Router

end Shardlite.Net
