/-
  Shardlite.Net.ServeRead

  What a node does with a query on one shard.  A query that arrives from a client is
  answered here if the node's copy is good enough for the freshness asked for, and goes
  to the owner otherwise.  A query that was forwarded is answered where it arrives,
  whatever it asks for.
-/
import Shardlite.Base

namespace Shardlite.Net

/-- How fresh a read has to be. -/
inductive ReadConsistency where
  | stale
  | atLeastLsn (lsn : Nat)
  | linearizable
  deriving DecidableEq, Repr

/-- Who owns a shard's file on this node: SQLite, or the replication path. -/
inductive ShardMode where
  | led
  | followed
  deriving DecidableEq, Repr

inductive QueryRequest where
  | query (consistency : ReadConsistency)
  | direct (consistency : ReadConsistency)
  | routedDirect (routingEpoch : Nat) (consistency : ReadConsistency)
  deriving DecidableEq, Repr

def QueryRequest.consistency : QueryRequest → ReadConsistency
  | .query c | .direct c | .routedDirect _ c => c

structure ShardView where
  node : NodeId
  mode : ShardMode
  lastLsn : Nat
  /-- What the follower has applied, if there is one. -/
  applied : Option Nat
  /-- Whether requests can be forwarded. -/
  router : Bool
  /-- The owner by this node's map. -/
  owner : Option NodeId
  /-- The routing epoch the catalog has committed, if there is a catalog. -/
  catalog : Option Nat

inductive QueryStep where
  | handleLocal
  | forward
  | tooStale (got need : Nat)
  | refuse (message : String)
  deriving DecidableEq, Repr

namespace ShardView

variable (v : ShardView)

def localPosition : Nat :=
  match v.mode with
  | .led => v.lastLsn
  | .followed => v.applied.getD 0

/-- Whether this node may answer a read itself, given the freshness asked for. -/
def canServeRead (consistency : ReadConsistency) : Bool :=
  match v.mode with
  | .led => true
  | .followed =>
    -- having applied something is the evidence that a copy exists at all
    if v.localPosition = 0 then false
    else
      match consistency with
      | .linearizable => false
      | .stale => true
      | .atLeastLsn n => v.localPosition ≥ n

def isMine : Bool :=
  match v.owner with
  | some owner => owner = v.node
  | none => true

def handle : QueryRequest → QueryStep
  | .direct _ => .handleLocal
  | .routedDirect routingEpoch _ =>
    let current := v.catalog.getD routingEpoch
    if routingEpoch ≠ current then
      .refuse (s!"request was routed under epoch {routingEpoch}, but this node has " ++
        s!"committed epoch {current}; refresh routing and retry")
    else .handleLocal
  | .query consistency =>
    if v.canServeRead consistency then .handleLocal
    else if ¬ v.router then
      .tooStale v.localPosition (match consistency with | .atLeastLsn n => n | _ => 0)
    else if ¬ v.isMine then .forward
    else .handleLocal

/-- Whether a request that this node's copy is not good enough for is run here all the
    same: it was sent to this node, or the node counts itself the owner. -/
def bypasses : QueryRequest → Bool
  | .query _ => v.router && v.isMine
  | .direct _ | .routedDirect .. => true

variable {v}

/-- A query for the current state is run by the node whose SQLite owns the file, unless it
    bypasses that check. -/
theorem led_or_bypasses {request : QueryRequest} (h : v.handle request = .handleLocal)
    (hlin : request.consistency = .linearizable) : v.mode = .led ∨ v.bypasses request = true := by
  cases request with
  | direct | routedDirect => exact .inr rfl
  | query consistency =>
    obtain rfl : consistency = .linearizable := hlin
    unfold handle at h
    cases hmode : v.mode with
    | led => exact .inl rfl
    | followed =>
      have hnot : v.canServeRead .linearizable = false := by simp [canServeRead, hmode]
      simp only [hnot] at h
      right
      unfold bypasses
      cases hrouter : v.router with
      | false => simp [hrouter] at h
      | true =>
        cases hmine : v.isMine with
        | false => simp [hrouter, hmine] at h
        | true => rfl

end ShardView

end Shardlite.Net
