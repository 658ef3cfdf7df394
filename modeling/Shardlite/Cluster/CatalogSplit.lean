/-
  Shardlite.Cluster.CatalogSplit

  The catalog's side of growing by one shard: the next bucket of the linear routing is
  split in two on every node that holds a copy, and the routing with the new shard is
  published once all of them have both images.
-/
import Shardlite.Cluster.CatalogTransfer

namespace Shardlite.Cluster

open Shard

/-! ## Names -/

/-- `{:?}` of a routing. -/
def debugRouting : Routing → String
  | .moduloV1 r => s!"ModuloV1(ModuloV1 \x7b shard_count: {r.shardCount} \x7d)"
  | .linearV1 r =>
    s!"LinearV1(LinearV1 \x7b level: {r.level}, split_pointer: {r.splitPointer} \x7d)"

/-- `{:?}` of a list of nodes. -/
def debugNodes (nodes : List NodeId) : String :=
  "[" ++ String.intercalate ", " (nodes.map toString) ++ "]"

/-- `ShardConfig::MAX_SHARDS`. -/
def maxShards : Nat := 256

namespace Catalog

/-! ## Starting a split -/

variable (c : Catalog)

/-- Plan the split of the next bucket.  Every node with a copy of it takes part. -/
def startSplit : Except Error (Nat × Catalog) := do
  let .linearV1 current := c.routing
    | .error (.clusterConfig "online shard growth requires linear-v1 routing")
  refuseIf (current.shardCount ≥ maxShards)
    (.clusterConfig (s!"online shard growth reached the current {maxShards}-shard " ++
      "implementation limit"))
  refuseIf (c.operations.values.any fun op => op.kind = .split ∧ ¬ op.phase.terminal)
    (.clusterConfig "a logical split is already active; only one split may run cluster-wide")
  let source := current.splitSource
  let destination := current.splitDestination
  let placement ← okOr (c.placements.get? source)
    (.clusterConfig s!"{shardName source} has no committed placement to split")
  refuseIf (c.placements.contains destination)
    (.clusterConfig s!"split destination {shardName destination} already has a placement")
  let next ← current.grown
  let (id, started) ← c.startOperation .split (some source) (some placement.primary)
    (some placement.primary) (some placement.generation)
  let op ← expect (started.operations.get? id) "new split operation"
  return (id, started.setOperation id
    { op with
      routingBefore := some c.routing
      routingAfter := some (.linearV1 next)
      splitRequiredNodes := insert placement.primary placement.replicas.toFinset })

/-! ## Progress of a split -/

def beginSplitSnapshot (id : Nat) : Except Error Catalog :=
  c.transition id .split .planned .snapshotting

def prepareSplit (id : Nat) : Except Error Catalog :=
  c.transition id .split .catchingUp .prepared

def beginSplitFencing (id : Nat) : Except Error Catalog :=
  c.transition id .split .prepared .fencing

def beginSplitCleanup (id : Nat) : Except Error Catalog :=
  c.transition id .split .committed .cleaning

/-- Both shadow images hold the source up to `barrier`. -/
def splitSnapshotReady (id barrier : Nat) : Except Error Catalog := do
  let op ← c.operationIn id .split .snapshotting
  return c.setOperation id
    { op with snapshotLsn := some barrier, durableLsn := some barrier, phase := .catchingUp }

def recordSplitReplay (id sequence : Nat) : Except Error Catalog := do
  let op ← c.operationIn id .split .catchingUp
  refuseIf (sequence < op.durableLsn.getD 0)
    (.clusterConfig (s!"split operation {id} replay sequence regressed from " ++
      s!"{op.durableLsn.getD 0} to {sequence}"))
  return c.setOperation id { op with durableLsn := some sequence }

/-- The last sequence of the source, after its gate closed. -/
def splitFenced (id sequence : Nat) : Except Error Catalog := do
  let op ← c.operationIn id .split .fencing
  refuseIf (sequence < op.durableLsn.getD 0)
    (.clusterConfig (s!"split operation {id} final sequence {sequence} is behind replayed " ++
      toString (op.durableLsn.getD 0)))
  return c.setOperation id
    { op with finalLsn := some sequence, durableLsn := some sequence, phase := .installing }

def refuseStranger (op : CatalogOperation) (id : Nat) (node : NodeId) : Except Error Unit :=
  refuseIf (node ∉ op.splitRequiredNodes)
    (.clusterConfig s!"node {node} is not a required participant in split operation {id}")

def recordSplitInstalled (id : Nat) (node : NodeId) : Except Error Catalog := do
  let op ← c.operationIn id .split .installing
  refuseStranger op id node
  return c.setOperation id { op with splitInstalledNodes := insert node op.splitInstalledNodes }

def recordSplitCleaned (id : Nat) (node : NodeId) : Except Error Catalog := do
  let op ← c.operationIn id .split .cleaning
  refuseStranger op id node
  return c.setOperation id { op with splitCleanedNodes := insert node op.splitCleanedNodes }

/-- Publish the installed pair of images and the new routing in one catalog value. -/
def commitSplit (id : Nat) : Except Error Catalog := do
  let op ← c.operationIn id .split .installing
  let source ← expect op.shard "validated split source"
  let owner ← expect op.source "validated split owner"
  let generation ← expect op.expectedGeneration "validated split generation"
  let before ← expect op.routingBefore "validated old split routing"
  let after ← expect op.routingAfter "validated new split routing"
  refuseIf (op.finalLsn = none ∨ ∃ final ∈ op.finalLsn, ∀ durable ∈ op.durableLsn, durable < final)
    (.clusterConfig s!"split operation {id} has not durably replayed its final logical sequence")
  refuseIf (¬ op.splitRequiredNodes ⊆ op.splitInstalledNodes)
    (.clusterConfig (s!"split operation {id} cannot commit; nodes " ++
      debugNodes (op.splitRequiredNodes \ op.splitInstalledNodes).ascending ++
      " have not installed both split images"))
  refuseIf (c.routing ≠ before)
    (.clusterConfig (s!"split operation {id} expected routing {debugRouting before}, catalog has " ++
      debugRouting c.routing))
  let placement ← okOr (c.placements.get? source)
    (.clusterConfig s!"split operation {id} lost {shardName source} placement")
  refuseIf (placement.primary ≠ owner ∨ placement.generation ≠ generation)
    (.clusterConfig (s!"split operation {id} expected {shardName source} generation {generation} " ++
      s!"on node {owner}, catalog has generation {placement.generation} on node " ++
      toString placement.primary))
  let .linearV1 linear := before
    | .error (.panicked ("internal error: entered unreachable code: " ++
        "split routing validated as linear"))
  let routingEpoch ← okOr (checkedSucc c.routingEpoch) (.clusterConfig "routing epoch exhausted")
  return { c.setOperation id { op with phase := .committed } with
    placements := c.placements.insert linear.splitDestination
      { generation := 1
        primary := owner
        replicas := op.splitRequiredNodes.ascending.filter (· ≠ owner) }
    routing := after
    routingEpoch }

def completeSplit (id : Nat) : Except Error Catalog := do
  let op ← c.operationIn id .split .cleaning
  refuseIf (¬ op.splitRequiredNodes ⊆ op.splitCleanedNodes)
    (.clusterConfig (s!"split operation {id} cannot complete; nodes " ++
      debugNodes (op.splitRequiredNodes \ op.splitCleanedNodes).ascending ++
      " have not cleaned their split staging state"))
  c.transition id .split .cleaning .complete

end Catalog

/-! ## Commands -/

/-- The commands that a split's supervisors send. -/
inductive SplitProgress where
  | beginSnapshot
  | snapshotReady (barrier : Nat)
  | replay (sequence : Nat)
  | prepare
  | beginFencing
  | fenced (sequence : Nat)
  | replicaInstalled (node : NodeId)
  | commit
  | beginCleanup
  | replicaCleaned (node : NodeId)
  | complete
  | abort (reason : String)
  deriving DecidableEq, Repr

namespace SplitProgress

/-- `{:?}` of a command with one number. -/
def debugField (name field : String) (n : Nat) : String := s!"{name} \x7b {field}: {n} \x7d"

/-- `{:?}` of a command. -/
def debug : SplitProgress → String
  | .beginSnapshot => "BeginSnapshot"
  | .snapshotReady barrier => debugField "SnapshotReady" "barrier" barrier
  | .replay sequence => debugField "Replay" "sequence" sequence
  | .prepare => "Prepare"
  | .beginFencing => "BeginFencing"
  | .fenced sequence => debugField "Fenced" "sequence" sequence
  | .replicaInstalled node => debugField "ReplicaInstalled" "node" node
  | .commit => "Commit"
  | .beginCleanup => "BeginCleanup"
  | .replicaCleaned node => debugField "ReplicaCleaned" "node" node
  | .complete => "Complete"
  | .abort reason => s!"Abort \x7b reason: {reason.quote} \x7d"

def rank : OperationPhase → Nat
  | .planned => 0
  | .snapshotting => 1
  | .catchingUp => 2
  | .prepared => 3
  | .fencing => 4
  | .installing => 5
  | .committed => 6
  | .cleaning => 7
  | .complete => 8
  | .aborted => 9

def target : SplitProgress → OperationPhase
  | .beginSnapshot => .snapshotting
  | .snapshotReady _ | .replay _ => .catchingUp
  | .prepare => .prepared
  | .beginFencing => .fencing
  | .fenced _ | .replicaInstalled _ => .installing
  | .commit => .committed
  | .beginCleanup | .replicaCleaned _ => .cleaning
  | .complete => .complete
  | .abort _ => .aborted

def alreadyApplied (phase : OperationPhase) (progress : SplitProgress) : Bool :=
  if phase = .aborted then progress.target = .aborted
  else rank progress.target ≤ rank phase

end SplitProgress

/-- What a command does in the phase it is for. -/
def Catalog.progressSplit (c : Catalog) (id : Nat) (phase : OperationPhase) :
    SplitProgress → Option (Except Error Catalog)
  | .beginSnapshot => if phase = .planned then some (c.beginSplitSnapshot id) else none
  | .snapshotReady barrier =>
    if phase = .snapshotting then some (c.splitSnapshotReady id barrier) else none
  | .replay sequence =>
    if phase = .catchingUp then some (c.recordSplitReplay id sequence) else none
  | .prepare => if phase = .catchingUp then some (c.prepareSplit id) else none
  | .beginFencing => if phase = .prepared then some (c.beginSplitFencing id) else none
  | .fenced sequence => if phase = .fencing then some (c.splitFenced id sequence) else none
  | .replicaInstalled node =>
    if phase = .installing then some (c.recordSplitInstalled id node) else none
  | .commit => if phase = .installing then some (c.commitSplit id) else none
  | .beginCleanup => if phase = .committed then some (c.beginSplitCleanup id) else none
  | .replicaCleaned node =>
    if phase = .cleaning then some (c.recordSplitCleaned id node) else none
  | .complete => if phase = .cleaning then some (c.completeSplit id) else none
  | .abort reason => if phase.mayAbort then some (c.abortOperation id reason) else none

/-- Apply a split command; one that has already taken effect changes nothing. -/
def Catalog.applySplit (c : Catalog) (id : Nat) (progress : SplitProgress) :
    Except Error Catalog := do
  let op ← okOr (c.operations.get? id) (.clusterConfig s!"operation {id} does not exist")
  match c.progressSplit id op.phase progress with
  | some result => result
  | none =>
    if progress.alreadyApplied op.phase then return c
    else
      .error (.clusterConfig (s!"split operation {id} is in phase {op.phase.debug}; command " ++
        s!"{progress.debug} is stale or out of order"))

end Shardlite.Cluster
