/-
  Shardlite.Cluster.Catalog

  The cluster's metadata: identity, compatibility, routing, membership,
  placement and topology operations, with the check every stored or proposed
  value must pass.
-/
import Shardlite.Lib.OrdMap
import Shardlite.Shard.Routing

namespace Shardlite.Cluster

open Shardlite.Shard

/-! ## Failing early -/

/-- `if bad { return Err(err) }`. -/
def refuseIf (bad : Prop) [Decidable bad] (err : Error) : Except Error Unit :=
  if bad then .error err else .ok ()

/-- `value.ok_or(err)?`. -/
def okOr {α : Type} (value : Option α) (err : Error) : Except Error α :=
  match value with
  | some a => .ok a
  | none => .error err

variable {err : Error}

@[simp] theorem refuseIf_eq_ok {bad : Prop} [Decidable bad] {u : Unit} :
    refuseIf bad err = .ok u ↔ ¬ bad := by
  unfold refuseIf
  split_ifs with h <;> simp [h]

@[simp] theorem okOr_eq_ok {α : Type} {value : Option α} {a : α} :
    okOr value err = .ok a ↔ value = some a := by
  cases value <;> simp [okOr]

/-! ## Data -/

def catalogFormatVersion : Nat := 2

/-- `Display` of a 16-byte cluster id: two hex digits a byte. -/
def clusterIdName (id : Nat) : String :=
  let digits := Nat.toDigits 16 id
  String.ofList (List.replicate (32 - digits.length) '0' ++ digits)

/-- Values that must agree before byte-level replication is safe. -/
structure Compatibility where
  directoryFormat : Nat
  sqliteVersion : String
  pageSize : Nat
  routingScheme : String
  hashScheme : String
  deriving DecidableEq, Repr

/-- The first field on which two nodes disagree: its name and both values. -/
def Compatibility.mismatch (self candidate : Compatibility) : Option (String × String × String) :=
  if self.directoryFormat ≠ candidate.directoryFormat then
    some ("directory format", toString self.directoryFormat, toString candidate.directoryFormat)
  else if self.sqliteVersion ≠ candidate.sqliteVersion then
    some ("SQLite version", self.sqliteVersion, candidate.sqliteVersion)
  else if self.pageSize ≠ candidate.pageSize then
    some ("page size", toString self.pageSize, toString candidate.pageSize)
  else if self.routingScheme ≠ candidate.routingScheme then
    some ("routing scheme", self.routingScheme, candidate.routingScheme)
  else if self.hashScheme ≠ candidate.hashScheme then
    some ("hash scheme", self.hashScheme, candidate.hashScheme)
  else none

/-- A node that differs in any fixed property is refused before it receives data. -/
def Compatibility.check (self candidate : Compatibility) : Except Error Unit :=
  match self.mismatch candidate with
  | some (field, cluster, joining) =>
    .error (.clusterConfig (s!"joining node has incompatible {field}: cluster requires " ++
      s!"`{cluster}`, node has `{joining}`; refusing before it can receive data or own writes"))
  | none => .ok ()

/-- A learner holds no shards; only voters elect the coordinator. -/
inductive MemberRole where
  | learner
  | storage
  | voter
  deriving DecidableEq, Repr

/-- A cordoned or draining node receives no further shards. -/
inductive MemberState where
  | active
  | cordoned
  | draining
  deriving DecidableEq, Repr

/-- A node as the catalog knows it. -/
structure Member where
  node : NodeId
  incarnation : Nat
  address : String
  role : MemberRole
  state : MemberState
  capacityWeight : Nat
  failureDomain : Option String
  deriving DecidableEq, Repr

/-- Whether shards may be placed on the node. -/
def Member.mayReceivePlacement (m : Member) : Bool :=
  m.role ≠ .learner ∧ m.state = .active

/-- The role of a member once `new` are the voters. -/
def Member.settle (new : Finset NodeId) (m : Member) : Member :=
  if m.node ∈ new then { m with role := .voter }
  else if m.role = .voter then { m with role := .storage }
  else m

structure ScalingPolicy where
  splitLogMaxRows : Nat := 100000
  splitBackfillBatchRows : Nat := 2048
  maxSplitSourceBytes : Nat := 0
  maxTransferSourceBytes : Nat := 0
  maxConcurrentTopologyOperations : Nat := 1
  deriving DecidableEq, Repr

/-- The limits of a policy; only one topology operation at a time is supported. -/
def ScalingPolicy.validate (p : ScalingPolicy) : Except Error Unit := do
  refuseIf (p.splitLogMaxRows = 0) (.clusterConfig "split_log_max_rows must be at least one")
  refuseIf (p.splitBackfillBatchRows = 0)
    (.clusterConfig "split_backfill_batch_rows must be at least one")
  refuseIf (p.maxConcurrentTopologyOperations ≠ 1)
    (.clusterConfig "max_concurrent_topology_operations must remain 1 in this release")

/-- Where a shard's copies are; each new primary raises the generation. -/
structure ReplicaSet where
  generation : Nat
  primary : NodeId
  replicas : List NodeId
  deriving DecidableEq, Repr

/-- A joint configuration: while it lasts, both sets have to agree. -/
structure VoterTransition where
  old : Finset NodeId
  new : Finset NodeId
  deriving DecidableEq

inductive OperationKind where
  | join
  | transfer
  | split
  | drain
  | remove
  deriving DecidableEq, Repr

/-- How far an operation has come. -/
inductive OperationPhase where
  | planned
  | snapshotting
  | catchingUp
  | prepared
  | fencing
  | installing
  | committed
  | cleaning
  | complete
  | aborted
  deriving DecidableEq, Repr

namespace OperationPhase

/-- The operation is over. -/
def terminal : OperationPhase → Bool
  | .complete | .aborted => true
  | _ => false

def mayAbort : OperationPhase → Bool
  | .planned | .snapshotting | .catchingUp | .prepared => true
  | _ => false

end OperationPhase

/-- An operation with the evidence that its commands have recorded. -/
structure CatalogOperation where
  id : Nat
  kind : OperationKind
  phase : OperationPhase
  shard : Option ShardId
  source : Option NodeId
  destination : Option NodeId
  expectedGeneration : Option Nat
  /-- Physical stream identity copied to the destination. -/
  streamEpoch : Option Nat := none
  /-- LSN represented by the installed snapshot. -/
  snapshotLsn : Option Nat := none
  /-- Highest LSN the destination has confirmed durable. -/
  durableLsn : Option Nat := none
  /-- Source LSN after its write gate was fenced and its queue drained. -/
  finalLsn : Option Nat := none
  catalogVersion : Option Nat := none
  routingBefore : Option Routing := none
  routingAfter : Option Routing := none
  retainSourceReplica : Bool := false
  splitRequiredNodes : Finset NodeId := ∅
  splitInstalledNodes : Finset NodeId := ∅
  splitCleanedNodes : Finset NodeId := ∅
  createdVersion : Nat
  lastError : Option String := none
  deriving DecidableEq

/-- The cluster's shared description, changed one version at a time. -/
structure Catalog where
  formatVersion : Nat
  clusterId : Nat
  version : Nat
  routingEpoch : Nat
  compatibility : Compatibility
  routing : Routing
  scalingPolicy : ScalingPolicy
  members : OrdMap NodeId Member
  /-- Joint consensus while changing voters. -/
  voterTransition : Option VoterTransition
  placements : OrdMap ShardId ReplicaSet
  operations : OrdMap Nat CatalogOperation
  nextOperationId : Nat
  deriving DecidableEq

/-- One catalog value durably accepted by a voter but not yet committed; the
    election term is its ballot. -/
structure CatalogProposal where
  term : Nat
  expectedVersion : Nat
  catalog : Catalog
  deriving DecidableEq

namespace Catalog

/-- A cluster at its first version, with this routing and these members, and its shards on
    them.  The clusters of fixed members in this development are built from it. -/
def ofMembers (routing : LinearV1) (members : List (NodeId × Member))
    (placements : List (ShardId × ReplicaSet)) : Catalog where
  formatVersion := catalogFormatVersion
  clusterId := 1
  version := 1
  routingEpoch := 1
  compatibility := ⟨1, "3.50.0", 4096, "linear-v1", "fnv1a-64"⟩
  routing := .linearV1 routing
  scalingPolicy := {}
  members := .ofList members
  voterTransition := none
  placements := .ofList placements
  operations := .empty
  nextOperationId := 1

/-! ## Voters -/

variable (c : Catalog)

/-- The voters, and during a transition the next ones. -/
def voterSets : Finset NodeId × Option (Finset NodeId) :=
  match c.voterTransition with
  | some transition => (transition.old, some transition.new)
  | none => (((c.members.values.filter (·.role = .voter)).map (·.node)).toFinset, none)

/-- Whether the node is in either set of a joint configuration. -/
def isVoter (node : NodeId) : Bool :=
  node ∈ c.voterSets.1 || c.voterSets.2.any (node ∈ ·)

/-! ## Changes -/

def setMemberState (node : NodeId) (state : MemberState) : Except Error Catalog := do
  let member ← okOr (c.members.get? node) (.clusterConfig s!"node {node} is not a member")
  return { c with members := c.members.insert node { member with state } }

def setScalingPolicy (policy : ScalingPolicy) : Except Error Catalog := do
  policy.validate
  return { c with scalingPolicy := policy }

/-- Enter joint consensus of the present voters and `new`. -/
def beginVoterChange (new : Finset NodeId) : Except Error Catalog := do
  refuseIf c.voterTransition.isSome
    (.clusterConfig "a voter change is already in joint consensus; finalize it first")
  refuseIf (new = ∅) (.clusterConfig "a voter configuration cannot be empty")
  new.ascending.forM fun node => do
    let member ← okOr (c.members.get? node)
      (.clusterConfig s!"new voter node {node} is not a member")
    refuseIf (member.role = .learner)
      (.clusterConfig
        s!"learner node {node} must complete its storage join before becoming a voter")
  refuseIf (c.voterSets.1 = new)
    (.clusterConfig "new voter set is identical to the current set")
  return { c with voterTransition := some ⟨c.voterSets.1, new⟩ }

/-- Leave joint consensus: the new set alone votes. -/
def finalizeVoterChange : Except Error Catalog := do
  let transition ← okOr c.voterTransition
    (.clusterConfig "there is no joint voter change to finalize")
  return { c with
    voterTransition := none
    members := c.members.mapValues (Member.settle transition.new) }

/-! ## The check -/

/-- A member has a weight and, if it names a failure domain, one with a name. -/
def validateMember (m : Member) : Except Error Unit := do
  refuseIf (m.capacityWeight = 0)
    (.clusterConfig s!"member {m.node} has zero placement capacity weight")
  refuseIf (m.failureDomain.any fun domain => domain.trimAscii.isEmpty)
    (.clusterConfig s!"member {m.node} has an empty failure domain")

/-- Both sets name members that are no learners. -/
def validateTransition (transition : VoterTransition) : Except Error Unit := do
  refuseIf (transition.old = ∅ ∨ transition.new = ∅)
    (.clusterConfig "joint voter configurations cannot be empty")
  (transition.old ∪ transition.new).ascending.forM fun node => do
    let member ← okOr (c.members.get? node)
      (.clusterConfig s!"joint voter configuration names missing node {node}")
    refuseIf (member.role = .learner)
      (.clusterConfig s!"joint voter configuration names learner node {node}")

/-- A placement is of an active shard and names members that are no learners. -/
def validatePlacement (shard : ShardId) (placement : ReplicaSet) : Except Error Unit := do
  refuseIf (shard ≥ c.routing.shardCount)
    (.clusterConfig (s!"placement contains inactive {shardName shard}; routing has " ++
      s!"{c.routing.shardCount} shards"))
  let primary ← okOr (c.members.get? placement.primary)
    (.clusterConfig s!"{shardName shard} names missing primary node {placement.primary}")
  refuseIf (primary.role = .learner)
    (.clusterConfig s!"{shardName shard} names learner node {placement.primary} as primary")
  placement.replicas.forM fun replica => do
    refuseIf (replica = placement.primary)
      (.clusterConfig
        s!"{shardName shard} lists primary {placement.primary} as its own replica")
    refuseIf (¬ c.members.contains replica)
      (.clusterConfig s!"{shardName shard} names missing replica node {replica}")

def validateTransfer (op : CatalogOperation) : Except Error Unit := do
  let shard ← okOr op.shard (.clusterConfig s!"transfer operation {op.id} has no shard")
  let source ← okOr op.source (.clusterConfig s!"transfer operation {op.id} has no source")
  let destination ← okOr op.destination
    (.clusterConfig s!"transfer operation {op.id} has no destination")
  refuseIf (source = destination)
    (.clusterConfig s!"transfer operation {op.id} has the same source and destination")
  refuseIf (shard ≥ c.routing.shardCount ∨ ¬ c.members.contains source ∨
      ¬ c.members.contains destination ∨ op.expectedGeneration = none)
    (.clusterConfig s!"transfer operation {op.id} references invalid topology state")

/-- The linear routing states a split moves between. -/
def splitRoutings (op : CatalogOperation) : Option (LinearV1 × LinearV1) :=
  match op.routingBefore, op.routingAfter with
  | some (.linearV1 before), some (.linearV1 after) => some (before, after)
  | _, _ => none

def validateSplit (op : CatalogOperation) : Except Error Unit := do
  let source ← okOr op.shard (.clusterConfig s!"split operation {op.id} has no source shard")
  let owner ← okOr op.source (.clusterConfig s!"split operation {op.id} has no source owner")
  let (before, after) ← okOr (splitRoutings op)
    (.clusterConfig s!"split operation {op.id} does not carry linear before/after routing")
  -- the growth is computed only once the source bucket is known to be the right one
  refuseIf (before.splitSource ≠ source)
    (.clusterConfig s!"split operation {op.id} references invalid topology state")
  let grown ← before.grown
  refuseIf (grown ≠ after ∨ op.destination ≠ some owner ∨
      op.expectedGeneration = none ∨ ¬ c.members.contains owner ∨
      owner ∉ op.splitRequiredNodes ∨ op.splitRequiredNodes = ∅ ∨
      ¬ op.splitInstalledNodes ⊆ op.splitRequiredNodes ∨
      ¬ op.splitCleanedNodes ⊆ op.splitRequiredNodes)
    (.clusterConfig s!"split operation {op.id} references invalid topology state")
  op.splitRequiredNodes.ascending.forM fun node =>
    refuseIf (¬ c.members.contains node)
      (.clusterConfig s!"split operation {op.id} requires missing node {node}")
  let committed := op.phase = .committed ∨ op.phase = .cleaning ∨ op.phase = .complete
  refuseIf (committed ∧ c.routing ≠ .linearV1 after)
    (.clusterConfig s!"committed split operation {op.id} does not match catalog routing")
  refuseIf (committed ∧ ¬ op.splitRequiredNodes ⊆ op.splitInstalledNodes)
    (.clusterConfig s!"committed split operation {op.id} is missing install acknowledgements")
  refuseIf (op.phase = .complete ∧ ¬ op.splitRequiredNodes ⊆ op.splitCleanedNodes)
    (.clusterConfig s!"complete split operation {op.id} is missing cleanup acknowledgements")
  refuseIf (¬ committed ∧ op.phase ≠ .aborted ∧ c.routing ≠ .linearV1 before)
    (.clusterConfig s!"uncommitted split operation {op.id} does not match catalog routing")

def validateJoin (op : CatalogOperation) : Except Error Unit := do
  let destination ← okOr op.destination
    (.clusterConfig s!"join operation {op.id} has no destination")
  refuseIf (¬ c.members.contains destination)
    (.clusterConfig s!"join operation {op.id} names missing node {destination}")

def validateDrain (op : CatalogOperation) : Except Error Unit := do
  let source ← okOr op.source (.clusterConfig s!"drain operation {op.id} has no source")
  refuseIf (¬ c.members.contains source)
    (.clusterConfig s!"drain operation {op.id} names missing node {source}")

def validateKind (op : CatalogOperation) : Except Error Unit :=
  match op.kind with
  | .transfer => c.validateTransfer op
  | .split => c.validateSplit op
  | .join => c.validateJoin op
  | .drain => c.validateDrain op
  | .remove => .ok ()

/-- Check the operations in id order; `active` holds the shards that an earlier
    operation is still working on. -/
def validateOperations (c : Catalog) (active : List ShardId) : List (Nat × CatalogOperation) → Except Error Unit
  | [] => .ok ()
  | (key, op) :: rest => do
    refuseIf (op.id = 0 ∨ op.id ≠ key)
      (.clusterConfig "catalog operation id is zero or does not match its map key")
    let active ← match op.shard with
      | some shard =>
        if op.phase.terminal then .ok active
        else if shard ∈ active then
          .error (.clusterConfig
            s!"{shardName shard} has more than one active topology operation")
        else .ok (shard :: active)
      | none => .ok active
    c.validateKind op
    c.validateOperations active rest

/-- What is checked of every catalog before it is written. -/
def validate : Except Error Unit := do
  refuseIf (c.formatVersion ≠ catalogFormatVersion)
    (.clusterConfig (s!"catalog format {c.formatVersion} is unsupported by format " ++
      s!"{catalogFormatVersion}"))
  refuseIf (c.routing.shardCount = 0) (.clusterConfig "catalog routing has no active shards")
  c.scalingPolicy.validate
  c.members.values.forM validateMember
  refuseIf (¬ c.members.values.any (·.role = .voter))
    (.clusterConfig "catalog must contain at least one voter")
  match c.voterTransition with
  | some transition => c.validateTransition transition
  | none => pure ()
  c.placements.entries.forM fun e => c.validatePlacement e.1 e.2
  c.validateOperations [] c.operations.entries

end Catalog

end Shardlite.Cluster
