/-
  Shardlite.Cluster.Transfer

  One shard that moves between nodes.  Clients write where the gate is open;
  every node runs a transfer supervisor against its own, possibly old, copy of
  the catalog; what a supervisor submits may be applied at any later point, any
  number of times.  A shard's file is the list of the batches committed to it.

  A write that spans shards is prepared first: this shard's part waits in an open
  transaction, and the gate is asked again when the decision comes.  A part that
  is then rolled back is answered like one that was committed.

  `acked` is history, read by no step: every batch acknowledged to a client, by
  whom and at which position of that node's stream.
-/
import Shardlite.Cluster.CatalogTransfer
import Shardlite.Cluster.Coordinator
import Shardlite.Replication.StreamIdentity

namespace Shardlite.Cluster

open Shardlite.Replication Function

/-- How far a writer thread has come with a batch. -/
inductive WriteStage (W : Type) where
  /-- The gate was open. -/
  | checked
  /-- Committed, and in the stream; a quorum is awaited. -/
  | shipped (batch : W) (epoch lsn : Nat)
  deriving DecidableEq

/-- How far the source's supervisor has come with its fence. -/
inductive FenceStage where
  /-- The operation was read from the node's catalog. -/
  | seen
  | closed
  /-- The batches begun before the gate closed have ended. -/
  | drained
  deriving DecidableEq

/-- A supervisor's tick: the operation it read and how far it has come. -/
structure TransferTick where
  op : CatalogOperation
  stage : FenceStage
  deriving DecidableEq

/-- A batch a client was told of, with the node's position then. -/
structure Ack (W : Type) where
  node : NodeId
  batch : W
  epoch : Nat
  lsn : Nat
  deriving DecidableEq

/-- The shard on every node, the catalog, and what is under way between them. -/
structure TransferNet (W : Type) where
  /-- The latest committed catalog; each host has the one it learned last. -/
  catalog : Catalog
  hosts : NodeId → Host
  maps : List Placement
  replicas : NodeId → Replica (List W) W
  writers : NodeId → Option (WriteStage W)
  /-- This shard's part of a cross-shard write, prepared and not decided. -/
  parked : NodeId → Option W
  ticks : NodeId → Option TransferTick
  /-- What supervisors submitted: operation and command. -/
  commands : List (Nat × TransferProgress)
  acked : List (Ack W)

/-- This is a transfer of `shard`. -/
def CatalogOperation.Moves (op : CatalogOperation) (shard : ShardId) : Prop :=
  op.kind = .transfer ∧ op.shard = some shard

instance (op : CatalogOperation) (shard : ShardId) : Decidable (op.Moves shard) :=
  inferInstanceAs (Decidable (_ ∧ _))

/-- The operation is neither committed nor aborted. -/
def OperationPhase.undecided : OperationPhase → Bool
  | .planned | .snapshotting | .catchingUp | .prepared | .fencing | .installing => true
  | .committed | .cleaning | .complete | .aborted => false

/-- The gate of `shard` is open, or the application in flight would open it. -/
def Host.MayOpen (h : Host) (shard : ShardId) : Prop := ∃ term, h.Claims term shard

/-- The parameters of a run: one shard and the catalog it starts from. -/
structure TransferSystem (W : Type) where
  shard : ShardId
  /-- How many shards a node without a catalog serves. -/
  shards : Nat
  ownership : NodeId → Bool
  retention : Retention W
  perShardBytes : Nat
  catalog : Catalog
  placed : (catalog.placements.get? shard).isSome
  /-- No transfer of the shard has been planned yet. -/
  fresh : ∀ e ∈ catalog.operations.entries, ¬ e.2.Moves shard

/-- What coordinators, nodes, writers, supervisors and the catalog do. -/
inductive TransferAct (W : Type) where
  /-- A coordinator sends out the map its catalog gives. -/
  | plan (l : NodeId) (term : Nat)
  | applyMap (i : NodeId) (p : Placement)
  | resume (i : NodeId) (ok : Bool)
  | stepDown (i : NodeId) (term : Nat)
  | splitTick (i : NodeId) (term : Nat)
  /-- The node's catalog becomes the committed one. -/
  | learn (i : NodeId)
  | beginWrite (i : NodeId)
  | commitWrite (i : NodeId) (batch : W)
  /-- The batch ends; `ok` if the client is told that it succeeded. -/
  | endWrite (i : NodeId) (ok : Bool)
  | prepareWrite (i : NodeId) (batch : W)
  | decideWrite (i : NodeId) (commit : Bool)
  /-- The process dies, perhaps with a batch committed and not shipped; `leftOver`
      if the log it starts again over is not a new one. -/
  | crash (i : NodeId) (lost : Option W) (leftOver : Bool)
  | shutdown (i : NodeId) (leftOver : Bool)
  /-- A left-over log is truncated: the next commit starts a new one. -/
  | newLog (i : NodeId)
  | follow (i : NodeId)
  | lead (i : NodeId)
  | pull (j i : NodeId) (maxTxns : Nat)
  | bootstrap (j i : NodeId) (lsn : Nat) (torn : Option (List W))
  /-- A supervisor reads the operation to work on. -/
  | tick (i : NodeId)
  | fenceClose (i : NodeId)
  | fenceDrain (i : NodeId)
  /-- The rest of the tick, by a node that leads or not and whose file has this
      many bytes. -/
  | report (i : NodeId) (leader : Bool) (bytes : Nat)
  | apply (id : Nat) (progress : TransferProgress)
  | startTransfer (destination : NodeId)
  /-- Any other catalog change: none touches this shard's placement or transfers. -/
  | otherChange (next : Catalog)

namespace TransferNet

variable {W : Type} (w : TransferNet W) (i : NodeId)

def setHost (h : Host) : TransferNet W :=
  { w with hosts := update w.hosts i h }

def setReplica (r : Replica (List W) W) : TransferNet W :=
  { w with replicas := update w.replicas i r }

def setWriter (stage : Option (WriteStage W)) : TransferNet W :=
  { w with writers := update w.writers i stage }

def setParked (batch : Option W) : TransferNet W :=
  { w with parked := update w.parked i batch }

def setTick (tick : Option TransferTick) : TransferNet W :=
  { w with ticks := update w.ticks i tick }

def setNode (h : Host) (r : Replica (List W) W) (stage : Option (WriteStage W))
    (tick : Option TransferTick) : TransferNet W :=
  { w with
    hosts := update w.hosts i h
    replicas := update w.replicas i r
    writers := update w.writers i stage
    ticks := update w.ticks i tick }

/-- A supervisor submits a command and ends its tick. -/
def submit (commands : List (Nat × TransferProgress)) : TransferNet W :=
  { w.setTick i none with commands := commands ++ w.commands }

/-- Commit a changed catalog, if it is valid. -/
def publish (changed : Except Error Catalog) : TransferNet W :=
  match changed with
  | .ok next =>
    match checkedSucc next.version with
    | some version =>
      match ({ next with version } : Catalog).validate with
      | .ok _ => { w with catalog := { next with version } }
      | .error _ => w
    | none => w
  | .error _ => w

end TransferNet

/-! ## The supervisor -/

/-- Whether the reporting node has handed its file to replication first: a source
    that demoted itself, or a destination. -/
def TransferProgress.afterFollow : TransferProgress → Bool
  | .snapshotInstalled _ _ | .catchUp _ _ | .prepare | .fencedBootstrap _ _ | .fencedCatchUp _ _
  | .beginCleanup => true
  | .beginSnapshot | .beginFencing | .finalLsn _ _ | .restartFencedSource _ _ | .commit | .complete
  | .abort _ => false

def Catalog.activeTransfer (c : Catalog) : Option CatalogOperation :=
  c.operations.values.find? fun op => op.kind = .transfer ∧ ¬ op.phase.terminal

namespace CatalogOperation

variable (op : CatalogOperation)

/-- What the source submits, once it has closed its gate and drained its writers
    if it is fencing. -/
def sourceProgress (epoch lsn bytes limit : Nat) : Option TransferProgress :=
  if op.phase = .snapshotting ∧ 0 < limit ∧ limit < bytes then
    some (.abort (s!"transfer source is {bytes} bytes, above policy " ++
      s!"max_transfer_source_bytes {limit}"))
  else if (op.phase = .catchingUp ∨ op.phase = .prepared) ∧ op.streamEpoch ≠ none ∧
      op.streamEpoch ≠ some epoch then
    some (.abort (s!"source restarted from stream epoch {debugOption op.streamEpoch} into " ++
      s!"{debugOption (some epoch)} before fencing; automatic repair will plan a fresh transfer"))
  else if op.phase = .fencing ∧ op.streamEpoch ≠ some epoch then
    -- the source restarted behind its fence: a new final position in the new stream
    some (.restartFencedSource epoch lsn)
  else if op.phase = .fencing ∧ op.finalLsn = none then some (.finalLsn epoch lsn)
  else if op.phase = .committed then some .beginCleanup
  else none

/-- What the leader moves on, from committed evidence only. -/
def leaderProgress : Option TransferProgress :=
  match op.phase with
  | .planned => some .beginSnapshot
  | .prepared => some .beginFencing
  | .fencing =>
    match op.finalLsn with
    | some final => if final ≤ op.durableLsn.getD 0 then some .commit else none
    | none => none
  | .cleaning => some .complete
  | _ => none

/-- What the destination submits about the position it holds. -/
def destinationProgress (position : Position) : List TransferProgress :=
  match op.phase with
  | .snapshotting => [.snapshotInstalled position.epoch position.appliedLsn]
  | .catchingUp => [.catchUp position.epoch position.appliedLsn, .prepare]
  | .fencing =>
    match op.finalLsn with
    | some final =>
      if op.snapshotLsn = none then [.fencedBootstrap position.epoch position.appliedLsn]
      else if op.durableLsn.getD 0 < final then
        [.fencedCatchUp position.epoch position.appliedLsn]
      else []
    | none => []
  | _ => []

/-- What node `i` submits in one tick: the source first, then the leader, then
    the destination. -/
def progressOf (i : NodeId) (leader : Bool) (epoch lsn bytes limit : Nat) (position : Position) :
    List TransferProgress :=
  match if op.source = some i then op.sourceProgress epoch lsn bytes limit else none with
  | some progress => [progress]
  | none =>
    match if leader then op.leaderProgress else none with
    | some progress => [progress]
    | none => if op.destination = some i then op.destinationProgress position else []

end CatalogOperation

/-! ## Steps -/

namespace TransferSystem

variable {W : Type} (sys : TransferSystem W)

/-- Files that keep the batches committed to them. -/
def files : ReplicaConfig (List W) W where
  shard := sys.shard
  empty := []
  app batches batch := batches ++ [batch]
  retention := sys.retention
  perShardBytes := sys.perShardBytes

def init : TransferNet W where
  catalog := sys.catalog
  hosts i :=
    { node := i, shards := sys.shards, ownership := sys.ownership i, catalog := some sys.catalog
      fence := .new i 0 }
  maps := []
  replicas := sys.files.init
  writers _ := none
  parked _ := none
  ticks _ := none
  commands := []
  acked := []

variable (w : TransferNet W) (i : NodeId)

/-- The writer thread is free, the shard is this node's, and its gate is open. -/
def Ready : Prop :=
  ((w.hosts i).fence.openTerm sys.shard).isSome ∧ (w.replicas i).led ∧ w.writers i = none

instance : Decidable (sys.Ready w i) := inferInstanceAs (Decidable (_ ∧ _ ∧ _ = none))

/-- Writes behind a prepared one are held back until it is decided. -/
def beginWrite : TransferNet W :=
  if sys.Ready w i ∧ w.parked i = none then w.setWriter i (some .checked) else w

def commitWrite (batch : W) : TransferNet W :=
  match w.writers i with
  | some .checked =>
    -- a decision commits what was prepared
    let batch := (w.parked i).getD batch
    let r := (w.replicas i).commit sys.files batch
    ((w.setReplica i r).setWriter i
      (some (.shipped batch r.positions.epoch (r.lastLsn sys.files)))).setParked i none
  | _ => w

def endWrite (ok : Bool) : TransferNet W :=
  match w.writers i with
  | some (.shipped batch epoch lsn) =>
    let w := w.setWriter i none
    if ok then { w with acked := ⟨i, batch, epoch, lsn⟩ :: w.acked } else w
  -- the batch failed, or was rolled back
  | some .checked => (w.setWriter i none).setParked i none
  | none => w

def prepareWrite (batch : W) : TransferNet W :=
  if sys.Ready w i ∧ w.parked i = none then w.setParked i (some batch) else w

/-- The decision on a prepared write.  The client is told once every shard has
    decided; here it counts as told when this one has. -/
def decideWrite (commit : Bool) : TransferNet W :=
  match w.writers i, w.parked i with
  | none, some batch =>
    let r := w.replicas i
    if ¬ commit ∨ ¬ r.led then w.setParked i none
    else if sys.Ready w i then w.setWriter i (some .checked)
    else
      -- rolled back by a gate that closed in between, and reported as decided
      { w.setParked i none with
        acked := ⟨i, batch, r.positions.epoch, r.lastLsn sys.files⟩ :: w.acked }
  | _, _ => w

/-- The gate, the writer and the supervisor begin anew. -/
def restarted (r : Replica (List W) W) : TransferNet W :=
  ((((w.setReplica i r).setHost i (w.hosts i).restart).setWriter i none).setTick i none).setParked
    i none

def crash (lost : Option W) (leftOver : Bool) : TransferNet W :=
  -- only a batch past the gate can be committed and not shipped
  let lost := match w.writers i with
    | some .checked => lost.map (w.parked i).getD
    | _ => none
  restarted w i ((w.replicas i).crash sys.files lost leftOver)

def shutdown (leftOver : Bool) : TransferNet W :=
  if w.writers i = none then restarted w i ((w.replicas i).shutdown sys.files leftOver) else w

/-- Handing the file to replication waits for the writers and closes the shard's
    connection, which ends a prepared write: its decision then fails. -/
def follow : TransferNet W :=
  if w.writers i = none then
    (w.setReplica i { w.replicas i with led := false }).setParked i none
  else w

def pull (j i : NodeId) (maxTxns : Nat) : TransferNet W :=
  if ¬ (w.replicas j).led ∧ i ≠ j then
    w.setReplica j ((w.replicas j).pull sys.files (w.replicas i) i maxTxns)
  else w

def bootstrap (j i : NodeId) (lsn : Nat) (torn : Option (List W)) : TransferNet W :=
  if ¬ (w.replicas j).led ∧ (w.replicas i).led ∧ i ≠ j then
    w.setReplica j ((w.replicas j).bootstrap sys.files (w.replicas i) i lsn torn)
  else w

/-- The supervisor works on the one active transfer of its node's catalog. -/
def tick : TransferNet W :=
  match ((w.hosts i).catalog.bind (·.activeTransfer)) with
  | some op => if op.shard = some sys.shard then w.setTick i (some ⟨op, .seen⟩) else w
  | none => w

def fenceClose : TransferNet W :=
  match w.ticks i with
  | some ⟨op, .seen⟩ =>
    if op.source = some i ∧ op.phase = .fencing then
      let h := w.hosts i
      (w.setHost i { h with fence := (h.fence.closeShard sys.shard).1 }).setTick i
        (some ⟨op, .closed⟩)
    else w
  | _ => w

/-- The barrier waits behind every batch already begun and closes the connection. -/
def fenceDrain : TransferNet W :=
  match w.ticks i with
  | some ⟨op, .closed⟩ =>
    if w.writers i = none then (w.setTick i (some ⟨op, .drained⟩)).setParked i none else w
  | _ => w

/-- What node `i` submits about `op` in its present state. -/
def reports (leader : Bool) (bytes : Nat) (op : CatalogOperation) : List TransferProgress :=
  let r := w.replicas i
  let limit := (w.hosts i).catalog.elim 0 (·.scalingPolicy.maxTransferSourceBytes)
  op.progressOf i leader r.positions.epoch (r.lastLsn sys.files) bytes limit r.position

def report (leader : Bool) (bytes : Nat) : TransferNet W :=
  match w.ticks i with
  | some ⟨op, stage⟩ =>
    let reports := sys.reports w i leader bytes op
    if op.source = some i ∧ op.phase = .fencing ∧ stage ≠ .drained then w
    else if reports.any (·.afterFollow) ∧ (w.replicas i).led then w
    else w.submit i (reports.map fun progress => (op.id, progress))
  | none => w

def apply (id : Nat) (progress : TransferProgress) : TransferNet W :=
  if (id, progress) ∈ w.commands then w.publish (w.catalog.applyTransfer id progress) else w

def startTransfer (destination : NodeId) : TransferNet W :=
  w.publish ((w.catalog.startTransfer sys.shard destination).map Prod.snd)

/-- The transfers of this shard, by operation id. -/
def transfers (c : Catalog) : List (Nat × CatalogOperation) :=
  c.operations.entries.filter fun e => e.2.Moves sys.shard

def otherChange (next : Catalog) : TransferNet W :=
  if next.placements.get? sys.shard = w.catalog.placements.get? sys.shard ∧
      sys.transfers next = sys.transfers w.catalog ∧
      w.catalog.nextOperationId ≤ next.nextOperationId then
    w.publish (.ok next)
  else w

def step : TransferAct W → TransferNet W
  | .plan l term => { w with maps := (w.hosts l).plan term :: w.maps }
  | .applyMap i p => if p ∈ w.maps then w.setHost i ((w.hosts i).applyPlacement p) else w
  | .resume i ok => w.setHost i ((w.hosts i).resume ok)
  | .stepDown i term => w.setHost i { w.hosts i with fence := (w.hosts i).fence.stepDown term }
  | .splitTick i term => w.setHost i ((w.hosts i).splitTick term)
  | .learn i => w.setHost i { w.hosts i with catalog := some w.catalog }
  | .beginWrite i => sys.beginWrite w i
  | .commitWrite i batch => sys.commitWrite w i batch
  | .endWrite i ok => endWrite w i ok
  | .prepareWrite i batch => sys.prepareWrite w i batch
  | .decideWrite i commit => sys.decideWrite w i commit
  | .crash i lost leftOver => sys.crash w i lost leftOver
  | .shutdown i leftOver => sys.shutdown w i leftOver
  | .newLog i => w.setReplica i { w.replicas i with leftOver := false }
  | .follow i => follow w i
  | .lead i => w.setReplica i { w.replicas i with led := true }
  | .pull j i maxTxns => sys.pull w j i maxTxns
  | .bootstrap j i lsn torn => sys.bootstrap w j i lsn torn
  | .tick i => sys.tick w i
  | .fenceClose i => sys.fenceClose w i
  | .fenceDrain i => fenceDrain w i
  | .report i leader bytes => sys.report w i leader bytes
  | .apply id progress => apply w id progress
  | .startTransfer destination => sys.startTransfer w destination
  | .otherChange next => sys.otherChange w next

end TransferSystem

end Shardlite.Cluster
