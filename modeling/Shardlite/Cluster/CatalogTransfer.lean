/-
  Shardlite.Cluster.CatalogTransfer

  The catalog's side of moving a whole shard from one node to another.  Every
  command is guarded by the operation's phase; a command that has already taken
  effect succeeds without one.
-/
import Shardlite.Cluster.Catalog

namespace Shardlite.Cluster

/-! ## Names -/

/-- `{:?}` of a member's role. -/
def MemberRole.debug : MemberRole → String
  | .learner => "Learner"
  | .storage => "Storage"
  | .voter => "Voter"

/-- `{:?}` of a member's state. -/
def MemberState.debug : MemberState → String
  | .active => "Active"
  | .cordoned => "Cordoned"
  | .draining => "Draining"

/-- `{:?}` of an operation kind. -/
def OperationKind.debug : OperationKind → String
  | .join => "Join"
  | .transfer => "Transfer"
  | .split => "Split"
  | .drain => "Drain"
  | .remove => "Remove"

/-- `{:?}` of an operation phase. -/
def OperationPhase.debug : OperationPhase → String
  | .planned => "Planned"
  | .snapshotting => "Snapshotting"
  | .catchingUp => "CatchingUp"
  | .prepared => "Prepared"
  | .fencing => "Fencing"
  | .installing => "Installing"
  | .committed => "Committed"
  | .cleaning => "Cleaning"
  | .complete => "Complete"
  | .aborted => "Aborted"

namespace Catalog

/-! ## Operations -/

/-- `value.expect(msg)`. -/
def expect {α : Type} (value : Option α) (msg : String) : Except Error α :=
  okOr value (.panicked msg)

variable (c : Catalog)

def setOperation (id : Nat) (op : CatalogOperation) : Catalog :=
  { c with operations := c.operations.insert id op }

/-- The operation `id`, if it is of this kind and in this phase. -/
def operationIn (id : Nat) (kind : OperationKind) (phase : OperationPhase) :
    Except Error CatalogOperation := do
  let op ← okOr (c.operations.get? id) (.clusterConfig s!"operation {id} does not exist")
  refuseIf (op.kind ≠ kind ∨ op.phase ≠ phase)
    (.clusterConfig (s!"operation {id} is {op.kind.debug}/{op.phase.debug}, expected " ++
      s!"{kind.debug}/{phase.debug}; refusing stale or out-of-order command"))
  return op

variable {id : Nat} {kind : OperationKind}

theorem expect_eq_ok {α : Type} {value : Option α} {msg : String} {a : α} :
    expect value msg = .ok a ↔ value = some a := okOr_eq_ok

theorem operationIn_eq_ok {c : Catalog} {phase : OperationPhase} {op : CatalogOperation} :
    c.operationIn id kind phase = .ok op ↔
      c.operations.get? id = some op ∧ op.kind = kind ∧ op.phase = phase := by
  simp only [operationIn, bind_eq_ok, okOr_eq_ok, refuseIf_eq_ok, not_or, not_not, pure_eq_ok]
  constructor
  · rintro ⟨found, hfound, -, hsame, rfl⟩
    exact ⟨hfound, hsame⟩
  · rintro ⟨hfound, hsame⟩
    exact ⟨op, hfound, (), hsame, rfl⟩

def transition (id : Nat) (kind : OperationKind) (expected next : OperationPhase) :
    Except Error Catalog := do
  let op ← c.operationIn id kind expected
  return c.setOperation id { op with phase := next }

theorem transition_eq_ok {c c' : Catalog} {expected next : OperationPhase} :
    c.transition id kind expected next = .ok c' ↔
      ∃ op, c.operations.get? id = some op ∧ op.kind = kind ∧ op.phase = expected ∧
        c' = c.setOperation id { op with phase := next } := by
  simp only [transition, bind_eq_ok, operationIn_eq_ok, pure_eq_ok, and_assoc, @eq_comm _ c']

def startOperation (kind : OperationKind) (shard : Option ShardId)
    (source destination : Option NodeId) (expectedGeneration : Option Nat) :
    Except Error (Nat × Catalog) := do
  match shard with
  | some shard =>
    refuseIf (c.operations.values.any fun op => op.shard = some shard ∧ ¬ op.phase.terminal)
      (.clusterConfig s!"{shardName shard} already has an active topology operation")
  | none => pure ()
  let id := c.nextOperationId
  let next ← okOr (checkedSucc id) (.clusterConfig "operation id space exhausted")
  let op : CatalogOperation :=
    { id, kind, phase := .planned, shard, source, destination, expectedGeneration
      createdVersion := c.version }
  return (id, { c.setOperation id op with nextOperationId := next })

def startTransfer (shard : ShardId) (destination : NodeId) : Except Error (Nat × Catalog) := do
  let placement ← okOr (c.placements.get? shard)
    (.clusterConfig s!"{shardName shard} has no committed placement to transfer")
  let member ← okOr (c.members.get? destination)
    (.clusterConfig s!"destination node {destination} is not a member")
  refuseIf (¬ member.mayReceivePlacement)
    (.clusterConfig (s!"destination node {destination} is {member.role.debug}/" ++
      s!"{member.state.debug} and may not receive a primary"))
  refuseIf (placement.primary = destination)
    (.clusterConfig s!"destination node {destination} already owns {shardName shard}")
  let (id, c) ← c.startOperation .transfer (some shard) (some placement.primary) (some destination)
    (some placement.generation)
  let op ← expect (c.operations.get? id) "new transfer operation"
  return (id, c.setOperation id { op with retainSourceReplica := destination ∈ placement.replicas })

/-! ## Progress of a transfer -/

def beginSnapshot (id : Nat) : Except Error Catalog :=
  c.transition id .transfer .planned .snapshotting

def prepareTransfer (id : Nat) : Except Error Catalog :=
  c.transition id .transfer .catchingUp .prepared

def beginFencing (id : Nat) : Except Error Catalog :=
  c.transition id .transfer .prepared .fencing

def beginCleanup (id : Nat) : Except Error Catalog :=
  c.transition id .transfer .committed .cleaning

/-- The identity of the installed snapshot; catching up begins. -/
def snapshotInstalled (id epoch lsn : Nat) : Except Error Catalog := do
  refuseIf (epoch = 0)
    (.clusterConfig (s!"operation {id} destination reported an uninitialised stream epoch; it " ++
      "must install a source snapshot before catch-up"))
  let op ← c.operationIn id .transfer .snapshotting
  return c.setOperation id
    { op with
      streamEpoch := some epoch, snapshotLsn := some lsn, durableLsn := some lsn
      phase := .catchingUp }

/-- Advance the destination's durable position in `phase`.  Regressions and stream
    changes are refused. -/
def recordDurable (phase : OperationPhase)
    (mismatch : CatalogOperation → String) (id epoch durableLsn : Nat) : Except Error Catalog := do
  let op ← c.operationIn id .transfer phase
  refuseIf (op.streamEpoch ≠ some epoch) (.clusterConfig (mismatch op))
  let previous := op.durableLsn.getD 0
  refuseIf (durableLsn < previous)
    (.clusterConfig (s!"operation {id} durable LSN regressed from {previous} to {durableLsn}"))
  return c.setOperation id { op with durableLsn := some durableLsn }

def recordCatchUp (id epoch durableLsn : Nat) : Except Error Catalog :=
  c.recordDurable .catchingUp
    (fun op => s!"operation {id} snapshot is from epoch {debugOption op.streamEpoch}, catch-up " ++
      s!"reported epoch {epoch}") id epoch durableLsn

def recordFencedCatchUp (id epoch durableLsn : Nat) : Except Error Catalog :=
  c.recordDurable .fencing
    (fun op => s!"operation {id} expected epoch {debugOption op.streamEpoch}, got {epoch}")
    id epoch durableLsn

/-- The source's position after its gate closed. -/
def recordFinalLsn (id epoch lsn : Nat) : Except Error Catalog := do
  let op ← c.operationIn id .transfer .fencing
  refuseIf (op.streamEpoch ≠ some epoch)
    (.clusterConfig (s!"operation {id} cannot fence epoch {epoch}; its snapshot is epoch " ++
      debugOption op.streamEpoch))
  refuseIf (lsn < op.durableLsn.getD 0)
    (.clusterConfig (s!"operation {id} final LSN {lsn} is behind destination durable LSN " ++
      toString (op.durableLsn.getD 0)))
  return c.setOperation id { op with finalLsn := some lsn }

/-- The source restarted into a new stream while fenced: what the destination
    reported belongs to the old one and is discarded. -/
def restartFencedStream (id epoch finalLsn : Nat) : Except Error Catalog := do
  refuseIf (epoch = 0)
    (.clusterConfig "a fenced transfer cannot restart into stream epoch zero")
  let op ← c.operationIn id .transfer .fencing
  if op.streamEpoch = some epoch then
    if op.finalLsn = some finalLsn ∧ op.snapshotLsn = none then return c
    else
      .error (.clusterConfig (s!"operation {id} already uses stream epoch {epoch} with final LSN " ++
        debugOption op.finalLsn))
  else
    return c.setOperation id
      { op with
        streamEpoch := some epoch, snapshotLsn := none, durableLsn := none
        finalLsn := some finalLsn }

/-- A replacement snapshot installed while the source remains fenced. -/
def recordFencedBootstrap (id epoch durableLsn : Nat) : Except Error Catalog := do
  let op ← c.operationIn id .transfer .fencing
  refuseIf (op.streamEpoch ≠ some epoch)
    (.clusterConfig (s!"operation {id} restarted in epoch {debugOption op.streamEpoch}, " ++
      s!"destination bootstrapped epoch {epoch}"))
  refuseIf (durableLsn < op.finalLsn.getD 0)
    (.clusterConfig (s!"operation {id} replacement snapshot LSN {durableLsn} is behind fenced " ++
      s!"final LSN {op.finalLsn.getD 0}"))
  return c.setOperation id { op with snapshotLsn := some durableLsn, durableLsn := some durableLsn }

/-- Publish the destination as primary.  The source stays a replica until cleanup. -/
def commitTransfer (id : Nat) : Except Error Catalog := do
  let op ← c.operationIn id .transfer .fencing
  let shard ← expect op.shard "validated transfer shard"
  let source ← expect op.source "validated transfer source"
  let destination ← expect op.destination "validated transfer destination"
  let expectedGeneration ← expect op.expectedGeneration "validated transfer generation"
  refuseIf (op.snapshotLsn = none)
    (.clusterConfig s!"operation {id} has no destination snapshot for its current stream epoch")
  let finalLsn ← okOr op.finalLsn
    (.clusterConfig s!"operation {id} has no final fenced LSN; ownership cannot commit")
  refuseIf (op.durableLsn.getD 0 < finalLsn)
    (.clusterConfig (s!"operation {id} destination is durable through LSN " ++
      s!"{op.durableLsn.getD 0}, short of final LSN {finalLsn}"))
  let placement ← okOr (c.placements.get? shard)
    (.clusterConfig s!"{shardName shard} lost its committed placement")
  refuseIf (placement.generation ≠ expectedGeneration ∨ placement.primary ≠ source)
    (.clusterConfig (s!"operation {id} expected {shardName shard} generation " ++
      s!"{expectedGeneration} owned by node {source}, but catalog has generation " ++
      s!"{placement.generation} owned by node {placement.primary}; refusing stale cutover"))
  let generation ← okOr (checkedSucc placement.generation)
    (.clusterConfig s!"{shardName shard} ownership generation exhausted")
  let replicas := placement.replicas.filter (· ≠ destination)
  let replicas :=
    if source ∈ replicas then replicas else (replicas ++ [source]).insertionSort (· ≤ ·)
  return { c.setOperation id { op with phase := .committed } with
    placements := c.placements.insert shard { generation, primary := destination, replicas } }

/-- The last step: unless it was one before, the source stops being a replica. -/
def completeTransfer (id : Nat) : Except Error Catalog := do
  let op ← c.operationIn id .transfer .cleaning
  let done := c.setOperation id { op with phase := .complete }
  if op.retainSourceReplica then return done
  else
    let shard ← expect op.shard "validated transfer shard"
    let placement ← okOr (c.placements.get? shard)
      (.clusterConfig s!"operation {id} lost its placement during cleanup")
    let replicas := placement.replicas.filter fun node => some node ≠ op.source
    return { done with placements := done.placements.insert shard { placement with replicas } }

def abortOperation (id : Nat) (reason : String) : Except Error Catalog := do
  let op ← okOr (c.operations.get? id) (.clusterConfig s!"operation {id} does not exist")
  refuseIf (¬ op.phase.mayAbort)
    (.clusterConfig (s!"operation {id} is {op.phase.debug}; the ownership boundary may have been " ++
      "crossed, so recovery must roll forward"))
  return c.setOperation id { op with phase := .aborted, lastError := some reason }

end Catalog

/-! ## Commands -/

/-- The commands that a transfer's supervisors send. -/
inductive TransferProgress where
  | beginSnapshot
  | snapshotInstalled (epoch lsn : Nat)
  | catchUp (epoch durableLsn : Nat)
  | prepare
  | beginFencing
  | finalLsn (epoch lsn : Nat)
  | restartFencedSource (epoch finalLsn : Nat)
  | fencedBootstrap (epoch durableLsn : Nat)
  | fencedCatchUp (epoch durableLsn : Nat)
  | commit
  | beginCleanup
  | complete
  | abort (reason : String)
  deriving DecidableEq, Repr

namespace TransferProgress

/-- `{:?}` of a command with two numbers. -/
def debugPair (name first second : String) (a b : Nat) : String :=
  s!"{name} \x7b {first}: {a}, {second}: {b} \x7d"

/-- `{:?}` of a command. -/
def debug : TransferProgress → String
  | .beginSnapshot => "BeginSnapshot"
  | .snapshotInstalled epoch lsn => debugPair "SnapshotInstalled" "epoch" "lsn" epoch lsn
  | .catchUp epoch durableLsn => debugPair "CatchUp" "epoch" "durable_lsn" epoch durableLsn
  | .prepare => "Prepare"
  | .beginFencing => "BeginFencing"
  | .finalLsn epoch lsn => debugPair "FinalLsn" "epoch" "lsn" epoch lsn
  | .restartFencedSource epoch lsn =>
    debugPair "RestartFencedSource" "epoch" "final_lsn" epoch lsn
  | .fencedBootstrap epoch durableLsn =>
    debugPair "FencedBootstrap" "epoch" "durable_lsn" epoch durableLsn
  | .fencedCatchUp epoch durableLsn =>
    debugPair "FencedCatchUp" "epoch" "durable_lsn" epoch durableLsn
  | .commit => "Commit"
  | .beginCleanup => "BeginCleanup"
  | .complete => "Complete"
  | .abort reason => s!"Abort \x7b reason: {reason.quote} \x7d"

def rank : OperationPhase → Nat
  | .planned => 0
  | .snapshotting => 1
  | .catchingUp | .installing => 2
  | .prepared => 3
  | .fencing => 4
  | .committed => 5
  | .cleaning => 6
  | .complete => 7
  | .aborted => 8

def target : TransferProgress → OperationPhase
  | .beginSnapshot => .snapshotting
  | .snapshotInstalled _ _ | .catchUp _ _ => .catchingUp
  | .prepare => .prepared
  | .beginFencing | .finalLsn _ _ | .restartFencedSource _ _ | .fencedBootstrap _ _
  | .fencedCatchUp _ _ => .fencing
  | .commit => .committed
  | .beginCleanup => .cleaning
  | .complete => .complete
  | .abort _ => .aborted

def alreadyApplied (phase : OperationPhase) (progress : TransferProgress) : Bool :=
  if phase = .aborted then progress.target = .aborted
  else rank progress.target ≤ rank phase

end TransferProgress

/-- What a command does in the phase it is for. -/
def Catalog.progressTransfer (c : Catalog) (id : Nat) (phase : OperationPhase) :
    TransferProgress → Option (Except Error Catalog)
  | .beginSnapshot =>
    if phase = .planned then some (c.beginSnapshot id) else none
  | .snapshotInstalled epoch lsn =>
    if phase = .snapshotting then some (c.snapshotInstalled id epoch lsn) else none
  | .catchUp epoch durableLsn =>
    if phase = .catchingUp then some (c.recordCatchUp id epoch durableLsn) else none
  | .prepare =>
    if phase = .catchingUp then some (c.prepareTransfer id) else none
  | .beginFencing =>
    if phase = .prepared then some (c.beginFencing id) else none
  | .finalLsn epoch lsn =>
    if phase = .fencing then some (c.recordFinalLsn id epoch lsn) else none
  | .restartFencedSource epoch finalLsn =>
    if phase = .fencing then some (c.restartFencedStream id epoch finalLsn) else none
  | .fencedBootstrap epoch durableLsn =>
    if phase = .fencing then some (c.recordFencedBootstrap id epoch durableLsn) else none
  | .fencedCatchUp epoch durableLsn =>
    if phase = .fencing then some (c.recordFencedCatchUp id epoch durableLsn) else none
  | .commit => if phase = .fencing then some (c.commitTransfer id) else none
  | .beginCleanup =>
    if phase = .committed then some (c.beginCleanup id) else none
  | .complete => if phase = .cleaning then some (c.completeTransfer id) else none
  | .abort reason => if phase.mayAbort then some (c.abortOperation id reason) else none

/-- Apply a transfer command; one that has already taken effect changes nothing. -/
def Catalog.applyTransfer (c : Catalog) (id : Nat) (progress : TransferProgress) :
    Except Error Catalog := do
  let op ← okOr (c.operations.get? id) (.clusterConfig s!"operation {id} does not exist")
  match c.progressTransfer id op.phase progress with
  | some result => result
  | none =>
    if progress.alreadyApplied op.phase then return c
    else
      .error (.clusterConfig (s!"transfer operation {id} is in phase {op.phase.debug}; command " ++
        s!"{progress.debug} is stale or out of order"))

end Shardlite.Cluster
